import CValues.Expr.Eval
import CValues.Proofs.Expr.Reader

/-!
# Written expressions are read back

An expression is written with few parentheses, and C's precedences bring the others back: read
again, the lexemes of an expression give the expression itself, less the nodes that only grouped it
or converted it silently. An expression without silent conversions therefore keeps its value.

The level that decides where parentheses are written is the rank by which the reader groups. An
assignment is not written, and has the level of what it assigns, so it never stands in the way.
-/

namespace CValues.Expr

/-- The expression without the nodes of parentheses and assignments. -/
def bare : Expr → Expr
  | literal v => literal v
  | char c => char c
  | cast t e => cast t e.bare
  | assign _ e => e.bare
  | paren e => e.bare
  | unary op e => unary op e.bare
  | binary op l r => binary op l.bare r.bare
  | compare op l r => compare op l.bare r.bare
  | logical op l r => logical op l.bare r.bare

/-- No part of the expression is an assignment. -/
def isAssignFree : Expr → Bool
  | literal _ | char _ => true
  | assign _ _ => false
  | cast _ e | paren e | unary _ e => e.isAssignFree
  | binary _ l r | compare _ l r | logical _ l r => l.isAssignFree && r.isAssignFree

/-! ## Levels are ranks -/

private theorem rank_binary (op : BinaryOp) : (Infix.binary op).rank = op.level := by
  cases op <;> decide

private theorem rank_compare (op : CompareOp) : (Infix.compare op).rank = op.level := by
  cases op <;> decide

private theorem rank_logical (op : LogicalOp) : (Infix.logical op).rank = op.level := by
  cases op <;> decide

/-! ## What is written is derived -/

/-- In a place that demands a level, an operand is derived at that rank: it has the level itself or
stands in parentheses. -/
theorem reads_place {e : Expr} (he : ∀ n ≤ e.level, Reads n e.lexemes e.bare) (demanded : Nat) :
    Reads demanded ((place e.level demanded e.tokens).map Token.lexeme) e.bare := by
  rw [place]
  split
  · rw [enclose, List.map_cons, List.map_append]
    exact .paren (he 0 (Nat.zero_le _))
  · next hlevel => exact he demanded (Nat.le_of_not_lt hlevel)

theorem reads_join {l r : Expr} (hl : ∀ n ≤ l.level, Reads n l.lexemes l.bare)
    (hr : ∀ n ≤ r.level, Reads n r.lexemes r.bare) (op : Infix) {n : Nat} (hn : n ≤ op.rank) :
    Reads n ((place l.level op.rank l.tokens).map Token.lexeme
        ++ .symbol op.symbol :: (place r.level (op.rank + 1) r.tokens).map Token.lexeme)
      (op.node l.bare r.bare) :=
  .join (Infix.ofSymbol?_eq_some_iff.mpr rfl) hn (reads_place hl _) (reads_place hr _)

/-- The lexemes of an expression are derived in every place that demands no more than its level. -/
theorem reads_lexemes (e : Expr) : ∀ n ≤ e.level, Reads n e.lexemes e.bare := by
  induction e with
  | literal v => exact fun _ _ ↦ .literal v
  | char c => exact fun _ _ ↦ .char c
  | cast t e ih => exact fun n hn ↦ .cast t hn (reads_place ih _)
  -- an assignment has the lexemes, the level and the bare tree of what it assigns
  | assign t e ih => exact ih
  | paren e ih =>
    intro n _
    rw [lexemes, tokens, enclose, List.map_cons, List.map_append]
    exact .paren (ih 0 (Nat.zero_le _))
  | unary op e ih =>
    exact fun n hn ↦ .unary (UnaryOp.ofSymbol?_eq_some_iff.mpr rfl) hn (reads_place ih _)
  | binary op l r ihl ihr =>
    intro n hn
    rw [lexemes, tokens, List.map_append, List.map_cons, ← rank_binary]
    exact reads_join ihl ihr (.binary op) (rank_binary op ▸ hn)
  | compare op l r ihl ihr =>
    intro n hn
    rw [lexemes, tokens, List.map_append, List.map_cons, ← rank_compare]
    exact reads_join ihl ihr (.compare op) (rank_compare op ▸ hn)
  | logical op l r ihl ihr =>
    intro n hn
    rw [lexemes, tokens, List.map_append, List.map_cons, ← rank_logical]
    exact reads_join ihl ihr (.logical op) (rank_logical op ▸ hn)

/-! ## What is read has the same value -/

theorem eval_bare {e : Expr} (he : e.isAssignFree = true) (target : Target) :
    e.bare.eval target = e.eval target := by
  induction e with
  | literal v => rfl
  | char c => rfl
  | cast t e ih => rw [bare, eval, eval, ih he]
  | assign t e ih => cases he
  | paren e ih => rw [bare, eval, ih he]
  | unary op e ih => rw [bare, eval, eval, ih he]
  | binary op l r ihl ihr =>
    obtain ⟨hl, hr⟩ := Bool.and_eq_true_iff.mp he
    rw [bare, eval, eval, ihl hl, ihr hr]
  | compare op l r ihl ihr =>
    obtain ⟨hl, hr⟩ := Bool.and_eq_true_iff.mp he
    rw [bare, eval, eval, ihl hl, ihr hr]
  | logical op l r ihl ihr =>
    obtain ⟨hl, hr⟩ := Bool.and_eq_true_iff.mp he
    rw [bare, eval, eval, ihl hl, ihr hr]

/-- **Writing keeps grouping and meaning.** The lexemes of an expression are read as the expression
without parentheses and assignments, which is the only tree that the grammar derives for them; and
where nothing is assigned, that tree has the value or the failure of the expression on every
target. -/
theorem parse_lexemes (e : Expr) :
    parse e.lexemes = some e.bare ∧ (∀ e', Reads 0 e.lexemes e' ↔ e' = e.bare) ∧
      (e.isAssignFree = true → ∀ target, e.bare.eval target = e.eval target) := by
  have hparse : parse e.lexemes = some e.bare :=
    parse_of_reads (reads_lexemes e 0 (Nat.zero_le _))
  refine ⟨hparse, fun e' ↦ ?_, fun he target ↦ eval_bare he target⟩
  rw [← parse_eq_some_iff, hparse, Option.some.injEq, eq_comm]

/-- A difference on the right of a difference keeps its parentheses, and a minus is read as a sign
where an operand is awaited. -/
theorem parse_lexemes_difference :
    let e := binary .sub (int 1) (binary .sub (int 2) (unary .neg (paren (int 3))))
    e.isAssignFree = true ∧
      parse [.literal (.plainInt 1), .symbol "-", .lparen, .literal (.plainInt 2), .symbol "-",
          .symbol "-", .lparen, .literal (.plainInt 3), .rparen, .rparen]
        = some (binary .sub (int 1) (binary .sub (int 2) (unary .neg (int 3)))) ∧
      ∀ target, e.bare.eval target = e.eval target := by
  intro e
  exact ⟨rfl, (parse_lexemes e).1, (parse_lexemes e).2.2 rfl⟩

end CValues.Expr
