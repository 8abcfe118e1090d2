import CValues.Expr.Token

/-!
# Reading expressions

The other side of writing an expression: a row of lexemes is read back as a tree, by the symbols and
the precedences of C alone. A lexeme shows what stands on the page and no more, so that a minus is
the same lexeme whether it is a sign or a difference; only its place tells them apart. The symbols
are those of C and not what the operators say they are written as, so that the two can be compared:
every operator is written with its symbol in C, and no symbol stands for two of them in one place.

`Reads` is the grammar. An operator of rank `r` takes on its left what holds together at least as
tightly as `r` and on its right what holds together more tightly, which makes operators of one rank
group from the left. Parentheses group and leave no node behind.

`Expr.parse` reads in one pass, with a stack of what is not finished. An operator that comes
finishes everything on the stack that holds together at least as tightly as itself. The reader
accepts exactly what the grammar derives, and so the grammar derives one tree at most.
-/

namespace CValues

/-! ## Lexemes -/

/-- What stands on the page. -/
inductive Lexeme where
  | literal (value : Value)
  | char (c : Char)
  | cast (type : CType)
  | symbol (text : String)
  | lparen
  | rparen
  deriving DecidableEq, Repr

/-- The lexeme that a token is written as. -/
def Token.lexeme : Token → Lexeme
  | literal v => .literal v
  | char c => .char c
  | cast t => .cast t
  | unary op => .symbol op.symbol
  | binary op => .symbol op.symbol
  | compare op => .symbol op.symbol
  | logical op => .symbol op.symbol
  | lparen => .lparen
  | rparen => .rparen

/-- The lexemes of an expression. -/
def Expr.lexemes (e : Expr) : List Lexeme := e.tokens.map Token.lexeme

/-- The operator that a symbol of C stands for before an operand. -/
def UnaryOp.ofSymbol? : String → Option UnaryOp
  | "+" => some plus
  | "-" => some neg
  | "~" => some complement
  | "!" => some not
  | _ => none

/-- An operator between two operands. -/
inductive Infix where
  | binary (op : BinaryOp)
  | compare (op : CompareOp)
  | logical (op : LogicalOp)
  deriving DecidableEq, Repr

namespace Infix

/-- How the operator is written. -/
def symbol : Infix → String
  | binary op => op.symbol
  | compare op => op.symbol
  | logical op => op.symbol

/-- The tree of the operator and its operands. -/
def node : Infix → Expr → Expr → Expr
  | binary op => .binary op
  | compare op => .compare op
  | logical op => .logical op

/-- The operators in tiers of one precedence, the loosest first. -/
def tiers : List (List Infix) :=
  [[logical .or], [logical .and], [binary .or], [binary .xor], [binary .and],
    [compare .eq, compare .ne], [compare .lt, compare .le, compare .gt, compare .ge],
    [binary .shl, binary .shr], [binary .add, binary .sub], [binary .mul, binary .div, binary .rem]]

/-- The tier of an operator, counted from one. -/
def rank (op : Infix) : Nat := tiers.findIdx (·.contains op) + 1

/-- The operator that a symbol of C stands for between operands. -/
def ofSymbol? : String → Option Infix
  | "||" => some (logical .or)
  | "&&" => some (logical .and)
  | "|" => some (binary .or)
  | "^" => some (binary .xor)
  | "&" => some (binary .and)
  | "==" => some (compare .eq)
  | "!=" => some (compare .ne)
  | "<" => some (compare .lt)
  | "<=" => some (compare .le)
  | ">" => some (compare .gt)
  | ">=" => some (compare .ge)
  | "<<" => some (binary .shl)
  | ">>" => some (binary .shr)
  | "+" => some (binary .add)
  | "-" => some (binary .sub)
  | "*" => some (binary .mul)
  | "/" => some (binary .div)
  | "%" => some (binary .rem)
  | _ => none

end Infix

/-- The rank of operators before an operand and of casts, tighter than all between operands. -/
def prefixRank : Nat := Infix.tiers.length + 1

/-- An operator before an operand is written with its symbol in C. -/
theorem UnaryOp.ofSymbol?_eq_some_iff {text : String} {op : UnaryOp} :
    ofSymbol? text = some op ↔ op.symbol = text := by
  constructor
  · intro h
    unfold ofSymbol? at h
    split at h
    all_goals cases h
    all_goals rfl
  · rintro rfl
    cases op <;> rfl

/-- An operator between operands is written with its symbol in C. -/
theorem Infix.ofSymbol?_eq_some_iff {text : String} {op : Infix} :
    ofSymbol? text = some op ↔ op.symbol = text := by
  constructor
  · intro h
    unfold ofSymbol? at h
    split at h
    all_goals cases h
    all_goals rfl
  · rintro rfl
    cases op with
    | _ op => cases op <;> rfl

private theorem Infix.rank_lt_prefixRank (op : Infix) : op.rank < prefixRank := by
  cases op with
  | _ op => cases op <;> decide

/-! ## The grammar -/

/-- In a place that demands rank `n`, the lexemes are an expression with this tree. -/
inductive Reads : Nat → List Lexeme → Expr → Prop
  | literal {n : Nat} (v : Value) : Reads n [.literal v] (.literal v)
  | char {n : Nat} (c : Char) : Reads n [.char c] (.char c)
  | paren {n : Nat} {ts : List Lexeme} {e : Expr} (h : Reads 0 ts e) :
      Reads n (.lparen :: (ts ++ [.rparen])) e
  | unary {n : Nat} {text : String} {ts : List Lexeme} {e : Expr} {op : UnaryOp}
      (hop : UnaryOp.ofSymbol? text = some op) (hn : n ≤ prefixRank)
      (h : Reads prefixRank ts e) : Reads n (.symbol text :: ts) (.unary op e)
  | cast {n : Nat} {ts : List Lexeme} {e : Expr} (t : CType) (hn : n ≤ prefixRank)
      (h : Reads prefixRank ts e) : Reads n (.cast t :: ts) (.cast t e)
  | join {n : Nat} {text : String} {ls rs : List Lexeme} {l r : Expr} {op : Infix}
      (hop : Infix.ofSymbol? text = some op) (hn : n ≤ op.rank) (hl : Reads op.rank ls l)
      (hr : Reads (op.rank + 1) rs r) : Reads n (ls ++ .symbol text :: rs) (op.node l r)

/-- What may stand in a place may stand in one that demands less. -/
theorem Reads.mono {m n : Nat} {ts : List Lexeme} {e : Expr} (h : Reads n ts e) (hmn : m ≤ n) :
    Reads m ts e := by
  cases h with
  | literal v => exact .literal v
  | char c => exact .char c
  | paren h => exact .paren h
  | unary hop hn h => exact .unary hop (Nat.le_trans hmn hn) h
  | cast t hn h => exact .cast t (Nat.le_trans hmn hn) h
  | join hop hn hl hr => exact .join hop (Nat.le_trans hmn hn) hl hr

/-! ## The reader -/

namespace Reader

/-- Something that was begun and waits for its last operand. -/
inductive Frame where
  | unary (op : UnaryOp)
  | cast (t : CType)
  | left (l : Expr) (op : Infix)
  | paren
  deriving DecidableEq, Repr

/-- Finishes the frames on top that hold together at least as tightly as rank `n`. -/
def reduce (n : Nat) : List Frame → Expr → List Frame × Expr
  | .unary op :: stack, e => reduce n stack (.unary op e)
  | .cast t :: stack, e => reduce n stack (.cast t e)
  | .left l op :: stack, e =>
    if n ≤ op.rank then reduce n stack (op.node l e) else (.left l op :: stack, e)
  | .paren :: stack, e => (.paren :: stack, e)
  | [], e => ([], e)

/-- Where the reader stands: before an operand or right behind one. -/
inductive State where
  | awaiting (stack : List Frame)
  | holding (stack : List Frame) (operand : Expr)
  deriving DecidableEq, Repr

/-- Reads one lexeme. -/
def step : State → Lexeme → Option State
  | .awaiting stack, .literal v => some (.holding stack (.literal v))
  | .awaiting stack, .char c => some (.holding stack (.char c))
  | .awaiting stack, .cast t => some (.awaiting (.cast t :: stack))
  | .awaiting stack, .lparen => some (.awaiting (.paren :: stack))
  | .awaiting stack, .symbol text =>
    (UnaryOp.ofSymbol? text).map fun op ↦ .awaiting (.unary op :: stack)
  | .holding stack e, .symbol text =>
    (Infix.ofSymbol? text).map fun op ↦
      let (stack, l) := reduce op.rank stack e
      .awaiting (.left l op :: stack)
  | .holding stack e, .rparen =>
    match reduce 0 stack e with
    | (.paren :: stack, e) => some (.holding stack e)
    | _ => none
  | _, _ => none

/-- The tree at the end, if nothing is left open. -/
def finish : State → Option Expr
  | .holding stack e =>
    match reduce 0 stack e with
    | ([], e) => some e
    | _ => none
  | .awaiting _ => none

end Reader

open Reader

/-- The tree that a row of lexemes is read as. -/
def Expr.parse (ts : List Lexeme) : Option Expr := (ts.foldlM step (.awaiting [])).bind finish

/-! ## The reader finds what the grammar derives -/

namespace Reader

/-- No operator of rank `n` or more finishes a frame of the stack. A frame that waits for the
operand of a unary operator or a cast is finished by every operator, so there `n` is beyond them
all. -/
def Firm (n : Nat) : List Frame → Prop
  | .unary _ :: _ | .cast _ :: _ => prefixRank ≤ n
  | .left _ op :: _ => op.rank < n
  | .paren :: _ | [] => True

theorem Firm.mono {m n : Nat} {stack : List Frame} (h : Firm m stack) (hmn : m ≤ n) :
    Firm n stack := by
  cases stack with
  | nil => trivial
  | cons frame stack =>
    cases frame with
    | unary op => exact Nat.le_trans h hmn
    | cast t => exact Nat.le_trans h hmn
    | left l op => exact Nat.lt_of_lt_of_le h hmn
    | paren => trivial

private theorem Firm.reduce_eq {op : Infix} {stack : List Frame} (h : Firm op.rank stack)
    (e : Expr) : reduce op.rank stack e = (stack, e) := by
  have hrank := op.rank_lt_prefixRank
  cases stack with
  | nil => rfl
  | cons frame stack =>
    cases frame with
    | unary _ => exact absurd hrank (Nat.not_lt_of_le h)
    | cast _ => exact absurd hrank (Nat.not_lt_of_le h)
    | left l other => exact if_neg (Nat.not_le_of_lt h)
    | paren => rfl

private theorem step_unary {text : String} {op : UnaryOp} (hop : UnaryOp.ofSymbol? text = some op)
    (stack : List Frame) :
    step (.awaiting stack) (.symbol text) = some (.awaiting (.unary op :: stack)) := by
  rw [step, hop]
  rfl

private theorem step_join {text : String} {op : Infix} (hop : Infix.ofSymbol? text = some op)
    (stack : List Frame) (e : Expr) :
    step (.holding stack e) (.symbol text)
      = some (.awaiting (.left (reduce op.rank stack e).2 op :: (reduce op.rank stack e).1)) := by
  rw [step, hop]
  rfl

private theorem step_rparen {stack rest : List Frame} {e e' : Expr}
    (h : reduce 0 stack e = (.paren :: rest, e')) :
    step (.holding stack e) .rparen = some (.holding rest e') := by
  rw [step, h]

/-- Reading what the grammar derives in a place of rank `n` leaves the reader behind an operand. It
need not be the whole tree yet, since its last operators may still be on the stack, but whatever
comes next finishes it to that tree. -/
theorem exists_holding_of_reads {n : Nat} {ts : List Lexeme} {e : Expr} (h : Reads n ts e) :
    ∀ stack, Firm n stack → ∃ stack' e',
      ts.foldlM step (.awaiting stack) = some (.holding stack' e')
        ∧ ∀ m ≤ n, reduce m stack' e' = reduce m stack e := by
  induction h with
  | literal v => exact fun stack _ ↦ ⟨stack, .literal v, rfl, fun _ _ ↦ rfl⟩
  | char c => exact fun stack _ ↦ ⟨stack, .char c, rfl, fun _ _ ↦ rfl⟩
  | @paren n ts e _ ih =>
    intro stack _
    obtain ⟨stack', e', hrun, hreduce⟩ := ih (.paren :: stack) trivial
    have hclosed : reduce 0 stack' e' = (.paren :: stack, e) := hreduce 0 (Nat.le_refl 0)
    refine ⟨stack, e, ?_, fun _ _ ↦ rfl⟩
    rw [List.foldlM_cons]
    change (ts ++ [Lexeme.rparen]).foldlM step (.awaiting (.paren :: stack)) = _
    rw [List.foldlM_append, hrun]
    change step (.holding stack' e') .rparen >>= pure = _
    rw [bind_pure, step_rparen hclosed]
  | @unary n text ts e op hop hn _ ih =>
    intro stack _
    obtain ⟨stack', e', hrun, hreduce⟩ := ih (.unary op :: stack) (Nat.le_refl _)
    refine ⟨stack', e', ?_, fun m hm ↦ hreduce m (Nat.le_trans hm hn)⟩
    rw [List.foldlM_cons, step_unary hop]
    exact hrun
  | @cast n ts e t hn _ ih =>
    intro stack _
    obtain ⟨stack', e', hrun, hreduce⟩ := ih (.cast t :: stack) (Nat.le_refl _)
    exact ⟨stack', e', hrun, fun m hm ↦ hreduce m (Nat.le_trans hm hn)⟩
  | @join n text ls rs l r op hop hn _ _ ihl ihr =>
    intro stack hfirm
    obtain ⟨stackl, l', hrunl, hreducel⟩ := ihl stack (hfirm.mono hn)
    obtain ⟨stackr, r', hrunr, hreducer⟩ := ihr (.left l op :: stack) (Nat.lt_succ_self _)
    -- the operator finishes its left operand and stops there, since the stack below is firm
    have hleft : reduce op.rank stackl l' = (stack, l) :=
      (hreducel _ (Nat.le_refl _)).trans ((hfirm.mono hn).reduce_eq l)
    refine ⟨stackr, r', ?_, fun m hm ↦ ?_⟩
    · rw [List.foldlM_append, hrunl]
      change (.symbol text :: rs).foldlM step (.holding stackl l') = _
      rw [List.foldlM_cons, step_join hop, hleft]
      exact hrunr
    · have hmop : m ≤ op.rank := Nat.le_trans hm hn
      rw [hreducer m (Nat.le_succ_of_le hmop), reduce, if_pos hmop]

end Reader

theorem Expr.parse_of_reads {ts : List Lexeme} {e : Expr} (h : Reads 0 ts e) :
    Expr.parse ts = some e := by
  obtain ⟨stack, e', hrun, hreduce⟩ := exists_holding_of_reads h [] trivial
  have hwhole : reduce 0 stack e' = ([], e) := hreduce 0 (Nat.le_refl 0)
  rw [parse, hrun, Option.bind_some, finish, hwhole]

/-! ## The grammar derives what the reader finds -/

namespace Reader

/-- The stack stands for the lexemes, and waits for an operand of rank `n`. -/
inductive Pending : Nat → List Frame → List Lexeme → Prop
  | nil : Pending 0 [] []
  | unary {n : Nat} {text : String} {stack : List Frame} {ts : List Lexeme} {op : UnaryOp}
      (hop : UnaryOp.ofSymbol? text = some op) (h : Pending n stack ts) :
      Pending prefixRank (.unary op :: stack) (ts ++ [.symbol text])
  | cast {n : Nat} {stack : List Frame} {ts : List Lexeme} (t : CType) (h : Pending n stack ts) :
      Pending prefixRank (.cast t :: stack) (ts ++ [.cast t])
  | left {n : Nat} {text : String} {stack : List Frame} {ts ls : List Lexeme} {l : Expr}
      {op : Infix} (hop : Infix.ofSymbol? text = some op) (hn : n ≤ op.rank)
      (hl : Reads op.rank ls l) (h : Pending n stack ts) :
      Pending (op.rank + 1) (.left l op :: stack) (ts ++ (ls ++ [.symbol text]))
  | paren {n : Nat} {stack : List Frame} {ts : List Lexeme} (h : Pending n stack ts) :
      Pending 0 (.paren :: stack) (ts ++ [.lparen])

private theorem Pending.le_prefixRank {n : Nat} {stack : List Frame} {ts : List Lexeme}
    (h : Pending n stack ts) : n ≤ prefixRank := by
  cases h with
  | nil => exact Nat.zero_le _
  | unary => exact Nat.le_refl _
  | cast => exact Nat.le_refl _
  | @left _ _ _ _ _ _ op => exact op.rank_lt_prefixRank
  | paren => exact Nat.zero_le _

/-- Finishing frames moves lexemes from the stack to the operand. What is left waits for an operand
of no more than the rank that the operand has now. -/
theorem Pending.reduce {n m k : Nat} {stack : List Frame} {us vs : List Lexeme} {e : Expr}
    (h : Pending n stack us) (he : Reads k vs e) (hnk : n ≤ k) (hmk : m ≤ k)
    (hm : m ≤ prefixRank) :
    ∃ n' us' vs', Pending n' (reduce m stack e).1 us' ∧ n' ≤ m
      ∧ Reads m vs' (reduce m stack e).2 ∧ us' ++ vs' = us ++ vs := by
  induction h generalizing k vs e with
  | nil => exact ⟨0, [], vs, .nil, Nat.zero_le m, he.mono hmk, rfl⟩
  | unary hop h ih =>
    have hwhole := Reads.unary hop (Nat.le_refl _) (he.mono hnk)
    obtain ⟨n', us', vs', hpending, hn', hreads, heq⟩ := ih hwhole h.le_prefixRank hm
    exact ⟨n', us', vs', hpending, hn', hreads, by rw [heq, List.append_assoc]; rfl⟩
  | cast t h ih =>
    have hwhole := Reads.cast t (Nat.le_refl _) (he.mono hnk)
    obtain ⟨n', us', vs', hpending, hn', hreads, heq⟩ := ih hwhole h.le_prefixRank hm
    exact ⟨n', us', vs', hpending, hn', hreads, by rw [heq, List.append_assoc]; rfl⟩
  | left hop hn hl h ih =>
    rw [Reader.reduce]
    split
    · next hmop =>
      have hwhole := Reads.join hop (Nat.le_refl _) hl (he.mono hnk)
      obtain ⟨n', us', vs', hpending, hn', hreads, heq⟩ := ih hwhole hn hmop
      refine ⟨n', us', vs', hpending, hn', hreads, ?_⟩
      rw [heq, List.append_assoc, List.append_assoc]
      rfl
    · next hmop =>
      exact ⟨_, _, vs, .left hop hn hl h, Nat.lt_of_not_le hmop, he.mono hmk, rfl⟩
  | paren h => exact ⟨0, _, vs, .paren h, Nat.zero_le m, he.mono hmk, rfl⟩

/-- The reader has read the lexemes. An operand right behind it could stand in every place. -/
def HasRead (ts : List Lexeme) : State → Prop
  | .awaiting stack => ∃ n, Pending n stack ts
  | .holding stack e => ∃ n us vs, Pending n stack us ∧ (∀ k, Reads k vs e) ∧ us ++ vs = ts

theorem HasRead.step {ts : List Lexeme} {t : Lexeme} {state state' : State}
    (h : HasRead ts state) (hstep : step state t = some state') : HasRead (ts ++ [t]) state' := by
  cases state with
  | awaiting stack =>
    obtain ⟨n, hpending⟩ := h
    cases t with
    | literal v =>
      obtain rfl := Option.some.inj hstep
      exact ⟨n, ts, [.literal v], hpending, fun _ ↦ .literal v, rfl⟩
    | char c =>
      obtain rfl := Option.some.inj hstep
      exact ⟨n, ts, [.char c], hpending, fun _ ↦ .char c, rfl⟩
    | cast t =>
      obtain rfl := Option.some.inj hstep
      exact ⟨_, .cast t hpending⟩
    | symbol text =>
      obtain ⟨op, hop, rfl⟩ := Option.map_eq_some_iff.mp hstep
      exact ⟨_, .unary hop hpending⟩
    | lparen =>
      obtain rfl := Option.some.inj hstep
      exact ⟨_, .paren hpending⟩
    | rparen => cases hstep
  | holding stack e =>
    obtain ⟨n, us, vs, hpending, hreads, rfl⟩ := h
    cases t with
    | symbol text =>
      obtain ⟨op, hop, rfl⟩ := Option.map_eq_some_iff.mp hstep
      have hrank := Nat.le_of_lt op.rank_lt_prefixRank
      -- what is finished here becomes the left operand, at the rank of the operator
      obtain ⟨n', us', vs', hpending', hn', hreads', heq⟩ :=
        hpending.reduce (hreads prefixRank) hpending.le_prefixRank hrank hrank
      rw [← heq, List.append_assoc]
      exact ⟨_, .left hop hn' hreads' hpending'⟩
    | rparen =>
      obtain ⟨n', us', vs', hpending', -, hreads', heq⟩ :=
        hpending.reduce (hreads prefixRank) hpending.le_prefixRank (Nat.zero_le _) (Nat.zero_le _)
      rw [Reader.step] at hstep
      split at hstep
      · next rest e' hclosed =>
        obtain rfl := Option.some.inj hstep
        rw [hclosed] at hpending' hreads'
        -- only an open parenthesis leaves such a stack, and it encloses all that was finished
        cases hpending' with
        | @paren n _ ts hrest =>
          refine ⟨n, ts, _, hrest, fun _ ↦ .paren hreads', ?_⟩
          rw [← heq, List.append_assoc, List.append_assoc]
          rfl
      · cases hstep
    | literal v => cases hstep
    | char c => cases hstep
    | cast t => cases hstep
    | lparen => cases hstep

theorem HasRead.run {us ts : List Lexeme} {state state' : State} (h : HasRead us state)
    (hrun : ts.foldlM Reader.step state = some state') : HasRead (us ++ ts) state' := by
  induction ts generalizing us state with
  | nil =>
    obtain rfl := Option.some.inj hrun
    rwa [List.append_nil]
  | cons t ts ih =>
    rw [List.foldlM_cons] at hrun
    obtain ⟨next, hstep, hrest⟩ := Option.bind_eq_some_iff.mp hrun
    rw [← List.singleton_append, ← List.append_assoc]
    exact ih (h.step hstep) hrest

theorem HasRead.finish {ts : List Lexeme} {state : State} {e : Expr} (h : HasRead ts state)
    (hfinish : finish state = some e) : Reads 0 ts e := by
  cases state with
  | awaiting stack => cases hfinish
  | holding stack e' =>
    obtain ⟨n, us, vs, hpending, hreads, rfl⟩ := h
    obtain ⟨n', us', vs', hpending', -, hreads', heq⟩ :=
      hpending.reduce (hreads prefixRank) hpending.le_prefixRank (Nat.zero_le _) (Nat.zero_le _)
    rw [Reader.finish] at hfinish
    split at hfinish
    · next whole hwhole =>
      obtain rfl := Option.some.inj hfinish
      rw [hwhole] at hpending' hreads'
      cases hpending'
      rwa [← heq]
    · cases hfinish

end Reader

/-- **The reader accepts exactly what the grammar derives**, with the same tree. -/
theorem Expr.parse_eq_some_iff {ts : List Lexeme} {e : Expr} :
    Expr.parse ts = some e ↔ Reads 0 ts e := by
  refine ⟨fun h ↦ ?_, parse_of_reads⟩
  obtain ⟨state, hrun, hfinish⟩ := Option.bind_eq_some_iff.mp h
  have hstart : HasRead [] (.awaiting []) := ⟨0, .nil⟩
  exact (HasRead.run hstart hrun).finish hfinish

end CValues
