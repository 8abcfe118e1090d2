import CValues.Proofs.Expr.Lexer
import CValues.Proofs.Expr.Reader
import Mathlib.Data.List.Chain

/-!
# Written expressions are split again

The text of an expression without casts is split into tokens by the longest match, and compared with
the lexemes that were written. An operator between two operands has blanks around it, a constant
ends where a blank or a parenthesis comes, and a parenthesis is never part of anything longer. What
is left are the operators before an operand, which stand right before one another: two signs of one
kind are split as one operator, `++` or `--`, and nothing else goes wrong.

So the lexemes come back exactly if no sign is written right before the same sign. In the tree that
is a sign on an operand that begins with the same sign, through any number of assignments, since
these are not written.
-/

namespace CValues

open Lexer

/-- How a lexeme is spelled. -/
def Lexeme.letters : Lexeme → List Char
  | literal v => v.text.toList
  | char c => (Token.char c).text.toList
  | cast t => (Token.cast t).text.toList
  | symbol text => text.toList
  | lparen => ['(']
  | rparen => [')']

/-- The operator is a sign, of which two in a row are another operator. -/
def UnaryOp.isSign : UnaryOp → Bool
  | plus | neg => true
  | complement | not => false

namespace Token

/-! ## Rows of tokens -/

/-- The letters of a row of tokens. -/
def row (ts : List Token) : List Char := ts.flatMap (·.text.toList)

private theorem row_cons (t : Token) (ts : List Token) : row (t :: ts) = t.text.toList ++ row ts :=
  List.flatMap_cons

/-- The token is no cast, and if it is a literal, it is a non-negative integer. -/
def isSimple : Token → Bool
  | literal v => v.integer?.any (0 ≤ ·)
  | cast _ => false
  | _ => true

/-- The token comes behind an operand. -/
def isAfterOperand : Token → Bool
  | binary _ | compare _ | logical _ | rparen => true
  | _ => false

/-- What may come behind a token: a literal is an operand. -/
def Follows (t t' : Token) : Prop := ∀ v, t = literal v → t'.isAfterOperand = true

/-- The tokens are the same sign. -/
def doubles : Token → Token → Bool
  | unary op, unary op' => op == op' && op.isSign
  | _, _ => false

/-- The tokens are not taken together. -/
def Apart (t t' : Token) : Prop := t.doubles t' = false

/-- What a row is split into: signs are taken together two by two. -/
def pairSigns : List Token → List (List Char)
  | t :: t' :: ts =>
    if t.doubles t' then (t.lexeme.letters ++ t'.lexeme.letters) :: pairSigns ts
    else t.lexeme.letters :: pairSigns (t' :: ts)
  | [t] => [t.lexeme.letters]
  | [] => []

end Token

/-! ## Single tokens -/

private theorem Value.isDigit_text {v : Value} (hv : v.integer?.any (0 ≤ ·) = true) :
    v.text.toList ≠ [] ∧ ∀ c ∈ v.text.toList, c.isDigit = true := by
  cases v with
  | bool truth => cases truth <;> exact ⟨by decide, List.all_eq_true.mp (by decide)⟩
  | int w s p =>
    have hsign : 0 ≤ s.read p := of_decide_eq_true hv
    obtain ⟨n, hn⟩ := Int.eq_ofNat_of_zero_le hsign
    have htext : (int w s p).text.toList = Nat.toDigits 10 n := by
      rw [text, hn]
      exact Nat.toList_repr
    rw [htext]
    exact ⟨Nat.toDigits_ne_nil, fun c hc ↦ Nat.isDigit_of_mem_toDigits (by decide) (by decide) hc⟩
  | float | pointer | array => cases hv

private theorem split_literal {v : Value} (hv : v.integer?.any (0 ≤ ·) = true) {rest : List Char}
    (hrest : ∀ c ∈ rest.head?, endsDigits c = true) :
    split (v.text.toList ++ rest) = v.text.toList :: split rest := by
  obtain ⟨hne, hdigits⟩ := v.isDigit_text hv
  exact (munches_digits hne hdigits hrest).split_append

private theorem exists_digitChar_of_mem_toDigits {b n : Nat} (hb : 1 < b) {c : Char}
    (hc : c ∈ Nat.toDigits b n) : ∃ d : Nat, c = d.digitChar := by
  induction n using Nat.strongRecOn with
  | ind n ih =>
    rcases Nat.lt_or_ge n b with hlt | hle
    · rw [Nat.toDigits_of_lt_base hlt, List.mem_singleton] at hc
      exact ⟨n, hc⟩
    · rw [Nat.toDigits_of_base_le hb hle, List.mem_append, List.mem_singleton] at hc
      rcases hc with hc | hc
      · exact ih _ (Nat.div_lt_self (by omega) hb) hc
      · exact ⟨_, hc⟩

private theorem not_special_of_mem_braces {n : Nat} {c : Char}
    (hc : c ∈ '\x7b' :: ((Hex.lower n).toList ++ ['\x7d'])) : c ≠ '\'' ∧ c ≠ '\\' ∧ c ≠ '\n' := by
  rw [Hex.lower, String.toList_ofList, List.mem_cons, List.mem_append, List.mem_singleton] at hc
  rcases hc with rfl | hdigit | rfl
  · decide
  · obtain ⟨d, rfl⟩ := exists_digitChar_of_mem_toDigits (by decide) hdigit
    exact ⟨Nat.digitChar_ne _ rfl, Nat.digitChar_ne _ rfl, Nat.digitChar_ne _ rfl⟩
  · decide

/-- The quote behind an escaped character is the first one that closes the constant. -/
theorem isClosed_escapeChar (c : Char) (cs : List Char) :
    isClosed '\'' ((escapeChar c).toList ++ '\'' :: cs) = cs.isEmpty := by
  unfold escapeChar
  split
  · rfl
  · rfl
  · rfl
  · rfl
  · rfl
  · rfl
  · split_ifs
    · have hletters : c.toString.toList = [c] := by simp
      have hplain : ∀ d ∈ [c], d ≠ '\'' ∧ d ≠ '\\' ∧ d ≠ '\n' := by simp_all
      rw [hletters]
      exact isClosed_append (by decide) hplain cs
    · have hletters : ("\\u\x7b" ++ Hex.lower c.toNat ++ "\x7d").toList
          = '\\' :: 'u' :: '\x7b' :: ((Hex.lower c.toNat).toList ++ ['\x7d']) := by simp
      have hclosed : isClosed '\'' ('\x7b' :: ((Hex.lower c.toNat).toList ++ ['\x7d'])
          ++ '\'' :: cs) = cs.isEmpty :=
        isClosed_append (by decide) (fun _ ↦ not_special_of_mem_braces) cs
      rw [hletters]
      exact hclosed

private theorem split_char (c : Char) (rest : List Char) :
    split ((Token.char c).text.toList ++ rest) = (Token.char c).text.toList :: split rest := by
  have htext : (Token.char c).text.toList = '\'' :: ((escapeChar c).toList ++ ['\'']) := by
    simp [Token.text]
  rw [htext]
  exact (munches_constant (isClosed_escapeChar c) rest).split_append

private theorem split_infix (op : Infix) (rest : List Char) :
    split ((" " ++ op.symbol ++ " ").toList ++ rest) = op.symbol.toList :: split rest := by
  have hsymbol : op.symbol.toList ∈ punctuators ∧ op.symbol.toList.head? ≠ some '.' ∧
      op.symbol.toList ≠ [] := by
    cases op with
    | _ op => cases op <;> decide
  obtain ⟨hmem, hpoint, hne⟩ := hsymbol
  have hmunches : Munches op.symbol.toList (' ' :: rest) := by
    refine munches_punctuator hmem hpoint fun c hc ↦ ?_
    obtain rfl := Option.some.inj hc
    exact not_prefix_of_not_isInner hne rfl
  have hletters : (" " ++ op.symbol ++ " ").toList ++ rest
      = ' ' :: (op.symbol.toList ++ ' ' :: rest) := by simp
  rw [hletters, split_space rfl, hmunches.split_append, split_space rfl]

private theorem split_lparen (rest : List Char) : split ('(' :: rest) = ['('] :: split rest :=
  (munches_of_unextended (s := ['(']) (by decide) (by decide) (by decide) rest).split_append

private theorem split_rparen (rest : List Char) : split (')' :: rest) = [')'] :: split rest :=
  (munches_of_unextended (s := [')']) (by decide) (by decide) (by decide) rest).split_append

namespace Token

variable {t t' : Token} {op : UnaryOp}

private theorem symbol_mem_punctuators (op : UnaryOp) :
    op.symbol.toList ∈ punctuators ∧ op.symbol.toList.head? ≠ some '.' := by
  cases op <;> decide

/-- A token is split off as it was written, unless it is an operator that goes on or a literal that
goes on. -/
theorem split_token (ht : t.isSimple = true) {rest : List Char}
    (hunary : ∀ op, t = unary op →
      ∀ c ∈ rest.head?, ∀ p ∈ punctuators, ¬ op.symbol.toList ++ [c] <+: p)
    (hliteral : ∀ v, t = literal v → ∀ c ∈ rest.head?, endsDigits c = true) :
    split (t.text.toList ++ rest) = t.lexeme.letters :: split rest := by
  cases t with
  | literal v => exact split_literal ht (hliteral v rfl)
  | char c => exact split_char c rest
  | cast => cases ht
  | unary op =>
    obtain ⟨hmem, hpoint⟩ := symbol_mem_punctuators op
    exact (munches_punctuator hmem hpoint (hunary op rfl)).split_append
  | binary op => exact split_infix (.binary op) rest
  | compare op => exact split_infix (.compare op) rest
  | logical op => exact split_infix (.logical op) rest
  | lparen => exact split_lparen rest
  | rparen => exact split_rparen rest

/-! ## What comes next -/

private theorem forall_head_row {p : Char → Prop} (h : ∃ c, t.text.toList.head? = some c ∧ p c)
    (ts : List Token) : ∀ c ∈ (row (t :: ts)).head?, p c := by
  obtain ⟨c, hc, hp⟩ := h
  intro d hd
  rw [row_cons, List.head?_append, hc] at hd
  obtain rfl := Option.some.inj hd
  exact hp

/-- No punctuator goes on with the first letter of a token that is not an operator before an
operand. -/
theorem exists_letter (ht : t.isSimple = true) (hunary : ∀ op, t ≠ unary op) :
    ∃ c, t.text.toList.head? = some c ∧ isInner c = false := by
  cases t with
  | literal v =>
    obtain ⟨hne, hdigits⟩ := v.isDigit_text ht
    obtain ⟨c, cs, htext⟩ := List.exists_cons_of_ne_nil hne
    have hc := hdigits c (htext ▸ List.mem_cons_self)
    exact ⟨c, congrArg List.head? htext, contains_of_isDigit hc (by decide)⟩
  | char c => exact ⟨'\'', by simp [text], rfl⟩
  | cast => cases ht
  | unary op => exact absurd rfl (hunary op)
  | binary | compare | logical => exact ⟨' ', by simp [text], rfl⟩
  | lparen => exact ⟨'(', rfl, rfl⟩
  | rparen => exact ⟨')', rfl, rfl⟩

private theorem exists_letter_of_isAfterOperand (ht : t.isAfterOperand = true) :
    ∃ c, t.text.toList.head? = some c ∧ endsDigits c = true := by
  cases t with
  | binary | compare | logical => exact ⟨' ', by simp [text], rfl⟩
  | rparen => exact ⟨')', rfl, rfl⟩
  | _ => cases ht

/-- Of two operators in a row only the same signs begin a punctuator. -/
theorem not_begins_of_apart {op' : UnaryOp} (h : Apart (unary op) (unary op')) {c : Char}
    (hc : (unary op').text.toList.head? = some c) :
    ∀ p ∈ punctuators, ¬ op.symbol.toList ++ [c] <+: p := by
  -- the character is written as part of the operator, which leaves sixteen pairs to look at
  have htake : op'.symbol.toList.take 1 = [c] := by
    rw [List.take_one]
    exact congrArg Option.toList hc
  rw [← htake]
  unfold Apart at h
  revert h
  cases op <;> cases op' <;> decide

/-- An operator before an operand ends there, unless it is a sign before the same sign. -/
theorem not_begins_row (ht : t.isSimple = true) (hapart : Apart (unary op) t)
    (ts : List Token) :
    ∀ c ∈ (row (t :: ts)).head?, ∀ p ∈ punctuators, ¬ op.symbol.toList ++ [c] <+: p := by
  refine forall_head_row ?_ ts
  by_cases hunary : ∃ op', t = unary op'
  · obtain ⟨op', rfl⟩ := hunary
    obtain ⟨c, hc⟩ : ∃ c, (unary op').text.toList.head? = some c := by
      cases op' <;> exact ⟨_, rfl⟩
    exact ⟨c, hc, not_begins_of_apart hapart hc⟩
  · obtain ⟨c, hc, hinner⟩ := exists_letter ht fun op' hop' ↦ hunary ⟨op', hop'⟩
    exact ⟨c, hc, not_prefix_of_not_isInner (by cases op <;> decide) hinner⟩

/-! ## Whole rows -/

private theorem exists_sign_of_doubles (h : t.doubles t' = true) :
    ∃ op, t = unary op ∧ t' = unary op ∧ op.isSign = true := by
  cases t with
  | unary op => cases t' with
    | unary op' =>
      obtain ⟨heq, hsign⟩ := Bool.and_eq_true_iff.mp h
      exact ⟨op, rfl, congrArg unary (beq_iff_eq.mp heq).symm, hsign⟩
    | _ => cases h
  | _ => cases h

/-- Two of the same sign are split off as one operator. -/
theorem split_doubled (hsign : op.isSign = true) (rest : List Char) :
    split (op.symbol.toList ++ op.symbol.toList ++ rest)
      = (op.symbol.toList ++ op.symbol.toList) :: split rest := by
  refine (munches_of_unextended ?_ ?_ ?_ rest).split_append
  all_goals
    revert hsign
    cases op <;> decide

/-- A row of tokens is split into the tokens, signs taken together two by two. -/
theorem split_row {ts : List Token} (hsimple : ∀ t ∈ ts, t.isSimple = true)
    (hchain : ts.IsChain Follows) : split (row ts) = pairSigns ts := by
  fun_induction pairSigns ts with
  | case1 t t' ts hdoubles ih =>
    -- the two signs are one punctuator whatever follows: a third sign begins anew behind them
    obtain ⟨op, rfl, rfl, hsign⟩ := exists_sign_of_doubles hdoubles
    have htail : split (row ts) = pairSigns ts :=
      ih (fun t ht ↦ hsimple t (List.mem_cons_of_mem _ (List.mem_cons_of_mem _ ht)))
        hchain.tail.tail
    rw [row_cons, row_cons, ← List.append_assoc, ← htail]
    exact split_doubled hsign (row ts)
  | case2 t t' ts hdoubles ih =>
    have hsimple' := List.forall_mem_cons.mp hsimple
    obtain ⟨hfollows, hchain'⟩ := List.isChain_cons_cons.mp hchain
    have ht' : t'.isSimple = true := hsimple'.2 t' List.mem_cons_self
    rw [row_cons, ← ih hsimple'.2 hchain']
    refine split_token hsimple'.1 ?_ fun v hv ↦ ?_
    · rintro op rfl
      exact not_begins_row ht' (eq_false_of_ne_true hdoubles) ts
    · exact forall_head_row (exists_letter_of_isAfterOperand (hfollows v hv)) ts
  | case3 t =>
    have hlast : split (t.text.toList ++ []) = t.lexeme.letters :: split [] :=
      split_token (hsimple t List.mem_cons_self) (fun _ _ _ h ↦ by cases h) fun _ _ _ h ↦ by cases h
    rw [row_cons]
    exact hlast
  | case4 => rfl

private theorem length_pairSigns_le (ts : List Token) : (pairSigns ts).length ≤ ts.length := by
  fun_induction pairSigns ts with
  | case1 t t' ts _ ih => exact Nat.succ_le_succ (Nat.le_succ_of_le ih)
  | case2 t t' ts _ ih => exact Nat.succ_le_succ ih
  | case3 | case4 => exact Nat.le_refl _

/-- The lexemes come back if there is no pair of signs, and only then. -/
theorem pairSigns_eq_iff (ts : List Token) :
    pairSigns ts = ts.map (·.lexeme.letters) ↔ ts.IsChain Apart := by
  fun_induction pairSigns ts with
  | case1 t t' ts hdoubles _ =>
    -- neither side holds: there is one lexeme too few
    have hlength := length_pairSigns_le ts
    constructor
    · intro heq
      have hlengths := congrArg List.length heq
      simp only [List.length_cons, List.length_map] at hlengths
      omega
    · intro hchain
      have hapart : t.doubles t' = false := (List.isChain_cons_cons.mp hchain).1
      rw [hdoubles] at hapart
      cases hapart
  | case2 t t' ts hdoubles ih =>
    have hapart : Apart t t' := eq_false_of_ne_true hdoubles
    rw [List.isChain_cons_cons, List.map_cons, List.cons.injEq, ih]
    exact ⟨fun h ↦ ⟨hapart, h.2⟩, fun h ↦ ⟨rfl, h.2⟩⟩
  | case3 => simp
  | case4 => simp

end Token

/-! ## Expressions -/

namespace Expr

/-- The expression has no casts, and its literals are non-negative integers. -/
def isSimple : Expr → Bool
  | literal v => v.integer?.any (0 ≤ ·)
  | char _ => true
  | cast _ _ => false
  | assign _ e | paren e | unary _ e => e.isSimple
  | binary _ l r | compare _ l r | logical _ l r => l.isSimple && r.isSimple

/-- The expression begins with the operator where it is an operand of another. -/
def opensWith (op : UnaryOp) : Expr → Bool
  | assign _ e => e.opensWith op
  | unary op' _ => op == op'
  | _ => false

/-- Somewhere in the expression a sign has an operand that begins with the same sign. -/
def doublesSign : Expr → Bool
  | literal _ | char _ => false
  | cast _ e | assign _ e | paren e => e.doublesSign
  | unary op e => (op.isSign && e.opensWith op) || e.doublesSign
  | binary _ l r | compare _ l r | logical _ l r => l.doublesSign || r.doublesSign

theorem toList_text (e : Expr) : e.text.toList = Token.row e.tokens := by
  rw [text, String.toList_join, List.flatMap_map, Token.row]

section Place

variable {level demanded : Nat} {ts ls rs : List Token}

private theorem forall_mem_enclose {p : Token → Prop} (hopen : p .lparen) (hclose : p .rparen)
    (hts : ∀ t ∈ ts, p t) : ∀ t ∈ enclose ts, p t :=
  List.forall_mem_cons.mpr
    ⟨hopen, List.forall_mem_append.mpr ⟨hts, List.forall_mem_singleton.mpr hclose⟩⟩

private theorem forall_mem_place {p : Token → Prop} (hopen : p .lparen) (hclose : p .rparen)
    (hts : ∀ t ∈ ts, p t) : ∀ t ∈ place level demanded ts, p t := by
  rw [place]
  split_ifs
  · exact forall_mem_enclose hopen hclose hts
  · exact hts

variable {R : Token → Token → Prop}

private theorem isChain_enclose_iff (hopen : ∀ t, R .lparen t) (hclose : ∀ t, R t .rparen) :
    (enclose ts).IsChain R ↔ ts.IsChain R := by
  rw [enclose, List.isChain_cons, List.isChain_append]
  constructor
  · exact fun h ↦ h.2.1
  · exact fun h ↦ ⟨fun t _ ↦ hopen t, h, .singleton _, fun t _ t' ht' ↦ by
      obtain rfl := Option.some.inj ht'
      exact hclose t⟩

private theorem isChain_place_iff (hopen : ∀ t, R .lparen t) (hclose : ∀ t, R t .rparen) :
    (place level demanded ts).IsChain R ↔ ts.IsChain R := by
  rw [place]
  split_ifs
  · exact isChain_enclose_iff hopen hclose
  · exact Iff.rfl

private theorem isChain_infix_iff {t : Token} (hbefore : ∀ t', R t' t) (hafter : ∀ t', R t t') :
    (ls ++ t :: rs).IsChain R ↔ ls.IsChain R ∧ rs.IsChain R := by
  rw [List.isChain_append, List.isChain_cons]
  constructor
  · exact fun h ↦ ⟨h.1, h.2.1.2⟩
  · exact fun h ↦ ⟨h.1, ⟨fun t' _ ↦ hafter t', h.2⟩, fun t' _ t'' ht'' ↦ by
      obtain rfl := Option.some.inj ht''
      exact hbefore t'⟩

end Place

private theorem isSimple_of_mem_tokens {e : Expr} (he : e.isSimple = true) :
    ∀ t ∈ e.tokens, t.isSimple = true := by
  induction e with
  | literal v => exact List.forall_mem_singleton.mpr he
  | char c => exact List.forall_mem_singleton.mpr rfl
  | cast => cases he
  | assign _ e ih => exact ih he
  | paren e ih => exact forall_mem_enclose rfl rfl (ih he)
  | unary op e ih => exact List.forall_mem_cons.mpr ⟨rfl, forall_mem_place rfl rfl (ih he)⟩
  | binary op l r ihl ihr | compare op l r ihl ihr | logical op l r ihl ihr =>
    obtain ⟨hl, hr⟩ := Bool.and_eq_true_iff.mp he
    exact List.forall_mem_append.mpr ⟨forall_mem_place rfl rfl (ihl hl),
      List.forall_mem_cons.mpr ⟨rfl, forall_mem_place rfl rfl (ihr hr)⟩⟩

/-- In the tokens of an expression a literal is an operand. -/
theorem isChain_follows (e : Expr) : e.tokens.IsChain Token.Follows := by
  have hopen : ∀ t, Token.Follows .lparen t := fun _ _ h ↦ by cases h
  have hclose : ∀ t, Token.Follows t .rparen := fun _ _ _ ↦ rfl
  induction e with
  | literal | char => exact .singleton _
  | assign _ e ih => exact ih
  | paren e ih => exact (isChain_enclose_iff hopen hclose).mpr ih
  | cast _ e ih | unary _ e ih =>
    exact List.isChain_cons.mpr
      ⟨fun _ _ _ h ↦ (by cases h), (isChain_place_iff hopen hclose).mpr ih⟩
  | binary op l r ihl ihr | compare op l r ihl ihr | logical op l r ihl ihr =>
    exact (isChain_infix_iff (fun _ _ _ ↦ rfl) fun _ _ h ↦ by cases h).mpr
      ⟨(isChain_place_iff hopen hclose).mpr ihl, (isChain_place_iff hopen hclose).mpr ihr⟩

/-- An operator before an operand meets the same sign where its operand begins with that. -/
theorem exists_head_operand (op : UnaryOp) (e : Expr) :
    ∃ t, (place e.level unaryLevel e.tokens).head? = some t ∧
      (Token.unary op).doubles t = (op.isSign && e.opensWith op) := by
  induction e with
  | literal v => exact ⟨.literal v, rfl, (Bool.and_false _).symm⟩
  | char c => exact ⟨.char c, rfl, (Bool.and_false _).symm⟩
  | cast t => exact ⟨.cast t, rfl, (Bool.and_false _).symm⟩
  | assign _ e ih => exact ih
  | paren => exact ⟨.lparen, rfl, (Bool.and_false _).symm⟩
  | unary op' => exact ⟨.unary op', rfl, Bool.and_comm _ _⟩
  | binary op' | compare op' | logical op' =>
    -- such an operand stands in parentheses, so it does not matter what it begins with
    have hlevel : op'.level < unaryLevel := by cases op' <;> decide
    refine ⟨.lparen, ?_, (Bool.and_false _).symm⟩
    rw [level, place, if_pos hlevel]
    rfl

/-- The same signs are next to each other exactly where the expression doubles a sign. -/
theorem isChain_apart_iff (e : Expr) :
    e.tokens.IsChain Token.Apart ↔ e.doublesSign = false := by
  have hopen : ∀ t, Token.Apart .lparen t := fun _ ↦ rfl
  have hclose : ∀ t, Token.Apart t .rparen := fun t ↦ by cases t <;> rfl
  induction e with
  | literal | char => exact iff_of_true (.singleton _) rfl
  | cast _ e ih =>
    rw [tokens, List.isChain_cons, isChain_place_iff hopen hclose]
    exact (and_iff_right fun _ _ ↦ rfl).trans ih
  | assign _ e ih => exact ih
  | paren e ih => exact (isChain_enclose_iff hopen hclose).trans ih
  | unary op e ih =>
    obtain ⟨t, hhead, hdoubles⟩ := exists_head_operand op e
    rw [tokens, List.isChain_cons, isChain_place_iff hopen hclose, hhead, doublesSign,
      Bool.or_eq_false_iff, ← hdoubles]
    exact and_congr ⟨fun h ↦ h t rfl, fun h t' ht' ↦ Option.some.inj ht' ▸ h⟩ ih
  | binary op l r ihl ihr | compare op l r ihl ihr | logical op l r ihl ihr =>
    rw [tokens, isChain_infix_iff (fun t ↦ by cases t <;> rfl) (fun _ ↦ rfl),
      isChain_place_iff hopen hclose, isChain_place_iff hopen hclose, doublesSign,
      Bool.or_eq_false_iff]
    exact and_congr ihl ihr

/-- **Split again.** The text of an expression without casts over non-negative integers is split
into its tokens, except that signs right before the same sign are taken together two by two. So the
lexemes that were written come back exactly if no sign has an operand that begins with the same
sign. -/
theorem split_text {e : Expr} (he : e.isSimple = true) :
    split e.text.toList = Token.pairSigns e.tokens ∧
      (split e.text.toList = e.lexemes.map Lexeme.letters ↔ e.doublesSign = false) := by
  have hsplit : split e.text.toList = Token.pairSigns e.tokens := by
    rw [toList_text]
    exact Token.split_row (isSimple_of_mem_tokens he) (isChain_follows e)
  refine ⟨hsplit, ?_⟩
  rw [hsplit, lexemes, List.map_map]
  exact (Token.pairSigns_eq_iff e.tokens).trans (isChain_apart_iff e)

/-- In `-~1 - -2` a blank keeps the two minus signs apart, and nothing is taken together. -/
theorem split_text_apart :
    let e := binary .sub (unary .neg (unary .complement (int 1))) (unary .neg (int 2))
    e.text = "-~1 - -2" ∧ split e.text.toList = e.lexemes.map Lexeme.letters ∧
      e.lexemes.length = 6 := by
  intro e
  exact ⟨by decide, (split_text (e := e) (by decide)).2.mpr rfl, rfl⟩

/-- The negation of a negation is written as a decrement. -/
theorem not_forall_split_text :
    ¬ ∀ e : Expr, e.isSimple = true → split e.text.toList = e.lexemes.map Lexeme.letters := by
  intro h
  have hsplit := h (unary .neg (unary .neg (int 1))) (by decide)
  exact absurd hsplit (by decide)

end Expr

end CValues
