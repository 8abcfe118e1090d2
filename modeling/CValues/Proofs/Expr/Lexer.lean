import Mathlib.Data.Nat.Find

/-!
# Splitting a text into tokens

A text of C is split from left to right. Blanks are skipped, and whatever else comes next, the token
is the longest prefix of the rest that is one: `---` is a `--` and a `-`. The classes of tokens are
those of the standard, with constants in quotes closed by the next quote that no backslash stands
before, and every other visible character a token by itself. Comments and the prefixes of wide
constants are left out.

`Munches s rest` says that `s` is what is split off in front of `rest`. That no longer prefix is a
token follows for each class from the next character alone.
-/

namespace CValues.Lexer

/-! ## The classes of tokens -/

/-- The white space between tokens. -/
def isSpace (c : Char) : Bool := [' ', '\t', '\n', '\x0b', '\x0c'].contains c

/-- The characters that names and numbers go on with. -/
def isWordChar (c : Char) : Bool := c.isAlphanum || c == '_'

/-- A name: it does not begin with a digit. -/
def isIdentifier : List Char → Bool
  | [] => false
  | c :: cs => !c.isDigit && (c :: cs).all isWordChar

/-- What a number goes on with behind a character. A sign may stand behind the letter of an
exponent. -/
def isNumberTail : Char → List Char → Bool
  | _, [] => true
  | before, c :: cs =>
    (isWordChar c || c == '.'
      || (c == '+' || c == '-') && ['e', 'E', 'p', 'P'].contains before) && isNumberTail c cs

/-- A number before its meaning is looked at. -/
def isNumber : List Char → Bool
  | '.' :: c :: cs => c.isDigit && isNumberTail c cs
  | c :: cs => c.isDigit && isNumberTail c cs
  | [] => false

/-- What stands behind the opening quote of a constant: it ends with the first quote that is not
behind a backslash. -/
def isClosed (quote : Char) : List Char → Bool
  | [] => false
  | '\\' :: _ :: cs => isClosed quote cs
  | c :: cs => if c = quote then cs.isEmpty else c != '\\' && c != '\n' && isClosed quote cs

/-- A character constant or a string literal. -/
def isQuoted : List Char → Bool
  | '\'' :: cs => isClosed '\'' cs
  | '"' :: cs => isClosed '"' cs
  | _ => false

/-- The punctuators. -/
def punctuators : List (List Char) :=
  ["[", "]", "(", ")", "\x7b", "\x7d", ".", "->", "++", "--", "&", "*", "+", "-", "~", "!", "/",
    "%", "<<", ">>", "<", ">", "<=", ">=", "==", "!=", "^", "|", "&&", "||", "?", ":", ";", "...",
    "=", "*=", "/=", "%=", "+=", "-=", "<<=", ">>=", "&=", "^=", "|=", ",", "#", "##", "<:", ":>",
    "<%", "%>", "%:", "%:%:"].map String.toList

/-- A token: of one of the classes, or any other visible character. -/
def isToken (s : List Char) : Bool :=
  isIdentifier s || isNumber s || isQuoted s || punctuators.contains s
    || s.length == 1 && !s.any isSpace

/-! ## Splitting -/

/-- The length of the longest prefix that is a token. -/
def munch (text : List Char) : Nat :=
  Nat.findGreatest (fun n ↦ isToken (text.take n) = true) text.length

/-- The tokens of a text whose first characters, as many as counted, belong to a token before. -/
def splitFrom : Nat → List Char → List (List Char)
  | _, [] => []
  | count + 1, _ :: cs => splitFrom count cs
  | 0, c :: cs =>
    if isSpace c then splitFrom 0 cs
    else (c :: cs).take (munch (c :: cs)) :: splitFrom (munch (c :: cs) - 1) cs

/-- The tokens of a text. -/
def split (text : List Char) : List (List Char) := splitFrom 0 text

theorem split_space {c : Char} (hc : isSpace c = true) (cs : List Char) :
    split (c :: cs) = split cs := if_pos hc

private theorem splitFrom_length_append (s rest : List Char) :
    splitFrom s.length (s ++ rest) = splitFrom 0 rest := by
  induction s with
  | nil => rfl
  | cons c s ih => exact ih

private theorem head?_of_begins {c : Char} {cs rest : List Char} (h : c :: cs <+: rest) :
    rest.head? = some c := by
  obtain ⟨more, rfl⟩ := h
  rfl

/-- In front of `rest`, the token `s` is split off: it is one, and no longer prefix is. -/
structure Munches (s rest : List Char) : Prop where
  begins : ∃ c cs, s = c :: cs ∧ isSpace c = false
  token : isToken s = true
  longest : ∀ c cs, c :: cs <+: rest → isToken (s ++ c :: cs) = false

namespace Munches

variable {s rest : List Char}

private theorem munch_append (h : Munches s rest) : munch (s ++ rest) = s.length := by
  rw [munch, Nat.findGreatest_eq_iff]
  refine ⟨by simp, fun _ ↦ ?_, fun n hlt hle ↦ ?_⟩
  · rw [List.take_left]
    exact h.token
  · -- a longer prefix goes on into `rest`, by one character at least
    obtain ⟨k, rfl⟩ := Nat.exists_eq_add_of_lt hlt
    rw [Nat.add_assoc, List.take_length_add_append]
    cases hrest : rest with
    | nil =>
      rw [hrest, List.append_nil] at hle
      omega
    | cons c cs =>
      have hprefix : c :: cs.take k <+: rest := by
        rw [hrest, ← List.take_succ_cons]
        exact List.take_prefix _ _
      rw [List.take_succ_cons, h.longest _ _ hprefix]
      exact Bool.false_ne_true

theorem split_append (h : Munches s rest) : split (s ++ rest) = s :: split rest := by
  have hmunch := h.munch_append
  obtain ⟨c, cs, rfl, hc⟩ := h.begins
  rw [List.cons_append] at hmunch ⊢
  rw [split, splitFrom, if_neg (Bool.eq_false_iff.mp hc), hmunch, ← List.cons_append,
    List.take_left]
  exact congrArg _ (splitFrom_length_append cs rest)

example : split "a+++b - 0x1F>>='+'".toList
    = ["a", "++", "+", "b", "-", "0x1F", ">>=", "'+'"].map String.toList := by decide

end Munches

/-! ## What begins how -/

/-- No name, number or constant in quotes begins with the character. -/
def isSymbolic (c : Char) : Bool := !isWordChar c && c != '.' && !(['\'', '"'].contains c)

private theorem isSymbolic_iff {c : Char} : isSymbolic c = true ↔
    isWordChar c = false ∧ c ≠ '.' ∧ ['\'', '"'].contains c = false := by
  simp [isSymbolic, and_assoc]

private theorem isWordChar_of_isDigit {c : Char} (hc : c.isDigit = true) : isWordChar c = true := by
  simp [isWordChar, Char.isAlphanum, hc]

private theorem isIdentifier_cons {c : Char} (hc : c.isDigit = true ∨ isWordChar c = false)
    (cs : List Char) : isIdentifier (c :: cs) = false := by
  rcases hc with hc | hc <;> simp [isIdentifier, hc]

private theorem isNumber_cons {c : Char} (hc : c ≠ '.') (cs : List Char) :
    isNumber (c :: cs) = (c.isDigit && isNumberTail c cs) := by
  unfold isNumber
  split <;> simp_all

private theorem isQuoted_cons {c : Char} (hc : ['\'', '"'].contains c = false) (cs : List Char) :
    isQuoted (c :: cs) = false := by
  unfold isQuoted
  split <;> simp_all

private theorem begins_of_mem_punctuators {c : Char} {cs : List Char} (h : c :: cs ∈ punctuators) :
    isSpace c = false ∧ (isSymbolic c = true ∨ c = '.') := by
  have hbegin : ∀ p ∈ punctuators,
      p.head?.all (fun c ↦ !isSpace c && (isSymbolic c || c == '.')) = true := by decide
  have hc : (!isSpace c && (isSymbolic c || c == '.')) = true := hbegin _ h
  rw [Bool.and_eq_true_iff, Bool.not_eq_true', Bool.or_eq_true_iff, beq_iff_eq] at hc
  exact hc

private theorem punctuators_contains_cons {c : Char} (hc : isSymbolic c = false) (hpoint : c ≠ '.')
    (cs : List Char) : punctuators.contains (c :: cs) = false := by
  rw [Bool.eq_false_iff, ne_eq, List.contains_iff_mem]
  intro hmem
  rcases (begins_of_mem_punctuators hmem).2 with hsymbolic | hpoint'
  · rw [hc] at hsymbolic
    cases hsymbolic
  · exact hpoint hpoint'

/-- Only a token of one character can be outside of the four classes. -/
theorem isToken_cons {c : Char} {cs : List Char} (hcs : cs ≠ []) :
    isToken (c :: cs) = (isIdentifier (c :: cs) || isNumber (c :: cs) || isQuoted (c :: cs)
      || punctuators.contains (c :: cs)) := by
  simp [isToken, hcs]

/-! ## Symbols -/

private theorem isToken_symbol {c : Char} (hc : isSymbolic c = true) {cs : List Char}
    (hcs : cs ≠ []) : isToken (c :: cs) = punctuators.contains (c :: cs) := by
  obtain ⟨hword, hpoint, hquote⟩ := isSymbolic_iff.mp hc
  have hdigit : c.isDigit = false := by
    rw [Bool.eq_false_iff]
    intro hdigit
    rw [isWordChar_of_isDigit hdigit] at hword
    cases hword
  rw [isToken_cons hcs, isIdentifier_cons (.inr hword), isNumber_cons hpoint, hdigit,
    isQuoted_cons hquote]
  rfl

/-- A punctuator is split off if none begins with it and the next character. -/
theorem munches_punctuator {s rest : List Char} (hs : s ∈ punctuators) (hpoint : s.head? ≠ some '.')
    (hrest : ∀ c ∈ rest.head?, ∀ p ∈ punctuators, ¬ s ++ [c] <+: p) : Munches s rest := by
  have hne : s ≠ [] := by
    rintro rfl
    exact absurd hs (by decide)
  obtain ⟨c, cs, rfl⟩ := List.exists_cons_of_ne_nil hne
  obtain ⟨hspace, hbegin⟩ := begins_of_mem_punctuators hs
  have hc : isSymbolic c = true := by
    rcases hbegin with hsymbolic | rfl
    · exact hsymbolic
    · exact absurd rfl hpoint
  have htoken : isToken (c :: cs) = true := by
    have hcontains : punctuators.contains (c :: cs) = true := List.contains_iff_mem.mpr hs
    simp only [isToken, hcontains, Bool.or_true, Bool.true_or]
  refine ⟨⟨c, cs, rfl, hspace⟩, htoken, fun d ds hprefix ↦ ?_⟩
  rw [List.cons_append, isToken_symbol hc (by simp), Bool.eq_false_iff, ne_eq,
    List.contains_iff_mem]
  intro hmem
  -- a longer punctuator would begin with `s` and the next character
  refine hrest d (head?_of_begins hprefix) _ hmem ⟨ds, ?_⟩
  rw [List.append_assoc]
  rfl

/-- A punctuator that no other one begins with is split off whatever follows. -/
theorem munches_of_unextended {s : List Char} (hs : s ∈ punctuators) (hpoint : s.head? ≠ some '.')
    (hlast : ∀ p ∈ punctuators, s <+: p → p = s) (rest : List Char) : Munches s rest := by
  refine munches_punctuator hs hpoint fun c _ p hp hbegins ↦ ?_
  obtain rfl := hlast p hp ((List.prefix_append s [c]).trans hbegins)
  have hlength := hbegins.length_le
  rw [List.length_append] at hlength
  exact absurd hlength (by simp)

/-- The characters that a punctuator can go on with. -/
def isInner (c : Char) : Bool := ['+', '-', '&', '<', '>', '=', '|', '.', '#', ':', '%'].contains c

theorem not_prefix_of_not_isInner {s : List Char} (hs : s ≠ []) {c : Char}
    (hc : isInner c = false) : ∀ p ∈ punctuators, ¬ s ++ [c] <+: p := by
  have hinner : ∀ p ∈ punctuators, p.tail.all isInner = true := by decide
  rintro p hp ⟨more, rfl⟩
  obtain ⟨d, ds, rfl⟩ := List.exists_cons_of_ne_nil hs
  have hmem : c ∈ (d :: ds ++ [c] ++ more).tail := by simp
  rw [List.all_eq_true.mp (hinner _ hp) c hmem] at hc
  cases hc

/-! ## Numbers -/

/-- The character ends a row of digits. -/
def endsDigits (c : Char) : Bool := !isWordChar c && !(['.', '+', '-'].contains c)

private theorem isNumberTail_digits {before : Char} {ds : List Char}
    (hds : ∀ c ∈ ds, c.isDigit = true) : isNumberTail before ds = true := by
  induction ds generalizing before with
  | nil => rfl
  | cons d ds ih =>
    rw [isNumberTail, isWordChar_of_isDigit (hds d List.mem_cons_self),
      ih fun c hc ↦ hds c (List.mem_cons_of_mem d hc)]
    rfl

private theorem isNumberTail_append {before c : Char} (hc : endsDigits c = true)
    (ds cs : List Char) : isNumberTail before (ds ++ c :: cs) = false := by
  induction ds generalizing before with
  | nil => simp_all [endsDigits, isNumberTail]
  | cons d ds ih => rw [List.cons_append, isNumberTail, ih, Bool.and_false]

theorem contains_of_isDigit {d : Char} (hd : d.isDigit = true) {cs : List Char}
    (hcs : cs.any Char.isDigit = false) : cs.contains d = false := by
  rw [Bool.eq_false_iff, ne_eq, List.contains_iff_mem]
  intro hmem
  exact List.any_eq_false.mp hcs d hmem hd

/-- A row of digits is split off if it ends there. -/
theorem munches_digits {s rest : List Char} (hs : s ≠ []) (hdigits : ∀ c ∈ s, c.isDigit = true)
    (hrest : ∀ c ∈ rest.head?, endsDigits c = true) : Munches s rest := by
  obtain ⟨d, ds, rfl⟩ := List.exists_cons_of_ne_nil hs
  have hd := hdigits d List.mem_cons_self
  have hpoint : d ≠ '.' := by
    rintro rfl
    cases hd
  have hsymbolic : isSymbolic d = false := by
    rw [isSymbolic, isWordChar_of_isDigit hd]
    rfl
  refine ⟨⟨d, ds, rfl, contains_of_isDigit hd (by decide)⟩, ?_, fun c cs hprefix ↦ ?_⟩
  · rw [isToken, isNumber_cons hpoint, hd,
      isNumberTail_digits fun c hc ↦ hdigits c (List.mem_cons_of_mem d hc)]
    simp
  · have hc : endsDigits c = true := hrest c (head?_of_begins hprefix)
    rw [List.cons_append, isToken_cons (by simp), isIdentifier_cons (.inl hd),
      isNumber_cons hpoint, isNumberTail_append hc,
      isQuoted_cons (contains_of_isDigit hd (by decide)),
      punctuators_contains_cons hsymbolic hpoint, Bool.and_false]
    rfl

/-! ## Character constants -/

private theorem isClosed_cons {quote c : Char} (hc : c ≠ '\\') (cs : List Char) :
    isClosed quote (c :: cs)
      = if c = quote then cs.isEmpty else c != '\n' && isClosed quote cs := by
  rw [isClosed, bne_iff_ne.mpr hc, Bool.true_and]
  exact fun _ _ hescape ↦ absurd hescape hc

/-- A body without quotes and escapes is closed by the quote behind it. -/
theorem isClosed_append {quote : Char} (hquote : quote ≠ '\\') {body : List Char}
    (hbody : ∀ c ∈ body, c ≠ quote ∧ c ≠ '\\' ∧ c ≠ '\n') (cs : List Char) :
    isClosed quote (body ++ quote :: cs) = cs.isEmpty := by
  induction body with
  | nil => rw [List.nil_append, isClosed_cons hquote, if_pos rfl]
  | cons c body ih =>
    obtain ⟨hclosing, hescape, hline⟩ := hbody c List.mem_cons_self
    rw [List.cons_append, isClosed_cons hescape, if_neg hclosing, bne_iff_ne.mpr hline,
      ih fun d hd ↦ hbody d (List.mem_cons_of_mem c hd)]
    rfl

/-- A character constant is split off whatever follows, if the quote behind its body is the first
that closes it. -/
theorem munches_constant {body : List Char}
    (hbody : ∀ cs, isClosed '\'' (body ++ '\'' :: cs) = cs.isEmpty) (rest : List Char) :
    Munches ('\'' :: (body ++ ['\''])) rest := by
  refine ⟨⟨'\'', _, rfl, rfl⟩, ?_, fun c cs _ ↦ ?_⟩
  · have hquoted : isQuoted ('\'' :: (body ++ ['\''])) = true := hbody []
    simp [isToken, hquoted]
  · have hquoted : isQuoted ('\'' :: (body ++ '\'' :: c :: cs)) = false := hbody (c :: cs)
    rw [List.cons_append, List.append_assoc, isToken_cons (by simp), isIdentifier_cons (.inr rfl),
      isNumber_cons (by decide), punctuators_contains_cons rfl (by decide)]
    exact congrArg (false || false || · || false) hquoted

end CValues.Lexer
