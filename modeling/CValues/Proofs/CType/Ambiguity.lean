import CValues.CType.Text

/-!
# What the text of a type tells

A type is written without parentheses: what a pointer or an array adds stands behind what it is put
around, and the `const` and `volatile` of every pointer stand in front of everything. Read from
behind, the text gives the layers one by one, down to the type in the middle, because each of them
begins with a mark, `*` or `[`, that does not occur in the rest of it. Read from the front it gives
the words, outer pointers first, but not where those of one pointer end and those of the next begin.

So two types are written alike exactly if they differ at most in the pointers that their words
belong to. A word in front is read in C as belonging to the innermost pointer, and types that have
their words there alone are told apart.
-/

namespace CValues

/-! ## Words -/

/-- A word that is written in front of a type. -/
inductive AccessWord where
  | const
  | volatile
  deriving DecidableEq, Repr

namespace AccessWord

/-- The word with the blank behind it. -/
def text : AccessWord → String
  | const => "const "
  | volatile => "volatile "

/-- The words in a row. -/
def letters (words : List AccessWord) : List Char := words.flatMap (·.text.toList)

private theorem letters_cons (w : AccessWord) (words : List AccessWord) :
    letters (w :: words) = w.text.toList ++ letters words := List.flatMap_cons

private theorem letters_append (words more : List AccessWord) :
    letters (words ++ more) = letters words ++ letters more := List.flatMap_append

end AccessWord

open AccessWord

/-- The words of a pointer, in the order in which they are written. -/
def Qualifiers.words (q : Qualifiers) : List AccessWord :=
  (if q.const then [.const] else []) ++ (if q.volatile then [.volatile] else [])

private theorem Qualifiers.eq_of_words_eq {q r : Qualifiers} (hwords : q.words = r.words)
    (hrestrict : q.restrict = r.restrict) : q = r := by
  obtain ⟨c, v, x⟩ := q
  obtain ⟨c', v', x'⟩ := r
  obtain rfl := hrestrict
  revert hwords
  cases c <;> cases v <;> cases c' <;> cases v' <;> simp [words]

namespace CType

/-- The words of all pointers of the type, the outer ones first. -/
def words : CType → List AccessWord
  | pointer t q => q.words ++ t.words
  | array t _ => t.words
  | _ => []

/-- The type with all its words taken away. -/
def wordless : CType → CType
  | pointer t q => pointer t.wordless { restrict := q.restrict }
  | array t length => array t.wordless length
  | t => t

/-! ## Layers -/

/-- What can be put around a type without a word. -/
inductive Layer where
  | star (restrict : Bool)
  | brackets (length : Nat)
  deriving DecidableEq, Repr

namespace Layer

/-- The type in the layer. -/
def put (t : CType) : Layer → CType
  | star restrict => pointer t { restrict := restrict }
  | brackets length => array t length

/-- The letter with which the layer is written first. -/
def mark : Layer → Char
  | star _ => '*'
  | brackets _ => '['

/-- The letters behind the mark. -/
def behind : Layer → List Char
  | star restrict => if restrict then " restrict".toList else []
  | brackets length => (toString length).toList ++ [']']

/-- The letter is the mark of some layer. -/
def isMark (c : Char) : Bool := c == '*' || c == '['

private theorem isMark_mark (l : Layer) : isMark l.mark = true := by cases l <;> rfl

private theorem not_isMark_of_isDigit {c : Char} (hc : c.isDigit = true) : ¬ isMark c = true := by
  rw [isMark, Bool.or_eq_true_iff, beq_iff_eq, beq_iff_eq]
  rintro (rfl | rfl) <;> cases hc

private theorem not_isMark_of_mem_behind (l : Layer) : ∀ c ∈ l.behind, ¬ isMark c = true := by
  cases l with
  | star restrict => exact List.any_eq_false.mp (by cases restrict <;> decide)
  | brackets length =>
    intro c hc
    rcases List.mem_append.mp hc with hdigit | hbracket
    · rw [Nat.toString_eq_repr, Nat.toList_repr] at hdigit
      exact not_isMark_of_isDigit (Nat.isDigit_of_mem_toDigits (by decide) (by decide) hdigit)
    · rw [List.mem_singleton.mp hbracket]
      decide

private theorem eq_of_letters_eq {l m : Layer} (hmark : l.mark = m.mark)
    (hbehind : l.behind = m.behind) : l = m := by
  cases l with
  | star restrict => cases m with
    | star restrict' =>
      revert hbehind
      cases restrict <;> cases restrict' <;> decide
    | brackets => cases hmark
  | brackets length => cases m with
    | star => cases hmark
    | brackets length' =>
      have hdigits := List.append_cancel_right hbehind
      rw [Nat.toString_eq_repr, Nat.toString_eq_repr, Nat.toList_repr, Nat.toList_repr] at hdigits
      have hvalue := congrArg (Nat.ofDigitChars 10 · 0) hdigits
      simp only [Nat.ofDigitChars_ten_toDigits] at hvalue
      rw [hvalue]

/-- Texts that are cut at the marks of their last layers are the same only if the parts are. -/
theorem append_inj {as bs : List Char} {l m : Layer}
    (h : as ++ l.mark :: l.behind = bs ++ m.mark :: m.behind) : as = bs ∧ l = m := by
  -- a cut further to the left would leave the mark of one text behind that of the other
  have hcut : ∀ {cs : List Char} {l m : Layer},
      l.mark :: l.behind = cs ++ m.mark :: m.behind → cs = [] := by
    intro cs l m hsplit
    cases cs with
    | nil => rfl
    | cons c cs =>
      have hmem : m.mark ∈ l.behind := by
        rw [(List.cons.inj hsplit).2]
        exact List.mem_append_right cs List.mem_cons_self
      exact absurd m.isMark_mark (l.not_isMark_of_mem_behind _ hmem)
  rcases List.append_eq_append_iff.mp h with ⟨cs, rfl, hrest⟩ | ⟨cs, rfl, hrest⟩
  · obtain rfl := hcut hrest
    obtain ⟨hmark, hbehind⟩ := List.cons.inj hrest
    exact ⟨(List.append_nil as).symm, eq_of_letters_eq hmark hbehind⟩
  · obtain rfl := hcut hrest
    obtain ⟨hmark, hbehind⟩ := List.cons.inj hrest
    exact ⟨List.append_nil bs, (eq_of_letters_eq hmark hbehind).symm⟩

private theorem toList_text_put (t : CType) (l : Layer) :
    (l.put t).text.toList = t.text.toList ++ l.mark :: l.behind := by
  cases l with
  | star restrict => cases restrict <;> simp [put, text, mark, behind]
  | brackets length => simp [put, text, mark, behind]

end Layer

/-! ## Types without words -/

/-- The types that can stand in the middle. -/
def cores : List CType :=
  [void, bool, int .w8 .signed, int .w16 .signed, int .w32 .signed, int .w64 .signed,
    int .w8 .unsigned, int .w16 .unsigned, int .w32 .unsigned, int .w64 .unsigned,
    float .single, float .double]

/-- The type is one that stands in the middle, in any number of layers. -/
inductive Wordless : CType → Prop
  | core {t : CType} (ht : t ∈ cores) : Wordless t
  | put {t : CType} (l : Layer) (ht : Wordless t) : Wordless (l.put t)

variable {s t : CType}

private theorem wordless_wordless (t : CType) : Wordless t.wordless := by
  induction t with
  | void | bool => exact .core (by decide)
  | int w s => cases w <;> cases s <;> exact .core (by decide)
  | float f => cases f <;> exact .core (by decide)
  | pointer t q ih => exact .put (.star q.restrict) ih
  | array t length ih => exact .put (.brackets length) ih

private theorem not_isMark_of_mem_cores (hs : s ∈ cores) :
    ∀ c ∈ s.text.toList, ¬ Layer.isMark c = true := by
  have hnone : ∀ t ∈ cores, t.text.toList.any Layer.isMark = false := by decide
  exact List.any_eq_false.mp (hnone s hs)

private theorem text_inj_of_mem_cores :
    ∀ s ∈ cores, ∀ t ∈ cores, s.text = t.text → s = t := by decide

/-- What stands in the middle has no mark, and what is in a layer has one. -/
theorem text_ne_text_put (hs : s ∈ cores) (l : Layer) : s.text.toList ≠ (l.put t).text.toList := by
  intro h
  have hmem : l.mark ∈ s.text.toList := by
    rw [h, Layer.toList_text_put]
    exact List.mem_append_right _ List.mem_cons_self
  exact absurd l.isMark_mark (not_isMark_of_mem_cores hs _ hmem)

/-- Without words, the text tells the type. -/
theorem Wordless.text_inj (hs : Wordless s) (ht : Wordless t)
    (h : s.text.toList = t.text.toList) : s = t := by
  induction hs generalizing t with
  | @core s hs => cases ht with
    | core ht => exact text_inj_of_mem_cores s hs t ht (String.toList_inj.mp h)
    | put l => exact absurd h (text_ne_text_put hs l)
  | put l _ ih => cases ht with
    | core ht => exact absurd h.symm (text_ne_text_put ht l)
    | put m ht =>
      rw [Layer.toList_text_put, Layer.toList_text_put] at h
      obtain ⟨hinner, rfl⟩ := Layer.append_inj h
      rw [ih ht hinner]

/-! ## Reading from the front -/

private theorem not_prefix_of_mem_cores (w : AccessWord) : ∀ t ∈ cores,
    ¬ w.text.toList <+: t.text.toList ∧ ¬ t.text.toList <+: w.text.toList := by
  cases w <;> decide

private theorem Wordless.exists_core_prefix (ht : Wordless t) :
    ∃ s ∈ cores, s.text.toList <+: t.text.toList := by
  induction ht with
  | @core t ht => exact ⟨t, ht, List.prefix_refl _⟩
  | put l _ ih =>
    obtain ⟨s, hs, hprefix⟩ := ih
    rw [Layer.toList_text_put]
    exact ⟨s, hs, hprefix.trans (List.prefix_append _ _)⟩

private theorem Wordless.text_ne_word_append (ht : Wordless t) (w : AccessWord) (rest : List Char) :
    t.text.toList ≠ w.text.toList ++ rest := by
  intro h
  obtain ⟨s, hs, hprefix⟩ := ht.exists_core_prefix
  have hword : w.text.toList <+: t.text.toList := h ▸ List.prefix_append _ _
  obtain ⟨hbegins, hends⟩ := not_prefix_of_mem_cores w s hs
  rcases List.prefix_or_prefix_of_prefix hword hprefix with hcase | hcase
  · exact hbegins hcase
  · exact hends hcase

private theorem word_append_inj {w x : AccessWord} {as bs : List Char}
    (h : w.text.toList ++ as = x.text.toList ++ bs) : w = x ∧ as = bs := by
  have hfirst := congrArg List.head? h
  cases w <;> cases x
  · exact ⟨rfl, List.append_cancel_left h⟩
  · exact absurd hfirst (by simp [AccessWord.text])
  · exact absurd hfirst (by simp [AccessWord.text])
  · exact ⟨rfl, List.append_cancel_left h⟩

/-- The words are read off one by one until none begins the rest. -/
theorem Wordless.letters_append_inj (hs : Wordless s) (ht : Wordless t) {ws xs : List AccessWord}
    (h : letters ws ++ s.text.toList = letters xs ++ t.text.toList) :
    ws = xs ∧ s.text.toList = t.text.toList := by
  induction ws generalizing xs with
  | nil => cases xs with
    | nil => exact ⟨rfl, h⟩
    | cons x xs =>
      rw [letters_cons, List.append_assoc] at h
      exact absurd h (hs.text_ne_word_append x _)
  | cons w ws ih =>
    rw [letters_cons, List.append_assoc] at h
    cases xs with
    | nil => exact absurd h.symm (ht.text_ne_word_append w _)
    | cons x xs =>
      rw [letters_cons, List.append_assoc] at h
      obtain ⟨rfl, hrest⟩ := word_append_inj h
      obtain ⟨rfl, htext⟩ := ih hrest
      exact ⟨rfl, htext⟩

/-! ## All types -/

private theorem toList_text_pointer (t : CType) (q : Qualifiers) :
    (pointer t q).text.toList
      = letters q.words ++ (pointer t { restrict := q.restrict }).text.toList := by
  obtain ⟨c, v, r⟩ := q
  cases c <;> cases v <;> cases r <;>
    simp [text, Qualifiers.words, letters, AccessWord.text]

/-- The words stand in front, and behind them the type without words. -/
theorem toList_text (t : CType) :
    t.text.toList = letters t.words ++ t.wordless.text.toList := by
  induction t with
  | pointer t q ih =>
    have hput := Layer.toList_text_put t (.star q.restrict)
    have hput' := Layer.toList_text_put t.wordless (.star q.restrict)
    rw [Layer.put] at hput hput'
    rw [toList_text_pointer, hput, ih, words, wordless, hput', letters_append, List.append_assoc,
      List.append_assoc]
  | array t length ih =>
    have hput := Layer.toList_text_put t (.brackets length)
    have hput' := Layer.toList_text_put t.wordless (.brackets length)
    rw [Layer.put] at hput hput'
    rw [hput, ih, words, wordless, hput', List.append_assoc]
  | _ => rfl

theorem text_eq_text_iff : s.text = t.text ↔ s.words = t.words ∧ s.wordless = t.wordless := by
  rw [← String.toList_inj, toList_text s, toList_text t]
  constructor
  · intro h
    have hs := wordless_wordless s
    have ht := wordless_wordless t
    obtain ⟨hwords, htext⟩ := hs.letters_append_inj ht h
    exact ⟨hwords, hs.text_inj ht htext⟩
  · rintro ⟨hwords, hwordless⟩
    rw [hwords, hwordless]

/-! ## Words on the innermost pointer -/

/-- There is a pointer in the type. -/
def hasPointer : CType → Bool
  | pointer _ _ => true
  | array t _ => t.hasPointer
  | _ => false

/-- Of the pointers in the type only the innermost one has words. -/
def isInnermostQualified : CType → Bool
  | pointer t q => t.isInnermostQualified && (!t.hasPointer || q.words.isEmpty)
  | array t _ => t.isInnermostQualified
  | _ => true

private theorem hasPointer_wordless (t : CType) : t.wordless.hasPointer = t.hasPointer := by
  induction t with
  | array t length ih => exact ih
  | _ => rfl

private theorem words_eq_nil (h : t.hasPointer = false) : t.words = [] := by
  induction t with
  | pointer => cases h
  | array t length ih => exact ih h
  | _ => rfl

/-- If only the innermost pointers have words, it is known whose words they are. -/
theorem eq_of_isInnermostQualified (hs : s.isInnermostQualified = true)
    (ht : t.isInnermostQualified = true) (hwords : s.words = t.words)
    (hwordless : s.wordless = t.wordless) : s = t := by
  induction s generalizing t with
  | pointer s q ih => cases t with
    | pointer t r =>
      obtain ⟨hinner, hqualifiers⟩ := pointer.inj hwordless
      obtain ⟨-, -, hrestrict⟩ := Qualifiers.mk.inj hqualifiers
      obtain ⟨hs, hq⟩ := Bool.and_eq_true_iff.mp hs
      obtain ⟨ht, hr⟩ := Bool.and_eq_true_iff.mp ht
      have hpointer : t.hasPointer = s.hasPointer := by
        rw [← hasPointer_wordless, ← hinner, hasPointer_wordless]
      rw [hpointer] at hr
      have hapart : q.words = r.words ∧ s.words = t.words := by
        cases hdeep : s.hasPointer with
        | false =>
          rw [words, words, words_eq_nil hdeep, words_eq_nil (hpointer.trans hdeep),
            List.append_nil, List.append_nil] at hwords
          exact ⟨hwords, (words_eq_nil hdeep).trans (words_eq_nil (hpointer.trans hdeep)).symm⟩
        | true =>
          rw [hdeep] at hq hr
          have hq : q.words = [] := List.isEmpty_iff.mp hq
          have hr : r.words = [] := List.isEmpty_iff.mp hr
          rw [words, words, hq, hr] at hwords
          exact ⟨hq.trans hr.symm, hwords⟩
      rw [ih hs ht hapart.2 hinner, Qualifiers.eq_of_words_eq hapart.1 hrestrict]
    | _ => cases hwordless
  | array s length ih => cases t with
    | array t length' =>
      obtain ⟨hinner, rfl⟩ := array.inj hwordless
      rw [ih (t := t) hs ht hwords hinner]
    | _ => cases hwordless
  | _ => cases t with
    | pointer | array => cases hwordless
    | _ => exact hwordless

/-- **What the text of a type tells.** Two types are written alike exactly if they have the same
words in the same order and are the same type without them. So the text tells the types apart that
have their words on their innermost pointers. -/
theorem text_tells_type (s t : CType) :
    (s.text = t.text ↔ s.words = t.words ∧ s.wordless = t.wordless) ∧
      (s.isInnermostQualified = true → t.isInnermostQualified = true → s.text = t.text →
        s = t) := by
  refine ⟨text_eq_text_iff, fun hs ht h ↦ ?_⟩
  obtain ⟨hwords, hwordless⟩ := text_eq_text_iff.mp h
  exact eq_of_isInnermostQualified hs ht hwords hwordless

/-- A pointer to a pointer to `const int` and a pointer to a `const` pointer to `int` are written
alike. Of the types with words on the innermost pointer only the first is written so. -/
theorem text_tells_type_nested :
    let inner := pointerTo (pointer plainInt { const := true })
    let outer := pointer (pointerTo plainInt) { const := true }
    inner.text = outer.text ∧ outer.isInnermostQualified = false ∧
      (inner.isInnermostQualified = true ∧ inner.text = "const int32_t**") ∧
      ∀ t : CType, t.isInnermostQualified = true → t.text = "const int32_t**" → t = inner := by
  intro inner outer
  have htext : inner.text = "const int32_t**" := by decide
  refine ⟨(text_tells_type inner outer).1.mpr ⟨rfl, rfl⟩, rfl, ⟨rfl, htext⟩, fun t ht h ↦ ?_⟩
  exact (text_tells_type t inner).2 ht rfl (h.trans htext.symm)

/-- Different types can have the same text. -/
theorem not_forall_eq_of_text_eq : ¬ ∀ s t : CType, s.text = t.text → s = t := by
  intro h
  have heq := h (pointerTo (pointer plainInt { const := true }))
    (pointer (pointerTo plainInt) { const := true }) (by decide)
  cases heq

end CType

end CValues
