import CValues.TypeNames
import Mathlib.Data.List.Induction

/-!
# Names by their history

A program gives names to types by one definition after another. The table keeps one type for each
name and forgets everything else: what the type was called when the name was made, on which target
that was, and which names were replaced or refused.

`meaning` finds the type of a name without a table, as a reader of the program would: by going back
from the latest definition to the first one that gives the name. A name that was made from another
name means what that one meant at the time, so the search for it goes on from there, among the
earlier definitions only and on the target of the definition. The two agree on every history.

A name that was never given is one of C's own, and these are read word by word: an integer type is
named by a sign, a length and the word `int`, each of which may be left out as long as a word stays.
-/

namespace CValues.TypeNames

/-! ## The names of C -/

/-- The length of an integer type, as it is written. -/
inductive Length where
  | plain
  | short
  | long
  | longLong

namespace Length

/-- The words of a length. -/
def words : Length → List String
  | plain => []
  | short => ["short"]
  | long => ["long"]
  | longLong => ["long", "long"]

/-- The width of the integers of a length. Only that of `long` is left to the target. -/
def width (target : Target) : Length → Width
  | plain => .w32
  | short => .w16
  | long => if target.model = .lp64 then .w64 else .w32
  | longLong => .w64

end Length

/-- The word of a sign, if there is one. -/
def signWords : Option Signedness → List String
  | none => []
  | some .signed => ["signed"]
  | some .unsigned => ["unsigned"]

/-- The words that name a basic type. -/
inductive Phrase where
  | void
  | bool
  /-- The name that a standard header gives to `_Bool`. -/
  | boolMacro
  | float
  | double
  | char (sign : Option Signedness)
  | integer (sign : Option Signedness) (length : Length) (int : Bool)

namespace Phrase

/-- The words in order. -/
def words : Phrase → List String
  | void => ["void"]
  | bool => ["_Bool"]
  | boolMacro => ["bool"]
  | float => ["float"]
  | double => ["double"]
  | char sign => signWords sign ++ ["char"]
  | integer sign length int => signWords sign ++ length.words ++ if int then ["int"] else []

/-- The words with one blank between them. -/
def text (p : Phrase) : String := " ".intercalate p.words

/-- The type that is named on a target. -/
def type (target : Target) : Phrase → CType
  | void => .void
  | bool | boolMacro => .bool
  | float => .float .single
  | double => .float .double
  | char sign => .int .w8 (sign.getD target.plainChar)
  | integer sign length _ => .int (length.width target) (sign.getD .signed)

/-- Every phrase that has a word. -/
def all : List Phrase :=
  let signs := [none, some .signed, some .unsigned]
  let integers := signs.flatMap fun sign ↦
    [Length.plain, .short, .long, .longLong].flatMap fun length ↦
      [integer sign length false, integer sign length true]
  ([void, bool, boolMacro, float, double] ++ signs.map char ++ integers).filter (·.words ≠ [])

/-- The basic type of a phrase. -/
def basic : Phrase → BasicType
  | void => .void
  | bool | boolMacro => .bool
  | float => .float
  | double => .double
  | char none => .char
  | char (some .signed) => .signedChar
  | char (some .unsigned) => .unsignedChar
  | integer (some .unsigned) .plain _ => .unsignedInt
  | integer (some .unsigned) .short _ => .unsignedShort
  | integer (some .unsigned) .long _ => .unsignedLong
  | integer (some .unsigned) .longLong _ => .unsignedLongLong
  | integer _ .plain _ => .int
  | integer _ .short _ => .short
  | integer _ .long _ => .long
  | integer _ .longLong _ => .longLong

private theorem onTarget_basic (target : Target) (p : Phrase) :
    p.basic.onTarget target = p.type target := by
  have hlong : target.model.longWidth = Length.long.width target := by
    rw [Length.width]
    cases target.model <;> rfl
  cases p with
  | char sign => rcases sign with _ | _ | _ <;> rfl
  | integer sign length int =>
    rcases sign with _ | _ | _ <;> cases length <;>
      first | rfl | exact congrArg (CType.int · _) hlong
  | _ => rfl

private theorem isSpelled_basic {p : Phrase} (hp : p ∈ all) : p.basic.isSpelled p.text = true := by
  have hall : ∀ q ∈ all, q.basic.isSpelled q.text = true := by decide
  exact hall p hp

/-- Every spelling of a basic type is a phrase. -/
theorem exists_text_of_isSpelled {b : BasicType} {name : String} (hb : b.isSpelled name = true) :
    ∃ p ∈ all, p.text = name := by
  have hall : ∀ c ∈ BasicType.all, ∀ spelling ∈ c.text :: c.synonyms,
      ∃ p ∈ all, p.text = spelling := by decide
  exact hall b b.mem_all name (BasicType.mem_spellings_of_isSpelled hb)

end Phrase

/-- The type that a name of C means on a target. -/
def basicMeaning (target : Target) (name : String) : Except Error CType :=
  match Phrase.all.find? (·.text == name) with
  | some p => .ok (p.type target)
  | none => .error (.unknownType name)

/-- The names of C are the spellings of the basic types, and they mean the same. -/
theorem basicMeaning_eq (target : Target) (name : String) :
    basicMeaning target name = match BasicType.ofName? name with
      | some b => .ok (b.onTarget target)
      | none => .error (.unknownType name) := by
  unfold basicMeaning
  split
  · next p hfind =>
    have htext : p.text = name := by simpa using List.find?_some hfind
    have hname : BasicType.ofName? name = some p.basic :=
      BasicType.ofName?_eq_some_iff.mpr
        (htext ▸ Phrase.isSpelled_basic (List.mem_of_find?_eq_some hfind))
    rw [hname, ← Phrase.onTarget_basic target p]
  · next hfind =>
    rcases hname : BasicType.ofName? name with _ | b
    · rfl
    · obtain ⟨p, hp, htext⟩ :=
        Phrase.exists_text_of_isSpelled (BasicType.ofName?_eq_some_iff.mp hname)
      have hnot := List.find?_eq_none.mp hfind p hp
      simp [htext] at hnot

/-! ## Definitions -/

/-- A definition of a name. -/
inductive Definition where
  /-- The name is given to a type. -/
  | type (name : String) (t : CType)
  /-- The name is given to what another name means on a target. -/
  | synonym (name other : String) (origin : Target)
  deriving DecidableEq, Repr

namespace Definition

/-- The name that is given, as it is written. -/
def name : Definition → String
  | type name _ => name
  | synonym name _ _ => name

/-- The type that the name is given to, if the definition follows on those of a table. -/
def given (names : TypeNames) : Definition → Except Error CType
  | type _ t => .ok t
  | synonym _ other origin => names.resolve origin other

end Definition

/-- The table after a definition. A definition that is refused leaves the table as it was. -/
def enter (names : TypeNames) : Definition → TypeNames
  | .type name t => names.define name t
  | .synonym name other origin =>
    match names.addAlias origin name other with
    | .ok extended => extended
    | .error _ => names

/-- The table after some definitions in order. -/
def ofHistory (history : List Definition) : TypeNames := history.foldl enter empty

/-- The type that a name means on a target after some definitions, the latest of which comes
first. -/
def meaning (target : Target) (name : String) : List Definition → Except Error CType
  | [] => basicMeaning target (trimBlanks name)
  | .type given t :: earlier =>
    if given = trimBlanks name then .ok t else meaning target name earlier
  | .synonym given other origin :: earlier =>
    if given = trimBlanks name then
      match meaning origin other earlier with
      | .ok t => .ok t
      -- it was refused when it was made, and so is no definition at all
      | .error _ => meaning target name earlier
    else meaning target name earlier

theorem basicMeaning_eq_ok_iff {target : Target} {name : String} {t : CType} :
    basicMeaning target name = .ok t ↔
      ∃ b : BasicType, b.isSpelled name = true ∧ b.onTarget target = t := by
  simp only [← BasicType.ofName?_eq_some_iff]
  rw [basicMeaning_eq]
  cases BasicType.ofName? name <;> simp

variable {names : TypeNames} {d : Definition} {target : Target} {name : String} {t : CType}

/-! ## One definition -/

private theorem enter_of_given (hgiven : d.given names = .ok t) :
    names.enter d = names.define d.name t := by
  cases d with
  | type => cases hgiven; rfl
  | synonym name other origin =>
    have hgiven : names.resolve origin other = .ok t := hgiven
    simp [enter, addAlias, hgiven, Definition.name, bind, Except.bind, pure, Except.pure]

private theorem enter_of_refused {e : Error} (hgiven : d.given names = .error e) :
    names.enter d = names := by
  cases d with
  | type => cases hgiven
  | synonym name other origin =>
    have hgiven : names.resolve origin other = .error e := hgiven
    simp [enter, addAlias, hgiven, bind, Except.bind]

theorem resolve_define (names : TypeNames) (given : String) (t : CType) (target : Target)
    (name : String) :
    (names.define given t).resolve target name
      = if given = trimBlanks name then .ok t else names.resolve target name := by
  by_cases hname : given = trimBlanks name
  · simp [resolve, find?_define, hname]
  · simp [resolve, find?_define, hname, Ne.symm hname]

/-- What a name means after one more definition. -/
theorem resolve_enter (names : TypeNames) (d : Definition) (target : Target) (name : String) :
    (names.enter d).resolve target name =
      match d.given names with
      | .ok t => if d.name = trimBlanks name then .ok t else names.resolve target name
      | .error _ => names.resolve target name := by
  rcases hgiven : d.given names with e | t
  · rw [enter_of_refused hgiven]
  · rw [enter_of_given hgiven, resolve_define]

private theorem resolve_enter_of_ne (hne : d.name ≠ trimBlanks name) :
    (names.enter d).resolve target name = names.resolve target name := by
  rw [resolve_enter]
  split
  · exact if_neg hne
  · rfl

/-! ## A history -/

private theorem resolve_empty (target : Target) (name : String) :
    empty.resolve target name = basicMeaning target (trimBlanks name) := by
  rw [basicMeaning_eq]
  rfl

private theorem ofHistory_append (history later : List Definition) :
    ofHistory (history ++ later) = later.foldl enter (ofHistory history) := List.foldl_append

theorem resolve_ofHistory_eq_meaning (history : List Definition) (target : Target)
    (name : String) :
    (ofHistory history).resolve target name = meaning target name history.reverse := by
  -- a synonym asks for another name on another target, so both vary along the history
  induction history using List.reverseRecOn generalizing target name with
  | nil => exact resolve_empty target name
  | append_singleton earlier d ih =>
    rw [ofHistory_append, List.reverse_concat, List.foldl_cons, List.foldl_nil, resolve_enter]
    cases d with
    | type given t => simp only [Definition.given, Definition.name, meaning, ih]
    | synonym given other origin =>
      simp only [Definition.given, Definition.name, meaning, ih]
      by_cases hname : given = trimBlanks name
      · cases meaning origin other earlier.reverse <;> simp [hname]
      · cases meaning origin other earlier.reverse <;> simp [hname]

private theorem resolve_foldl_enter {later : List Definition}
    (hlater : ∀ e ∈ later, e.name ≠ trimBlanks name) :
    (later.foldl enter names).resolve target name = names.resolve target name := by
  induction later generalizing names with
  | nil => rfl
  | cons e rest ih =>
    obtain ⟨hfirst, hrest⟩ := List.forall_mem_cons.mp hlater
    rw [List.foldl_cons, ih hrest, resolve_enter_of_ne hfirst]

/-- **A name means what its history says.** After every history, failed definitions included, the
table finds for a name what going back through the definitions finds, and at their end the basic
type that is spelled so. What a definition gave to a name stays its meaning on every target until
that name is given again, also if the name is one of a basic type, and whatever becomes of the name
it was made from. -/
theorem resolve_follows_history (history : List Definition) (target : Target) (name : String) :
    (ofHistory history).resolve target name = meaning target name history.reverse ∧
      (∀ t, meaning target name [] = .ok t ↔
        ∃ b : BasicType, b.isSpelled (trimBlanks name) = true ∧ b.onTarget target = t) ∧
      ∀ d t later, d.given (ofHistory history) = .ok t → d.name = trimBlanks name →
        (∀ e ∈ later, e.name ≠ d.name) →
          (ofHistory (history ++ d :: later)).resolve target name = .ok t := by
  refine ⟨resolve_ofHistory_eq_meaning history target name, fun t ↦ basicMeaning_eq_ok_iff, ?_⟩
  intro d t later hgiven hname hlater
  rw [hname] at hlater
  rw [ofHistory_append, List.foldl_cons, resolve_foldl_enter hlater, enter_of_given hgiven,
    resolve_define, if_pos hname]

/-- A `word` that was made from `long` where that has 32 bits keeps them after `long` has become
`double` and after another definition of `word` was refused. An `int` that was made from a `long` of
64 bits hides the basic type, also on a target where `long` has 32. -/
theorem resolve_follows_history_word :
    (ofHistory [.synonym "word" "long" { model := .llp64 }, .type "long" (.float .double),
        .synonym "word" "nothing" {}]).resolve {} " word " = .ok (.int .w32 .signed) ∧
      (Definition.synonym "int" "long" {}).given (ofHistory []) = .ok (.int .w64 .signed) ∧
      (ofHistory ([] ++ .synonym "int" "long" {} :: [.type "long" .bool])).resolve
        { model := .ilp32 } "\tint" = .ok (.int .w64 .signed) := by
  obtain ⟨hmeaning, -⟩ := resolve_follows_history
    [.synonym "word" "long" { model := .llp64 }, .type "long" (.float .double),
      .synonym "word" "nothing" {}] {} " word "
  obtain ⟨-, -, hstays⟩ := resolve_follows_history [] { model := .ilp32 } "\tint"
  refine ⟨hmeaning.trans rfl, rfl, ?_⟩
  exact hstays (.synonym "int" "long" {}) _ [.type "long" .bool] rfl (by decide) (by decide)

end CValues.TypeNames
