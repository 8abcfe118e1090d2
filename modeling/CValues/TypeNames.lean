import CValues.BasicType
import CValues.Error
import CValues.Text.Blank

/-!
# Type names

A table of names that were given to types. A name is looked up in the table first and among the
basic types after that, so a table entry hides a basic type of the same name. The name of an entry
is kept as it was given; only the name that is looked up loses the blanks around it.

An alias is resolved when it is made. Giving its target another meaning later, or asking for it on
another target machine, does not change it.
-/

namespace CValues

/-- The names given to types, each at most once. -/
structure TypeNames where
  /-- The entries, the latest first. -/
  entries : List (String × CType) := []
  deriving Repr

namespace TypeNames

/-- The table without entries. -/
def empty : TypeNames := {}

/-- The number of names. -/
def size (names : TypeNames) : Nat := names.entries.length

/-- No name has been given. -/
def isEmpty (names : TypeNames) : Bool := names.entries.isEmpty

/-- The type that was given this very name last. -/
def find? (names : TypeNames) (name : String) : Option CType := names.entries.lookup name

/-- This very name has been given. -/
def contains (names : TypeNames) (name : String) : Bool := (names.find? name).isSome

/-- Gives the name to the type and takes it from what had it before. -/
def define (names : TypeNames) (name : String) (t : CType) : TypeNames :=
  ⟨(name, t) :: names.entries.filter (·.1 != name)⟩

/-- The type that a name means on a target. -/
def resolve (names : TypeNames) (target : Target) (name : String) : Except Error CType :=
  let name := trimBlanks name
  match names.find? name with
  | some t => .ok t
  | none =>
    match BasicType.ofName? name with
    | some b => .ok (b.onTarget target)
    | none => .error (.unknownType name)

/-- Gives the name to what another name means on a target now. -/
def addAlias (names : TypeNames) (target : Target) (name meaning : String) :
    Except Error TypeNames := do
  let t ← names.resolve target meaning
  return names.define name t

/-! ## Looking up what was defined -/

theorem find?_define (names : TypeNames) (name other : String) (t : CType) :
    (names.define name t).find? other = if other = name then some t else names.find? other := by
  have hfilter : other ≠ name → ∀ entries : List (String × CType),
      (entries.filter (·.1 != name)).lookup other = entries.lookup other := by
    intro hne entries
    induction entries with
    | nil => rfl
    | cons entry rest ih =>
      by_cases h : entry.1 = name
      · have hskip : (other == entry.1) = false := by simp [h, hne]
        rw [List.filter_cons_of_neg (by simp [h]), ih, List.lookup_cons, hskip]
      · rw [List.filter_cons_of_pos (by simp [h]), List.lookup_cons, List.lookup_cons, ih]
  by_cases h : other = name
  · simp [find?, define, h]
  · have hskip : (other == name) = false := by simp [h]
    simp [find?, define, h, List.lookup_cons, hskip, hfilter h]

end TypeNames

end CValues
