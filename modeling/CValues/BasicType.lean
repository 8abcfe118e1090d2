import CValues.CType

/-!
# Basic types by name

The types that C names with keywords. A basic type can be spelled in several ways; the first
spelling is the one it is written with. No spelling belongs to two basic types.
-/

namespace CValues

/-- A type that C names with keywords. -/
inductive BasicType where
  | void
  | bool
  | char
  | signedChar
  | unsignedChar
  | short
  | unsignedShort
  | int
  | unsignedInt
  | long
  | unsignedLong
  | longLong
  | unsignedLongLong
  | float
  | double
  deriving DecidableEq, Repr

namespace BasicType

/-- Every basic type. -/
def all : List BasicType :=
  [void, bool, char, signedChar, unsignedChar, short, unsignedShort, int, unsignedInt, long,
    unsignedLong, longLong, unsignedLongLong, float, double]

theorem mem_all (b : BasicType) : b ∈ all := by cases b <;> decide

/-- The spelling a basic type is written with. -/
def text : BasicType → String
  | void => "void"
  | bool => "_Bool"
  | char => "char"
  | signedChar => "signed char"
  | unsignedChar => "unsigned char"
  | short => "short"
  | unsignedShort => "unsigned short"
  | int => "int"
  | unsignedInt => "unsigned int"
  | long => "long"
  | unsignedLong => "unsigned long"
  | longLong => "long long"
  | unsignedLongLong => "unsigned long long"
  | float => "float"
  | double => "double"

/-- The further spellings of a basic type. -/
def synonyms : BasicType → List String
  | bool => ["bool"]
  | short => ["short int", "signed short", "signed short int"]
  | unsignedShort => ["unsigned short int"]
  | int => ["signed", "signed int"]
  | unsignedInt => ["unsigned"]
  | long => ["long int", "signed long", "signed long int"]
  | unsignedLong => ["unsigned long int"]
  | longLong => ["long long int", "signed long long", "signed long long int"]
  | unsignedLongLong => ["unsigned long long int"]
  | _ => []

/-- The name is one of the spellings. -/
def isSpelled (b : BasicType) (name : String) : Bool := b.text == name || b.synonyms.contains name

/-- The basic type with this spelling, which has to be met exactly. -/
def ofName? (name : String) : Option BasicType := all.find? (·.isSpelled name)

theorem mem_spellings_of_isSpelled {b : BasicType} {name : String} (hb : b.isSpelled name = true) :
    name ∈ b.text :: b.synonyms := by
  rw [isSpelled, Bool.or_eq_true, beq_iff_eq, List.contains_iff_mem] at hb
  exact List.mem_cons.mpr (hb.imp_left Eq.symm)

theorem isSpelled_inj {b c : BasicType} {name : String} (hb : b.isSpelled name = true)
    (hc : c.isSpelled name = true) : b = c := by
  have hspellings : ∀ b ∈ all, ∀ c ∈ all, ∀ name ∈ b.text :: b.synonyms,
      c.isSpelled name = true → b = c := by decide
  exact hspellings b (mem_all b) c (mem_all c) name (mem_spellings_of_isSpelled hb) hc

theorem ofName?_eq_some_iff {name : String} {b : BasicType} :
    ofName? name = some b ↔ b.isSpelled name = true := by
  have hspelled : ∀ c, ofName? name = some c → c.isSpelled name = true := by
    intro c hc
    rw [ofName?] at hc
    simpa using List.find?_some hc
  refine ⟨hspelled b, fun hb ↦ ?_⟩
  have hfound : (ofName? name).isSome := List.find?_isSome.mpr ⟨b, mem_all b, hb⟩
  obtain ⟨c, hc⟩ := Option.isSome_iff_exists.mp hfound
  rw [hc, isSpelled_inj (hspelled c hc) hb]

/-- The type that a basic type is on a target. -/
def onTarget (target : Target) : BasicType → CType
  | void => .void
  | bool => .bool
  | char => .int .w8 target.plainChar
  | signedChar => .int .w8 .signed
  | unsignedChar => .int .w8 .unsigned
  | short => .int .w16 .signed
  | unsignedShort => .int .w16 .unsigned
  | int => .int .w32 .signed
  | unsignedInt => .int .w32 .unsigned
  | long => .int target.model.longWidth .signed
  | unsignedLong => .int target.model.longWidth .unsigned
  | longLong => .int .w64 .signed
  | unsignedLongLong => .int .w64 .unsigned
  | float => .float .single
  | double => .float .double

end BasicType

end CValues
