import CValues.Floating.Format
import CValues.Target

/-!
# The types of C

The type language: `void`, `_Bool`, the integer types by width and signedness, the two floating
types, pointers with their qualifiers, and arrays. Plain `char`, `int` or `long` are not types of
their own here; a target says which of these each of them is.

Qualifiers belong to the pointer they are written on. They matter for what an implicit conversion
may drop, and for nothing else: `CType.unqualified` forgets the outermost ones.
-/

namespace CValues

/-- What a pointer promises about the object it points to. -/
structure Qualifiers where
  /-- The object is not written through the pointer. -/
  const : Bool := false
  /-- Every access through the pointer happens. -/
  volatile : Bool := false
  /-- No other pointer reaches the object. -/
  restrict : Bool := false
  deriving DecidableEq, Repr

namespace Qualifiers

/-- No promise at all. -/
def none : Qualifiers := {}

/-- Assigning a pointer with the qualifiers `source` to one with the qualifiers `destination` keeps
each `const` and `volatile`. A lost `restrict` does no harm. -/
def keptBy (source destination : Qualifiers) : Bool :=
  (!source.const || destination.const) && (!source.volatile || destination.volatile)

theorem keptBy_iff {source destination : Qualifiers} : source.keptBy destination = true ↔
    (source.const = true → destination.const = true) ∧
      (source.volatile = true → destination.volatile = true) := by
  rw [keptBy]
  cases source.const <;> cases source.volatile <;> simp

end Qualifiers

/-- A type of C. -/
inductive CType where
  | void
  | bool
  | int (width : Width) (signedness : Signedness)
  | float (format : FloatFormat)
  | pointer (pointee : CType) (qualifiers : Qualifiers)
  | array (element : CType) (length : Nat)
  deriving DecidableEq, Repr

namespace CType

/-- The type of `int` on every target. -/
def plainInt : CType := int .w32 .signed

/-- The pointer type without qualifiers. -/
def pointerTo (pointee : CType) : CType := pointer pointee .none

/-! ## Families -/

/-- `_Bool` and the integer types. -/
def isInteger : CType → Bool
  | bool | int _ _ => true
  | _ => false

/-- The floating types. -/
def isFloating : CType → Bool
  | float _ => true
  | _ => false

/-- The types that numbers have. -/
def isArithmetic (t : CType) : Bool := t.isInteger || t.isFloating

/-- The pointer types. -/
def isPointer : CType → Bool
  | pointer _ _ => true
  | _ => false

/-- A pointer to `void`, however qualified. -/
def isVoidPointer : CType → Bool
  | pointer void _ => true
  | _ => false

/-- The types whose values have a truth value. -/
def isScalar (t : CType) : Bool := t.isArithmetic || t.isPointer

/-! ## Attributes -/

/-- How a pattern of an integer type is read. -/
def signedness? : CType → Option Signedness
  | bool => some .unsigned
  | int _ s => some s
  | _ => none

/-- What a pointer type points to. -/
def pointee? : CType → Option CType
  | pointer t _ => some t
  | _ => none

/-- The type without its own qualifiers; those further inside stay. -/
def unqualified : CType → CType
  | pointer t _ => pointerTo t
  | t => t

/-- The size in bytes. `void` has none, and neither has an array that would need 2⁶⁴ bytes or more. -/
def size? (p : PointerSize) : CType → Option Nat
  | void => none
  | bool => some 1
  | int w _ => some w.bytes
  | float f => some f.bytes
  | pointer _ _ => some p.bytes
  | array element length =>
    (element.size? p).bind fun size ↦ if size * length < pow2 64 then some (size * length) else none

/-! ## Integer promotion -/

/-- The conversion rank of an integer type. -/
def rank? : CType → Option Nat
  | bool => some 0
  | int .w8 _ => some 1
  | int .w16 _ => some 2
  | int .w32 _ => some 3
  | int .w64 _ => some 4
  | _ => none

/-- The type an operand has before an operator sees it: an integer type of lesser rank than `int`
becomes `int`, which holds all its values; every other type stays. -/
def promoted : CType → CType
  | bool | int .w8 _ | int .w16 _ => plainInt
  | t => t

end CType

end CValues
