import CValues.Error
import CValues.Floating.Arithmetic

/-!
# Values

A value is a bit pattern that is read at a type. The pattern of a number has exactly the bits of its
type, so no value has stray bits above them; `void` has no values. Pointers carry an address of 64
bits even on a target whose addresses are narrower, and an array is known by the address of its
first element.

Two values are the same if they have the same type and the same pattern, except that pointers are
the same if their addresses are: the null pointers of all pointer types are one null pointer.
-/

namespace CValues

/-- A value of C. -/
inductive Value where
  | bool (truth : Bool)
  | int (width : Width) (signedness : Signedness) (pattern : BitVec width.bits)
  | float (format : FloatFormat) (pattern : format.Pattern)
  | pointer (pointee : CType) (qualifiers : Qualifiers) (address : BitVec 64)
  | array (element : CType) (length : Nat) (address : BitVec 64)
  deriving DecidableEq, Repr

namespace Value

/-- The type a value is read at. -/
def type : Value → CType
  | bool _ => .bool
  | int w s _ => .int w s
  | float f _ => .float f
  | pointer t q _ => .pointer t q
  | array t n _ => .array t n

/-- The pattern as a number. -/
def bits : Value → Nat
  | bool truth => truth.toNat
  | int _ _ p => p.toNat
  | float _ p => p.toNat
  | pointer _ _ a => a.toNat
  | array _ _ a => a.toNat

/-! ## Making values -/

/-- The value of a type with the low bits of a pattern. A `_Bool` is true if any bit of its byte is
set. -/
def ofBits (n : Nat) : CType → Except Error Value
  | .void => .error (.invalidOperands .construct [.void])
  | .bool => .ok (bool (n % 256 != 0))
  | .int w s => .ok (int w s (BitVec.ofNat w.bits n))
  | .float f => .ok (float f (BitVec.ofNat f.bits n))
  | .pointer t q => .ok (pointer t q (BitVec.ofNat 64 n))
  | .array t length => .ok (array t length (BitVec.ofNat 64 n))

/-- The value of an integer type that is congruent to `x`. -/
def ofInt (w : Width) (s : Signedness) (x : Int) : Value := int w s (w.truncate x)

/-- A value of type `int`. -/
def plainInt (x : Int) : Value := ofInt .w32 .signed x

/-- The value of a character constant, which is an `int`. -/
def ofChar (c : Char) : Value := plainInt c.toNat

/-- A pointer without qualifiers. -/
def pointerTo (pointee : CType) (address : Nat) : Value :=
  pointer pointee .none (BitVec.ofNat 64 address)

/-- The null pointer of a pointer type. -/
def null (pointee : CType) : Value := pointerTo pointee 0

/-! ## Readings -/

/-- The integer that a value of integer type stands for. -/
def integer? : Value → Option Int
  | bool truth => some truth.toNat
  | int _ s p => some (s.read p)
  | _ => none

/-- The integer, if it lies in the range of a signed integer of 64 bits. -/
def signed64? (v : Value) : Option Int :=
  v.integer?.filter fun x : Int ↦ decide (-(pow2 63 : Int) ≤ x ∧ x < pow2 63)

/-- The integer, if it lies in the range of an unsigned integer of 64 bits. -/
def unsigned64? (v : Value) : Option Nat :=
  (v.integer?.filter fun x : Int ↦ decide (0 ≤ x ∧ x < pow2 64)).map Int.toNat

/-- The number that a value of floating type stands for, in the double format. -/
def double? : Value → Option FloatFormat.double.Pattern
  | float f p => some (f.widen p)
  | _ => none

/-- The pattern of a value of type `float`. -/
def single? : Value → Option FloatFormat.single.Pattern
  | float .single p => some p
  | _ => none

/-- The address of a pointer or an array. -/
def address? : Value → Option Nat
  | pointer _ _ a => some a.toNat
  | array _ _ a => some a.toNat
  | _ => none

/-- The address of a pointer or an array, unless it is zero. -/
def nonNull? (v : Value) : Option Nat := v.address?.filter (· != 0)

/-- The value is a null pointer. -/
def isNull : Value → Bool
  | pointer _ _ a => a == 0
  | _ => false

/-- The value counts as false: a zero of either sign, or a null address. -/
def isZero : Value → Bool
  | float f p => f.isZero p
  | v => v.bits == 0

/-! ## Arrays as pointers -/

/-- The value as an operand: an array becomes the pointer to its first element. -/
def decay : Value → Value
  | array t _ a => pointer t .none a
  | v => v

theorem decay_of_not_array {v : Value} (h : ∀ t n a, v ≠ array t n a) : v.decay = v := by
  cases v with
  | array t n a => exact absurd rfl (h t n a)
  | _ => rfl

/-! ## Sameness -/

/-- The two values are the same. Of pointers only the addresses are compared. -/
def same : Value → Value → Bool
  | pointer _ _ a, pointer _ _ b => a == b
  | v, w => v == w

end Value

end CValues
