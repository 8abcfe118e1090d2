import CValues.Value

/-!
# Values as bytes

A value lies in memory as the bytes of its pattern, the least significant one first. A pointer takes
as many bytes as the target's addresses have; an array is written as its address.
-/

namespace CValues

/-- The `count` lowest bytes of a number, the lowest one first. -/
def littleEndian : Nat → Nat → List UInt8
  | 0, _ => []
  | count + 1, n => UInt8.ofNat n :: littleEndian count (n / 256)

/-- The number with these bytes, the lowest one first. -/
def ofLittleEndian : List UInt8 → Nat
  | [] => 0
  | b :: rest => b.toNat + 256 * ofLittleEndian rest

@[simp] theorem length_littleEndian (count n : Nat) : (littleEndian count n).length = count := by
  induction count generalizing n with
  | zero => rfl
  | succ count ih => rw [littleEndian, List.length_cons, ih]

theorem pow2_eight_mul_succ (count : Nat) : pow2 (8 * (count + 1)) = 256 * pow2 (8 * count) := by
  rw [Nat.mul_succ, Nat.add_comm, pow2_add]
  rfl

theorem ofLittleEndian_littleEndian (count n : Nat) :
    ofLittleEndian (littleEndian count n) = n % pow2 (8 * count) := by
  induction count generalizing n with
  | zero => rw [littleEndian, ofLittleEndian, Nat.mul_zero, pow2_zero, Nat.mod_one]
  | succ count ih =>
    rw [littleEndian, ofLittleEndian, ih, pow2_eight_mul_succ, Nat.mod_mul]
    rfl

namespace Value

/-- The number of bytes a value takes in memory. -/
def byteCount (p : PointerSize) : Value → Nat
  | array _ _ _ => p.bytes
  | v => (v.type.size? p).getD 0

/-- The bytes of a value in memory. -/
def toBytes (p : PointerSize) (v : Value) : List UInt8 := littleEndian (v.byteCount p) v.bits

/-- The value of a type that begins a row of bytes. There are no values of `void`, and an array is
not read as a value. -/
def ofBytes (p : PointerSize) (t : CType) (bytes : List UInt8) : Except Error Value :=
  match t with
  | .void | .array _ _ => .error (.invalidOperands .load [t])
  | t =>
    let size := (t.size? p).getD 0
    if bytes.length < size then .error .outOfBounds
    else ofBits (ofLittleEndian (bytes.take size)) t

end Value

end CValues
