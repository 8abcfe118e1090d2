import CValues.Promotion

/-!
# Arithmetic

The binary operators. Numbers are brought to their common type, and an integer result is computed in
the accumulator and reduced to that type. A shift works on the promoted left operand alone and takes
its count modulo the width. An array stands for the pointer to its first element.

Adding an integer to a pointer moves it by whole elements, modulo the width of an address, and the
difference of two pointers to the same type counts elements. Both need an element of known size that
is not zero.
-/

namespace CValues

namespace BinaryOp

/-- The result in the accumulator of an operator on integers. A shift takes its count as the right
operand. -/
def onIntegers (x y : Int) : BinaryOp → Except Error Int
  | add => .ok (Accumulator.wrap (x + y))
  | sub => .ok (Accumulator.wrap (x - y))
  | mul => .ok (Accumulator.wrap (x * y))
  | div => if y = 0 then .error .divisionByZero else .ok (x.tdiv y)
  | rem => if y = 0 then .error .divisionByZero else .ok (x.tmod y)
  | and => .ok (Accumulator.bitwise (· &&& ·) x y)
  | or => .ok (Accumulator.bitwise (· ||| ·) x y)
  | xor => .ok (Accumulator.bitwise (· ^^^ ·) x y)
  | shl => .ok (Accumulator.wrap (x <<< y.toNat))
  | shr => .ok (x >>> y.toNat)

/-- The result of an operator on floating numbers, if it has a meaning there. -/
def onFloats (f : FloatFormat) (p q : f.Pattern) : BinaryOp → Option f.Pattern
  | add => some (f.add p q)
  | sub => some (f.sub p q)
  | mul => some (f.mul p q)
  | div => some (f.div p q)
  | _ => none

end BinaryOp

namespace Value

/-- The pattern of a floating value of this format. -/
def pattern? (f : FloatFormat) : Value → Option f.Pattern
  | float g p => if h : g = f then some (h ▸ p) else none
  | _ => none

end Value

/-! ## Numbers -/

/-- An operator on two values of the common type. -/
def onCommonType (op : BinaryOp) (v w : Value) : CommonType → Traced Value
  | .int width s =>
    match v.integer?, w.integer? with
    | some x, some y => do
      let r ← op.onIntegers x y
      return .ofInt width s r
    | _, _ => .invalid (.binary op) [v.type, w.type]
  | .float f =>
    match v.pattern? f, w.pattern? f with
    | some p, some q =>
      match op.onFloats f p q with
      | some r => pure (.float f r)
      | none => .invalid (.binary op) [v.type, w.type]
    | _, _ => .invalid (.binary op) [v.type, w.type]

/-- The number of places a shift moves by: the count modulo the width, both of them read in 32
bits. -/
def shiftCount (w : Width) (count : Int) : Nat := (BitVec.ofInt 32 count).toNat % w.bits

/-- A shift of the promoted left operand. -/
def shift (op : BinaryOp) (v w : Value) : Traced Value :=
  match v.promote, w.promote.integer? with
  | .int width s p, some count => do
    let r ← op.onIntegers (s.read p) (shiftCount width count)
    return .ofInt width s r
  | _, _ => .invalid (.binary op) [v.promote.type, w.promote.type]

/-- An operator on two numbers. -/
def arithmetic (target : Target) (op : BinaryOp) (v w : Value) : Traced Value :=
  if op.isIntegerOnly && (v.type.isFloating || w.type.isFloating) then
    .invalid (.binary op) [v.type, w.type]
  else if op.isShift then shift op v w
  else do
    let common ← usualType v.type w.type
    let v ← convert target .implicit v common.toCType
    let w ← convert target .implicit w common.toCType
    onCommonType op v w common

/-! ## Pointers -/

/-- The size that a pointer moves by. -/
def elementSize (target : Target) (op : BinaryOp) (pointee : CType) : Except Error Nat :=
  match pointee.size? target.pointerSize with
  | some (size + 1) => .ok (size + 1)
  | _ => .error (.invalidOperands (.binary op) [.pointerTo pointee])

/-- The pointer moved by some elements, forward or backward. The operands are those the message
names if the index is no integer. -/
def offset (target : Target) (op : BinaryOp) (operands : List CType) (pointee : CType)
    (qualifiers : Qualifiers) (address : BitVec 64) (index : Value) (sign : Int) : Traced Value :=
  match index.integer? with
  | none => .invalid (.binary op) operands
  | some i => do
    let size ← elementSize target op pointee
    let step := Accumulator.wrap (Accumulator.wrap (i * size) * sign)
    let moved := Accumulator.wrap (address.toNat + step)
    return .pointer pointee qualifiers (BitVec.ofNat 64 (target.addressWidth.truncate moved).toNat)

/-- The number of elements between two pointers to the same type. -/
def distance (target : Target) (op : BinaryOp) (pointee : CType) (a b : BitVec 64) :
    Traced Value := do
  let size ← elementSize target op pointee
  return .ofInt target.addressWidth .signed (((a.toNat : Int) - b.toNat).tdiv size)

/-- An operator on operands of which at least one is a pointer. -/
def pointerArithmetic (target : Target) (op : BinaryOp) (v w : Value) : Traced Value :=
  let operands := [v.type, w.type]
  match op, v, w with
  | .sub, .pointer t _ a, .pointer u _ b =>
    if t = u then distance target op t a b else .invalid (.binary op) operands
  | _, .pointer _ _ _, .pointer _ _ _ => .invalid (.binary op) operands
  | .add, .pointer t q a, index => offset target op operands t q a index 1
  | .add, index, .pointer t q a => offset target op operands t q a index 1
  | .sub, .pointer t q a, index => offset target op operands t q a index (-1)
  | _, _, _ => .invalid (.binary op) operands

/-! ## All operands -/

/-- A binary operator on two values. -/
def binary (target : Target) (op : BinaryOp) (v w : Value) : Traced Value :=
  let v := v.decay
  let w := w.decay
  if v.type.isPointer || w.type.isPointer then pointerArithmetic target op v w
  else arithmetic target op v w

end CValues
