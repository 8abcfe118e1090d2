import CValues.Expr.Eval
import CValues.Word.Conversion

/-!
# Operators on words

The operators and the evaluation of expressions, on words. The operands are read as integers of the
accumulator or as floating patterns, and what comes of them is put into a word of its type again.
Two numbers that are not integers are compared as `double`, whatever their format.
-/

namespace CValues

namespace TypedWord

/-! ## Arithmetic -/

/-- An operator on two words of the common type. -/
def onCommonType (op : BinaryOp) (v w : TypedWord) : CommonType → Traced TypedWord
  | .int width s =>
    match v.integer?, w.integer? with
    | some x, some y => do
      let r ← op.onIntegers x y
      return ofInt width s r
    | _, _ => .invalid (.binary op) [v.type, w.type]
  | .float f =>
    match v.pattern? f, w.pattern? f with
    | some p, some q =>
      match op.onFloats f p q with
      | some r => pure (ofPattern f r)
      | none => .invalid (.binary op) [v.type, w.type]
    | _, _ => .invalid (.binary op) [v.type, w.type]

/-- A shift of the promoted left operand. -/
def shift (op : BinaryOp) (v w : TypedWord) : Traced TypedWord :=
  match v.promote.type, v.promote.integer?, w.promote.integer? with
  | .int width s, some x, some count => do
    let r ← op.onIntegers x (shiftCount width count)
    return ofInt width s r
  | _, _, _ => .invalid (.binary op) [v.promote.type, w.promote.type]

/-- An operator on two numbers. -/
def arithmetic (target : Target) (op : BinaryOp) (v w : TypedWord) : Traced TypedWord :=
  if !(v.type.isArithmetic && w.type.isArithmetic) then .invalid (.binary op) [v.type, w.type]
  else if op.isIntegerOnly && (v.type.isFloating || w.type.isFloating) then
    .invalid (.binary op) [v.type, w.type]
  else if op.isShift then shift op v w
  else do
    let common ← usualType v.type w.type
    let v ← v.convert target .implicit common.toCType
    let w ← w.convert target .implicit common.toCType
    onCommonType op v w common

/-! ## Pointers -/

/-- The pointer moved by some elements, forward or backward. The operands are those the message
names if the index is no integer. -/
def offset (target : Target) (op : BinaryOp) (operands : List CType) (pointer : TypedWord)
    (pointee : CType) (index : TypedWord) (sign : Int) : Traced TypedWord :=
  match index.integer? with
  | none => .invalid (.binary op) operands
  | some i => do
    let size ← elementSize target op pointee
    let step := Accumulator.wrap (Accumulator.wrap (i * size) * sign)
    let moved := Accumulator.wrap (pointer.bits.toNat + step)
    ofBits (target.addressWidth.maskedWord moved) pointer.type

/-- The number of elements between two pointers to the same type. -/
def distance (target : Target) (op : BinaryOp) (pointee : CType) (v w : TypedWord) :
    Traced TypedWord := do
  let size ← elementSize target op pointee
  return ofInt target.addressWidth .signed (((v.bits.toNat : Int) - w.bits.toNat).tdiv size)

/-- An operator on operands of which at least one is a pointer. -/
def pointerArithmetic (target : Target) (op : BinaryOp) (v w : TypedWord) : Traced TypedWord :=
  let operands := [v.type, w.type]
  match op, v.type.pointee?, w.type.pointee? with
  | .add, some t, none => offset target op operands v t w 1
  | .add, none, some t => offset target op operands w t v 1
  | .sub, some t, none => offset target op operands v t w (-1)
  | .sub, some t, some u =>
    if t = u then distance target op t v w else .invalid (.binary op) operands
  | _, _, _ => .invalid (.binary op) operands

/-- A binary operator on two words. -/
def binary (target : Target) (op : BinaryOp) (v w : TypedWord) : Traced TypedWord :=
  let v := v.decay
  let w := w.decay
  if v.type.isPointer || w.type.isPointer then pointerArithmetic target op v w
  else arithmetic target op v w

/-! ## Comparison -/

/-- The outcome as an `int`. -/
def outcomeInt (holds : Bool) : TypedWord := plainInt holds.toNat

/-- How two words of a common type compare. -/
def compareNumbers (v w : TypedWord) : Option Ordering :=
  match v.integer?, w.integer? with
  | some x, some y => some (Ord.compare x y)
  | _, _ =>
    match v.double?, w.double? with
    | some p, some q => FloatFormat.double.order p q
    | _, _ => none

/-- How two operands compare, if the comparison has a meaning on them. -/
def orderOf (target : Target) (op : CompareOp) (v w : TypedWord) : Traced (Option Ordering) :=
  match v.type.pointee?, w.type.pointee? with
  | some t, some u =>
    if t.pointsAlike u then pure (some (Ord.compare v.bits.toNat w.bits.toNat))
    else .invalid (.compare op) [v.type, w.type]
  | some _, none =>
    if w.integer? = some 0 ∧ op.isEquality then
      pure (some (Ord.compare v.bits.toNat w.bits.toNat))
    else .invalid (.compare op) [v.type, w.type]
  | none, some _ =>
    if v.integer? = some 0 ∧ op.isEquality then
      pure (some (Ord.compare v.bits.toNat w.bits.toNat))
    else .invalid (.compare op) [v.type, w.type]
  | none, none => do
    let common ← usualType v.type w.type
    let v ← v.convert target .implicit common.toCType
    let w ← w.convert target .implicit common.toCType
    return compareNumbers v w

/-- A comparison of two words. -/
def compare (target : Target) (op : CompareOp) (v w : TypedWord) : Traced TypedWord := do
  let order ← orderOf target op v.decay w.decay
  return outcomeInt (op.holds order)

/-! ## One operand and truth values -/

/-- A unary operator on a word. -/
def unary (op : UnaryOp) (v : TypedWord) : Traced TypedWord :=
  let operand := v.decay
  let promoted := operand.promote
  if op = .not then
    if operand.type.isScalar then pure (outcomeInt operand.isZero)
    else .invalid (.unary op) [operand.type]
  else
    match promoted.type, op with
    | .int w s, op => pure (ofInt w s (op.onInteger (promoted.integer?.getD 0)))
    | .float f, .plus => pure (ofPattern f ((promoted.pattern? f).getD 0))
    | .float f, .neg => pure (ofPattern f (f.negate ((promoted.pattern? f).getD 0)))
    | _, _ => .invalid (.unary op) [operand.type]

/-- A logical operator on two words that have both been computed. -/
def logical (op : LogicalOp) (v w : TypedWord) : Traced TypedWord :=
  let v := v.decay
  let w := w.decay
  if v.type.isScalar && w.type.isScalar then
    pure (outcomeInt (op.combine (!v.isZero) (!w.isZero)))
  else .invalid (.logical op) [v.type, w.type]

end TypedWord

/-! ## Expressions -/

/-- The word that an expression comes to on a target, with a word for each of its literals. -/
def Expr.evalWord (target : Target) : Expr → Traced TypedWord
  | literal v => pure v.word
  | char c => pure (.ofChar c)
  | cast t e => do
    let v ← e.evalWord target
    v.convert target .explicit t
  | assign t e => do
    let v ← e.evalWord target
    v.convert target .implicit t
  | paren e => e.evalWord target
  | unary op e => do
    let v ← e.evalWord target
    v.unary op
  | binary op l r => do
    let v ← l.evalWord target
    let w ← r.evalWord target
    v.binary target op w
  | compare op l r => do
    let v ← l.evalWord target
    let w ← r.evalWord target
    v.compare target op w
  | logical op l r => do
    let v ← l.evalWord target
    if op.decidedBy (!v.isZero) && v.type.isScalar then v.logical op v
    else
      let w ← r.evalWord target
      v.logical op w

end CValues
