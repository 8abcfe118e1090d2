import CValues.Promotion

/-!
# Operators on one operand and on truth values

The signs and the complement work on the promoted operand. Negation of a floating number turns its
sign around and changes nothing else, whether or not it is a number. `!`, `&&` and `||` ask whether
a value is zero, and their outcome is an `int`.
-/

namespace CValues

/-- The result in the accumulator of an operator on one integer. -/
def UnaryOp.onInteger (x : Int) : UnaryOp → Int
  | .neg => -x
  | .complement => -x - 1
  | .plus | .not => x

/-- A unary operator on a value. -/
def unary (op : UnaryOp) (v : Value) : Traced Value :=
  let operand := v.decay
  match op, operand.promote with
  | .not, _ =>
    if operand.type.isScalar then pure (outcomeInt operand.isZero)
    else .invalid (.unary op) [operand.type]
  | op, .int w s p => pure (.ofInt w s (op.onInteger (s.read p)))
  | .plus, .float f p => pure (.float f p)
  | .neg, .float f p => pure (.float f (f.negate p))
  | _, _ => .invalid (.unary op) [operand.type]

/-- A logical operator on two values that have both been computed. -/
def logical (op : LogicalOp) (v w : Value) : Traced Value :=
  let v := v.decay
  let w := w.decay
  if v.type.isScalar && w.type.isScalar then
    pure (outcomeInt (op.combine (!v.isZero) (!w.isZero)))
  else .invalid (.logical op) [v.type, w.type]

end CValues
