import CValues.Promotion

/-!
# Comparison

Numbers are compared at their common type, which makes a negative number large where that type is
unsigned. Pointers are compared by address, if they point to the same type or one of them to `void`.
A pointer and an integer can only be tested for equality, and only with an integer that is zero.
The outcome of a comparison is an `int`.
-/

namespace CValues

/-- How two values of a common type compare. -/
def compareNumbers (v w : Value) : Option Ordering :=
  match v, w with
  | .float .single p, .float .single q => FloatFormat.single.order p q
  | .float .double p, .float .double q => FloatFormat.double.order p q
  | v, w =>
    match v.integer?, w.integer? with
    | some x, some y => some (compare x y)
    | _, _ => none

/-- How two operands compare, if the comparison has a meaning on them. -/
def orderOf (target : Target) (op : CompareOp) (v w : Value) : Traced (Option Ordering) :=
  match v, w with
  | .pointer t _ a, .pointer u _ b =>
    if t.pointsAlike u then pure (some (compare a.toNat b.toNat))
    else .invalid (.compare op) [v.type, w.type]
  | .pointer _ _ a, w =>
    if w.integer? = some 0 ∧ op.isEquality then pure (some (compare a.toNat 0))
    else .invalid (.compare op) [v.type, w.type]
  | v, .pointer _ _ b =>
    if v.integer? = some 0 ∧ op.isEquality then pure (some (compare 0 b.toNat))
    else .invalid (.compare op) [v.type, w.type]
  | v, w => do
    let common ← usualType v.type w.type
    let v ← convert target .implicit v common.toCType
    let w ← convert target .implicit w common.toCType
    return compareNumbers v w

/-- A comparison of two values. -/
def compareValues (target : Target) (op : CompareOp) (v w : Value) : Traced Value := do
  let order ← orderOf target op v.decay w.decay
  return outcomeInt (op.holds order)

end CValues
