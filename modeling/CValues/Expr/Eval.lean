import CValues.Arithmetic
import CValues.Comparison
import CValues.Expr
import CValues.Logic

/-!
# Evaluation

Operands are evaluated from left to right. A scalar left operand that decides `&&` or `||` ends the
evaluation; an array on the left always has the right operand evaluated too.
-/

namespace CValues.Expr

/-- The value of an expression on a target. -/
def eval (target : Target) : Expr → Traced Value
  | literal v => pure v
  | char c => pure (.ofChar c)
  | cast t e => do
    let v ← e.eval target
    convert target .explicit v t
  | assign t e => do
    let v ← e.eval target
    convert target .implicit v t
  | paren e => e.eval target
  | unary op e => do
    let v ← e.eval target
    CValues.unary op v
  | binary op l r => do
    let v ← l.eval target
    let w ← r.eval target
    CValues.binary target op v w
  | compare op l r => do
    let v ← l.eval target
    let w ← r.eval target
    compareValues target op v w
  | logical op l r => do
    let v ← l.eval target
    if op.decidedBy (!v.isZero) && v.type.isScalar then CValues.logical op v v
    else
      let w ← r.eval target
      CValues.logical op v w

end CValues.Expr
