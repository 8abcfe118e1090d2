import CValues.Traced
import CValues.Value

/-!
# Conversions between numbers

Narrowing keeps the residue, rounding goes to the nearest number with ties to even, and a floating
number loses its fraction on the way to an integer. Each conversion refuses a value it is not made
for, by the type it was given and the type it was asked for.
-/

namespace CValues

/-- The value of an arithmetic type for an outcome: one if it holds, zero if not. -/
def ofOutcome (holds : Bool) : CType → Traced Value
  | .bool => pure (.bool holds)
  | .int w s => pure (.ofInt w s holds.toNat)
  | .float f => pure (.float f (f.ofInt holds.toNat))
  | t => .reject .bool t

/-- The outcome as an `int`. -/
def outcomeInt (holds : Bool) : Value := .plainInt holds.toNat

/-- A value counts as true unless it is zero. -/
def truthValue (v : Value) : Value := .bool (!v.isZero)

/-- An integer at another integer type: the value there with the same residue. -/
def integerToInteger (w : Width) (s : Signedness) (v : Value) : Traced Value :=
  match v.integer? with
  | some x => pure (.ofInt w s x)
  | none => .reject v.type (.int w s)

/-- An integer at a floating type: the nearest number. -/
def integerToFloating (f : FloatFormat) (v : Value) : Traced Value :=
  match v.integer? with
  | some x => pure (.float f (f.ofInt x))
  | none => .reject v.type (.float f)

/-- A floating number at an integer type: its integer part, reduced to the width. -/
def floatingToInteger (w : Width) (s : Signedness) : Value → Traced Value
  | .float f p => pure (.ofInt w s (f.toInt p))
  | v => .reject v.type (.int w s)

/-- A floating number at a floating type. At its own type not a bit changes. -/
def floatingToFloating (g : FloatFormat) : Value → Traced Value
  | .float f p => pure (if f = g then .float f p else .float g (f.convert g p))
  | v => .reject v.type (.float g)

/-- A number at any arithmetic type. -/
def convertNumber (v : Value) (target : CType) : Traced Value :=
  match target with
  | .bool => if v.type.isArithmetic then pure (truthValue v) else .reject v.type target
  | .int w s => if v.type.isFloating then floatingToInteger w s v else integerToInteger w s v
  | .float f => if v.type.isFloating then floatingToFloating f v else integerToFloating f v
  | _ => .reject v.type target

end CValues
