import CValues.Conversion.Address
import CValues.Conversion.Number

/-!
# Conversion

For most pairs of types there is one rule by which a value of the first becomes a value of the
second. `Rule.between?` finds it; `convert` applies it and traces it. A pair without a rule is
refused without a trace: nothing becomes `void` or an array, and a floating number never meets a
pointer. A rule can refuse too, by the value or by the kind of the conversion, and is traced all the
same.
-/

namespace CValues

namespace Rule

/-- The rule that takes values of one type to another. -/
def between? : CType → CType → Option Rule
  | .void, _ | _, .void | _, .array _ _ => none
  | _, .bool => some truthValue
  | .bool, .int _ _ | .int _ _, .int _ _ => some integerToInteger
  | .bool, .float _ | .int _ _, .float _ => some integerToFloating
  | .bool, .pointer _ _ | .int _ _, .pointer _ _ => some integerToPointer
  | .float _, .int _ _ => some floatingToInteger
  | .float _, .float _ => some floatingToFloating
  | .float _, .pointer _ _ => none
  | .pointer _ _, .int _ _ => some pointerToInteger
  | .pointer _ _, .float _ => none
  | .pointer _ _, .pointer _ _ => some pointerToPointer
  | .array _ _, .int _ _ | .array _ _, .float _ => none
  | .array _ _, .pointer _ _ => some arrayDecay

/-- Carries a rule out. -/
def apply (target : Target) (kind : ConversionKind) (v : Value) (t : CType) (rule : Rule) :
    Traced Value :=
  match rule, t with
  | truthValue, _ => pure (CValues.truthValue v)
  | integerToInteger, .int w s => CValues.integerToInteger w s v
  | integerToFloating, .float f => CValues.integerToFloating f v
  | integerToPointer, t => CValues.integerToPointer target kind v t
  | floatingToInteger, .int w s => CValues.floatingToInteger w s v
  | floatingToFloating, .float f => CValues.floatingToFloating f v
  | pointerToInteger, .int w s => CValues.pointerToInteger target kind w s v
  | pointerToPointer, t => CValues.pointerToPointer kind v t
  | arrayDecay, t => arrayToPointer kind v t
  | _, t => .reject v.type t

end Rule

/-- The value at another type. -/
def convert (target : Target) (kind : ConversionKind) (v : Value) (t : CType) : Traced Value :=
  match Rule.between? v.type t with
  | some rule => (rule.apply target kind v t).andThen (.converted kind v.type t rule)
  | none => .reject v.type t

/-- The value that an assignment to the type stores. -/
def assign (target : Target) (v : Value) (t : CType) : Traced Value := convert target .implicit v t

/-- The value of a cast to the type. -/
def cast (target : Target) (v : Value) (t : CType) : Traced Value := convert target .explicit v t

end CValues
