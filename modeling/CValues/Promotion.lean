import CValues.Conversion

/-!
# Promotion and the usual arithmetic conversions

Before an operator works on integers they are promoted: what is narrower than `int` becomes `int`.
Most operators then bring both operands to one common type. A floating type wins over every integer
type and `double` over `float`. Among integer types the wider wins; at equal width, or if the
unsigned one is the wider, the common type is unsigned.
-/

namespace CValues

/-- A value at the promoted type. -/
def Value.promote (v : Value) : Value :=
  match v.integer?, v.type with
  | some x, .bool | some x, .int .w8 _ | some x, .int .w16 _ => .plainInt x
  | _, _ => v

/-- A type that both operands of an arithmetic operator can have. -/
inductive CommonType where
  | int (width : Width) (signedness : Signedness)
  | float (format : FloatFormat)
  deriving DecidableEq, Repr

namespace CommonType

/-- The common type as a type. -/
def toCType : CommonType → CType
  | int w s => .int w s
  | float f => .float f

/-- The type of a promoted operand, if it is a number. -/
def ofOperand? : CType → Option CommonType
  | .bool | .int .w8 _ | .int .w16 _ => some (int .w32 .signed)
  | .int w s => some (int w s)
  | .float f => some (float f)
  | _ => none

/-- The common type of two integer types. -/
def joinIntegers (v : Width) (s : Signedness) (w : Width) (t : Signedness) : CommonType :=
  match s, t with
  | .signed, .signed => int (v.wider w) .signed
  | .unsigned, .unsigned => int (v.wider w) .unsigned
  | .unsigned, .signed => if w.bits ≤ v.bits then int v .unsigned else int w .signed
  | .signed, .unsigned => if v.bits ≤ w.bits then int w .unsigned else int v .signed

/-- The common type of two promoted operands. -/
def join : CommonType → CommonType → CommonType
  | float .double, _ | _, float .double => float .double
  | float .single, _ | _, float .single => float .single
  | int v s, int w t => joinIntegers v s w t

end CommonType

/-- The common type of the operands of an arithmetic operator. -/
def usualType (t u : CType) : Except Error CommonType :=
  match CommonType.ofOperand? t, CommonType.ofOperand? u with
  | some a, some b => .ok (a.join b)
  | _, _ => .error (.invalidOperands .usualConversions [t, u])

end CValues
