import CValues.Decimal.Positional
import CValues.Value

/-!
# The text of a value

Integers are written in decimal, floating numbers in positional notation, addresses in hexadecimal.
The null pointer has a name of its own; an array at address zero has not.
-/

namespace CValues.Value

/-- The value as it is written in expressions. -/
def text : Value → String
  | bool truth => if truth then "1" else "0"
  | int _ s p => toString (s.read p)
  | float f p => Decimal.text (f.widen p)
  | pointer _ _ a => if a = 0 then "NULL" else "0x" ++ Hex.upper a.toNat
  | array _ _ a => "0x" ++ Hex.upper a.toNat

end CValues.Value
