import CValues.Decimal.Shortest
import CValues.Floating.Format

/-!
# Floating numbers in positional notation

A floating number is written with the digits of its shortest decimal and never with an exponent. A
whole number has no point, a number below one has a zero before it, and a zero keeps its sign.
-/

namespace CValues.Decimal

/-- The decimal in positional notation. -/
def positional (d : Dec) : String :=
  let digits := Nat.toDigits 10 d.digits
  let places := (-d.exponent).toNat
  String.ofList <|
    if places = 0 then digits ++ List.replicate d.exponent.toNat '0'
    else if places < digits.length then
      digits.take (digits.length - places) ++ '.' :: digits.drop (digits.length - places)
    else '0' :: '.' :: (List.replicate (places - digits.length) '0' ++ digits)

/-- The number that a pattern of the double format stands for. -/
def text (p : FloatFormat.double.Pattern) : String :=
  let sign := if FloatFormat.double.isNegative p then "-" else ""
  match FloatFormat.double.read p with
  | .nan => "NaN"
  | .infinite _ => sign ++ "inf"
  | .finite _ 0 => sign ++ "0"
  | .finite _ _ => sign ++ positional (shortest (FloatFormat.double.magnitude p))

end CValues.Decimal
