/-!
# Hexadecimal numerals

Addresses are written with capital digits, escapes with small ones. A numeral has no leading zeros
unless it is padded to a least number of digits.
-/

namespace CValues.Hex

/-- The numeral with small digits. -/
def lower (n : Nat) : String := String.ofList (Nat.toDigits 16 n)

/-- The numeral with capital digits. -/
def upper (n : Nat) : String := String.ofList ((Nat.toDigits 16 n).map Char.toUpper)

/-- The numeral with capital digits, filled up with zeros in front to at least `count` digits. -/
def upperPadded (count n : Nat) : String :=
  let digits := upper n
  String.ofList (List.replicate (count - digits.length) '0') ++ digits

end CValues.Hex
