/-!
# Blanks

The characters that Unicode gives the property `White_Space`, and the removal of them from both ends
of a text. The property is wider than the blanks of C, so a name that was cut out of a document with
wide or unbreakable spaces around it is still found.
-/

namespace CValues

/-- The character has the property `White_Space`. -/
def isBlank (c : Char) : Bool :=
  let n := c.toNat
  (0x09 ≤ n && n ≤ 0x0D) || n == 0x20 || n == 0x85 || n == 0xA0 || n == 0x1680
    || (0x2000 ≤ n && n ≤ 0x200A) || n == 0x2028 || n == 0x2029 || n == 0x202F || n == 0x205F
    || n == 0x3000

/-- The text without the blanks at its two ends. -/
def trimBlanks (text : String) : String :=
  let fromStart := text.toList.dropWhile isBlank
  String.ofList (fromStart.reverse.dropWhile isBlank).reverse

end CValues
