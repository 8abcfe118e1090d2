import CValues.CType

/-!
# The text of a type

Types are written with exact widths, so that a text means the same type on every target. Qualifiers
are written on the pointer they belong to: `const` and `volatile` in front of the pointee, `restrict`
behind the star.
-/

namespace CValues.CType

/-- The type as it is written in messages and casts. -/
def text : CType → String
  | void => "void"
  | bool => "_Bool"
  | int w .signed => "int" ++ toString w.bits ++ "_t"
  | int w .unsigned => "uint" ++ toString w.bits ++ "_t"
  | float .single => "float"
  | float .double => "double"
  | pointer pointee qualifiers =>
    (if qualifiers.const then "const " else "")
      ++ (if qualifiers.volatile then "volatile " else "")
      ++ pointee.text ++ "*"
      ++ (if qualifiers.restrict then " restrict" else "")
  | array element length => element.text ++ "[" ++ toString length ++ "]"

end CValues.CType
