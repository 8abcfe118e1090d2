import CValues.CType.Text
import CValues.Operator
import CValues.Text.Hex

/-!
# Causes of failure

An operation that cannot be carried out says why by a value of `Error`. The wording is in one place,
`Error.message`; everything else compares causes.
-/

namespace CValues

/-- What is wrong with an address. -/
inductive AddressFault where
  /-- No live allocation begins there. -/
  | notAllocated
  /-- No live allocation reaches there. -/
  | outsideRegions
  deriving DecidableEq, Repr

namespace AddressFault

/-- The fault in words. -/
def text : AddressFault → String
  | notAllocated => "not a valid allocation or already freed"
  | outsideRegions => "address not in any allocated region"

end AddressFault

/-- Why an operation failed. -/
inductive Error where
  /-- No conversion joins the two types. -/
  | unsupportedConversion (source target : CType)
  /-- An implicit conversion would lose a qualifier. -/
  | qualifierDiscarded (source target : CType)
  /-- No integer type has this many bits. -/
  | invalidWidth (bits : Nat)
  /-- The operation has no meaning on operands of these types. -/
  | invalidOperands (operation : Operation) (operands : List CType)
  /-- The divisor is zero. -/
  | divisionByZero
  /-- An access through the null pointer. -/
  | nullDereference
  /-- An address at which nothing is. -/
  | invalidPointer (address : Nat) (fault : AddressFault)
  /-- An access beyond the end of what is there. -/
  | outOfBounds
  /-- An allocation that does not fit beside the bytes in use. -/
  | allocationLimit (current limit : Nat)
  /-- A name that no type has. -/
  | unknownType (name : String)
  /-- More bytes than the host lays out in a row. Nobody is told: the program ends there. -/
  | capacityOverflow
  deriving DecidableEq, Repr

namespace Error

/-- The types of operands as they stand in a message. -/
def operandList (operands : List CType) : String := ", ".intercalate (operands.map CType.text)

/-- The failure in words. -/
def message : Error → String
  | unsupportedConversion source target =>
    "Unsupported conversion from `" ++ source.text ++ "` to `" ++ target.text ++ "`"
  | qualifierDiscarded source target =>
    "Implicit conversion from `" ++ source.text ++ "` to `" ++ target.text
      ++ "` discards qualifiers"
  | invalidWidth bits => "Invalid integer width - " ++ toString bits
  | invalidOperands operation operands =>
    "Invalid operands for `" ++ operation.name ++ "`: " ++ operandList operands
  | divisionByZero => "Division by zero"
  | nullDereference => "Null pointer dereference"
  | invalidPointer address fault =>
    "Invalid pointer 0x" ++ Hex.upperPadded 16 address ++ ": " ++ fault.text
  | outOfBounds => "Out of Bound access would have occurred!"
  | allocationLimit current limit =>
    "Allocation limit exceeded: " ++ toString current ++ " bytes in use (limit: "
      ++ toString limit ++ ")"
  | unknownType name => "Unknown type - " ++ name
  | capacityOverflow => "capacity overflow"

end Error

/-- The width with this many bits. -/
def Width.ofBits (bits : Nat) : Except Error Width :=
  match Width.ofBits? bits with
  | some w => .ok w
  | none => .error (.invalidWidth bits)

end CValues
