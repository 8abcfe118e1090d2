import CValues.Event

/-!
# What a message tells

Failures and log records carry data, and a reader of the log sees only a text. Every text holds all
the data of what it describes, written out and in a fixed order: the two types of a conversion, the
operation and the types of its operands, the sizes and addresses of an allocation.
-/

namespace CValues

/-- The parts stand in the text in this order, each behind the end of the one before. -/
inductive Mentions : List String → String → Prop
  | nil (text : String) : Mentions [] text
  | skip {parts : List String} {text : String} (before : String) (h : Mentions parts text) :
      Mentions parts (before ++ text)
  | part {parts : List String} {text : String} (first : String) (h : Mentions parts text) :
      Mentions (first :: parts) (first ++ text)

namespace Mentions

theorem self (text : String) : Mentions [text] text := by
  have h := part text (nil "")
  rwa [String.append_empty] at h

theorem intercalate (separator : String) (parts : List String) :
    Mentions parts (separator.intercalate parts) := by
  induction parts with
  | nil => exact .nil _
  | cons first rest ih => cases rest with
    | nil =>
      rw [String.intercalate_singleton]
      exact .self first
    | cons second rest =>
      rw [String.intercalate_cons_cons, String.append_assoc]
      exact .part first (.skip separator ih)

end Mentions

/-- The data of a failure, written out. -/
def Error.details : Error → List String
  | unsupportedConversion source target => [source.text, target.text]
  | qualifierDiscarded source target => [source.text, target.text]
  | invalidWidth bits => [toString bits]
  | invalidOperands operation operands => operation.name :: operands.map CType.text
  | invalidPointer address fault => [Hex.upperPadded 16 address, fault.text]
  | allocationLimit current limit => [toString current, toString limit]
  | unknownType name => [name]
  | divisionByZero | nullDereference | outOfBounds | capacityOverflow => []

/-- The data of a log record, written out. -/
def Event.details : Event → List String
  | converted kind source target rule => [kind.text, source.text, target.text, rule.text]
  | rejected source target => [source.text, target.text]
  | discardsQualifiers source target => [source.text, target.text]
  | invalidOperands operation operands => operation.name :: operands.map CType.text
  | allocated size address => [toString size, Hex.upper address]
  | allocationRejected size fault => [toString size, fault.text]
  | freed address => [Hex.upper address]
  | invalidFree address => [Hex.upper address]
  | throughNull operation pointer => [operation.name, pointer.text]

/-- The message of a failure holds all its data. -/
theorem Error.mentions_details (e : Error) : Mentions e.details e.message := by
  -- the texts are too long for the equations of `message`, so it is unfolded as a whole
  cases e <;> delta details message <;> simp only [String.append_assoc]
  case unsupportedConversion | qualifierDiscarded | allocationLimit =>
    exact .skip _ (.part _ (.skip _ (.part _ (.nil _))))
  case invalidOperands => exact .skip _ (.part _ (.skip _ (.intercalate _ _)))
  case invalidPointer => exact .skip _ (.part _ (.skip _ (.self _)))
  case invalidWidth | unknownType => exact .skip _ (.self _)
  all_goals exact .nil _

/-- The line of a log record holds all its data. -/
theorem Event.mentions_details (record : Event) : Mentions record.details record.line := by
  rw [line, String.append_assoc]
  refine .skip _ (.skip _ ?_)
  cases record <;> delta details message <;> simp only [String.append_assoc]
  case converted => exact .part _ (.skip _ (.part _ (.skip _ (.part _ (.skip _ (.self _))))))
  case discardsQualifiers => exact .skip _ (.part _ (.skip _ (.part _ (.nil _))))
  case rejected | allocated | allocationRejected =>
    exact .skip _ (.part _ (.skip _ (.self _)))
  case invalidOperands => exact .skip _ (.part _ (.skip _ (.intercalate _ _)))
  case freed | invalidFree => exact .skip _ (.self _)
  case throughNull => exact .part _ (.skip _ (.self _))

end CValues
