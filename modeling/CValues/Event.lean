import CValues.Error

/-!
# Log records

What happens on the way to a result is recorded as a list of events. A refused conversion, operands
without a meaning and the traffic of the heap are recorded for debugging; a conversion that a rule
was found for is traced, whether or not the rule carried it out.
-/

namespace CValues

/-- Whether a conversion was written as a cast or happens by itself. -/
inductive ConversionKind where
  | implicit
  | explicit
  deriving DecidableEq, Repr

namespace ConversionKind

/-- The kind in a word. -/
def text : ConversionKind → String
  | implicit => "implicit"
  | explicit => "explicit"

end ConversionKind

/-- The rules by which a value changes its type. -/
inductive Rule where
  | truthValue
  | integerToInteger
  | integerToFloating
  | integerToPointer
  | floatingToInteger
  | floatingToFloating
  | pointerToInteger
  | pointerToPointer
  | arrayDecay
  deriving DecidableEq, Repr

namespace Rule

/-- The rule in words. -/
def text : Rule → String
  | truthValue => "truth value"
  | integerToInteger => "integer to integer"
  | integerToFloating => "integer to floating"
  | integerToPointer => "integer to pointer"
  | floatingToInteger => "floating to integer"
  | floatingToFloating => "floating to floating"
  | pointerToInteger => "pointer to integer"
  | pointerToPointer => "pointer to pointer"
  | arrayDecay => "array decay"

end Rule

/-- Why an allocation was refused. -/
inductive AllocationFault where
  /-- Too many bytes would be in use. -/
  | overLimit (current limit : Nat)
  /-- No address is left for the next allocation. -/
  | exhausted
  deriving DecidableEq, Repr

namespace AllocationFault

/-- The fault in words. -/
def text : AllocationFault → String
  | overLimit current limit => (Error.allocationLimit current limit).message
  | exhausted => "address space exhausted"

end AllocationFault

/-- How much attention a record asks for. -/
inductive Level where
  | trace
  | debug
  deriving DecidableEq, Repr

namespace Level

/-- The level in capitals. -/
def text : Level → String
  | trace => "TRACE"
  | debug => "DEBUG"

end Level

/-- A log record. -/
inductive Event where
  /-- A rule was applied. -/
  | converted (kind : ConversionKind) (source target : CType) (rule : Rule)
  /-- No conversion joins the two types. -/
  | rejected (source target : CType)
  /-- An implicit conversion would have lost a qualifier. -/
  | discardsQualifiers (source target : CType)
  /-- An operation has no meaning on operands of these types. -/
  | invalidOperands (operation : Operation) (operands : List CType)
  /-- An allocation was made. -/
  | allocated (size address : Nat)
  /-- An allocation was refused. -/
  | allocationRejected (size : Nat) (fault : AllocationFault)
  /-- An allocation was released. -/
  | freed (address : Nat)
  /-- There was nothing to release. -/
  | invalidFree (address : Nat)
  /-- An access through a null pointer of this type. -/
  | throughNull (operation : Operation) (pointer : CType)
  deriving DecidableEq, Repr

namespace Event

/-- The level of a record. -/
def level : Event → Level
  | converted .. => .trace
  | _ => .debug

/-- The record in words. -/
def message : Event → String
  | converted kind source target rule =>
    kind.text ++ " " ++ source.text ++ " -> " ++ target.text ++ " via " ++ rule.text
  | rejected source target => "rejecting conversion " ++ source.text ++ " -> " ++ target.text
  | discardsQualifiers source target =>
    "implicit " ++ source.text ++ " -> " ++ target.text ++ " discards qualifiers"
  | invalidOperands operation operands =>
    "invalid operands for `" ++ operation.name ++ "`: " ++ Error.operandList operands
  | allocated size address => "alloc " ++ toString size ++ " bytes at 0x" ++ Hex.upper address
  | allocationRejected size fault =>
    "allocation of " ++ toString size ++ " bytes rejected: " ++ fault.text
  | freed address => "free 0x" ++ Hex.upper address
  | invalidFree address => "invalid free of 0x" ++ Hex.upper address
  | throughNull operation pointer => operation.name ++ " through null " ++ pointer.text

/-- The line of the log for a record. -/
def line (e : Event) : String := e.level.text ++ " " ++ e.message

end Event

end CValues
