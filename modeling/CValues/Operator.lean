/-!
# Operators

The operators of C expressions, and the names under which operations appear in messages. An operator
is named by its symbol, except that unary plus and minus say that they are unary.
-/

namespace CValues

/-- The operators on two numbers, some of which also take pointers. -/
inductive BinaryOp where
  | add
  | sub
  | mul
  | div
  | rem
  | and
  | or
  | xor
  | shl
  | shr
  deriving DecidableEq, Repr

/-- The operators that compare. -/
inductive CompareOp where
  | eq
  | ne
  | lt
  | le
  | gt
  | ge
  deriving DecidableEq, Repr

/-- The operators on one operand. -/
inductive UnaryOp where
  | plus
  | neg
  | complement
  | not
  deriving DecidableEq, Repr

/-- The operators on truth values. -/
inductive LogicalOp where
  | and
  | or
  deriving DecidableEq, Repr

namespace BinaryOp

/-- How the operator is written. -/
def symbol : BinaryOp → String
  | add => "+"
  | sub => "-"
  | mul => "*"
  | div => "/"
  | rem => "%"
  | and => "&"
  | or => "|"
  | xor => "^"
  | shl => "<<"
  | shr => ">>"

/-- The operator has no meaning on floating numbers. -/
def isIntegerOnly : BinaryOp → Bool
  | rem | and | or | xor | shl | shr => true
  | add | sub | mul | div => false

/-- The operator moves bits by a count and converts its operands apart. -/
def isShift : BinaryOp → Bool
  | shl | shr => true
  | _ => false

end BinaryOp

namespace CompareOp

/-- How the operator is written. -/
def symbol : CompareOp → String
  | eq => "=="
  | ne => "!="
  | lt => "<"
  | le => "<="
  | gt => ">"
  | ge => ">="

/-- The comparison holds of operands in this order. Operands without an order, one of which is no
number, are only unequal. -/
def holds : CompareOp → Option Ordering → Bool
  | eq, o => o == some .eq
  | ne, o => o != some .eq
  | lt, o => o == some .lt
  | le, o => o == some .lt || o == some .eq
  | gt, o => o == some .gt
  | ge, o => o == some .gt || o == some .eq

/-- The operator asks for equality and not for an order. -/
def isEquality : CompareOp → Bool
  | eq | ne => true
  | _ => false

end CompareOp

namespace UnaryOp

/-- How the operator is written. -/
def symbol : UnaryOp → String
  | plus => "+"
  | neg => "-"
  | complement => "~"
  | not => "!"

end UnaryOp

namespace LogicalOp

/-- How the operator is written. -/
def symbol : LogicalOp → String
  | and => "&&"
  | or => "||"

/-- A left operand with this truth value settles the outcome. -/
def decidedBy : LogicalOp → Bool → Bool
  | and, truth => !truth
  | or, truth => truth

/-- The outcome for two truth values. -/
def combine : LogicalOp → Bool → Bool → Bool
  | and, a, b => a && b
  | or, a, b => a || b

end LogicalOp

/-- What a message says could not be done. -/
inductive Operation where
  | construct
  | load
  | store
  | calloc
  | free
  | addressOf
  | array
  | usualConversions
  | binary (op : BinaryOp)
  | compare (op : CompareOp)
  | unary (op : UnaryOp)
  | logical (op : LogicalOp)
  deriving DecidableEq, Repr

namespace Operation

/-- The name of the operation in a message. -/
def name : Operation → String
  | construct => "value construction"
  | load => "load"
  | store => "store"
  | calloc => "calloc"
  | free => "free"
  | addressOf => "address of"
  | array => "array"
  | usualConversions => "usual arithmetic conversions"
  | binary op => op.symbol
  | compare op => op.symbol
  | unary .plus => "unary +"
  | unary .neg => "unary -"
  | unary op => op.symbol
  | logical op => op.symbol

end Operation

end CValues
