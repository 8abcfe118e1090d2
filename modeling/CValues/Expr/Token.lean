import CValues.Expr
import CValues.Value.Text

/-!
# The text of an expression

An expression is written as a row of tokens, and its text is the texts of the tokens in a row. An
operand is put in parentheses only where it would otherwise be read with another operator:
`Expr.level` says how tightly an expression holds together, and an operand may not hold together
less tightly than its place demands. Binary operators group from the left, so the place on the right
demands one level more.

Parentheses that are nodes of the expression are always written. An assignment is not written at
all.
-/

namespace CValues

/-- A character of a character constant as it is written between the quotes. -/
def escapeChar (c : Char) : String :=
  match c with
  | '\t' => "\\t"
  | '\r' => "\\r"
  | '\n' => "\\n"
  | '\'' => "\\'"
  | '"' => "\\\""
  | '\\' => "\\\\"
  | c =>
    if 0x20 ≤ c.toNat && c.toNat ≤ 0x7E then c.toString
    else "\\u\x7b" ++ Hex.lower c.toNat ++ "\x7d"

/-- A token of an expression. -/
inductive Token where
  | literal (value : Value)
  | char (c : Char)
  | cast (type : CType)
  | unary (op : UnaryOp)
  | binary (op : BinaryOp)
  | compare (op : CompareOp)
  | logical (op : LogicalOp)
  | lparen
  | rparen
  deriving DecidableEq, Repr

namespace Token

/-- The token in letters. An operator between two operands brings the spaces around it. -/
def text : Token → String
  | literal v => v.text
  | char c => "'" ++ escapeChar c ++ "'"
  | cast t => "(" ++ t.text ++ ")"
  | unary op => op.symbol
  | binary op => " " ++ op.symbol ++ " "
  | compare op => " " ++ op.symbol ++ " "
  | logical op => " " ++ op.symbol ++ " "
  | lparen => "("
  | rparen => ")"

end Token

/-! ## Levels -/

/-- How tightly a binary operator holds its operands. -/
def BinaryOp.level : BinaryOp → Nat
  | or => 3
  | xor => 4
  | and => 5
  | shl | shr => 8
  | add | sub => 9
  | mul | div | rem => 10

/-- How tightly a comparison holds its operands. -/
def CompareOp.level : CompareOp → Nat
  | eq | ne => 6
  | lt | le | gt | ge => 7

/-- How tightly a logical operator holds its operands. -/
def LogicalOp.level : LogicalOp → Nat
  | or => 1
  | and => 2

namespace Expr

/-- The level of casts and unary operators. -/
def unaryLevel : Nat := 11

/-- The level of what cannot be taken apart. -/
def primaryLevel : Nat := 12

/-- How tightly an expression holds together. -/
def level : Expr → Nat
  | literal _ | char _ | paren _ => primaryLevel
  | cast _ _ | unary _ _ => unaryLevel
  | assign _ e => e.level
  | binary op _ _ => op.level
  | compare op _ _ => op.level
  | logical op _ _ => op.level

/-! ## Tokens -/

/-- The tokens in a pair of parentheses. -/
def enclose (tokens : List Token) : List Token := .lparen :: (tokens ++ [.rparen])

/-- The tokens of an operand of some level in a place that demands a level. -/
def place (level demanded : Nat) (tokens : List Token) : List Token :=
  if level < demanded then enclose tokens else tokens

/-- The tokens of an expression. -/
def tokens : Expr → List Token
  | literal v => [.literal v]
  | char c => [.char c]
  | cast t e => .cast t :: place e.level unaryLevel e.tokens
  | assign _ e => e.tokens
  | paren e => enclose e.tokens
  | unary op e => .unary op :: place e.level unaryLevel e.tokens
  | binary op l r =>
    place l.level op.level l.tokens ++ .binary op :: place r.level (op.level + 1) r.tokens
  | compare op l r =>
    place l.level op.level l.tokens ++ .compare op :: place r.level (op.level + 1) r.tokens
  | logical op l r =>
    place l.level op.level l.tokens ++ .logical op :: place r.level (op.level + 1) r.tokens

/-- The text of an expression. -/
def text (e : Expr) : String := String.join (e.tokens.map Token.text)

end Expr

end CValues
