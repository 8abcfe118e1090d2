import CValues.Operator
import CValues.Value

/-!
# Expressions

Constant expressions: literals and character constants joined by casts, assignments, parentheses and
operators. An assignment is a conversion that is not written; a pair of parentheses is a node of its
own, so that the text of an expression shows the parentheses it was given.
-/

namespace CValues

/-- A constant expression. -/
inductive Expr where
  | literal (value : Value)
  | char (c : Char)
  | cast (type : CType) (operand : Expr)
  | assign (type : CType) (operand : Expr)
  | paren (inner : Expr)
  | unary (op : UnaryOp) (operand : Expr)
  | binary (op : BinaryOp) (left right : Expr)
  | compare (op : CompareOp) (left right : Expr)
  | logical (op : LogicalOp) (left right : Expr)
  deriving DecidableEq, Repr

namespace Expr

/-- An integer constant. -/
def int (x : Int) : Expr := literal (.plainInt x)

/-- The expression in some pairs of parentheses. -/
def parens : Nat → Expr → Expr
  | 0, e => e
  | depth + 1, e => paren (parens depth e)

/-- The two expressions have the same form and the same literals, where pointers to one address are
the same literal, whatever types they point to. -/
def same : Expr → Expr → Bool
  | literal v, literal w => v.same w
  | char c, char d => c == d
  | cast t e, cast u e' => t == u && e.same e'
  | assign t e, assign u e' => t == u && e.same e'
  | paren e, paren e' => e.same e'
  | unary op e, unary op' e' => op == op' && e.same e'
  | binary op l r, binary op' l' r' => op == op' && l.same l' && r.same r'
  | compare op l r, compare op' l' r' => op == op' && l.same l' && r.same r'
  | logical op l r, logical op' l' r' => op == op' && l.same l' && r.same r'
  | _, _ => false

end Expr

end CValues
