import Lox.Syntax
import Lox.Number

/-!
# Expressions in prefix form

An expression as nested parentheses, each with its operator first. Ids and lines are left out, and
strings stand without quotes.
-/

set_option autoImplicit false

namespace Lox

/-- A constant as it stands in a tree. -/
def Literal.inTree : Literal → String
  | .nil => "nil"
  | .bool true => "true"
  | .bool false => "false"
  | .number value => Number.inTree value
  | .string value => value

namespace Expr

/-- A head and its parts between parentheses. -/
def form (head : String) (parts : List String) : String :=
  "(" ++ head ++ String.join (parts.map (" " ++ ·)) ++ ")"

mutual

/-- The prefix form of an expression. -/
def inTree : Expr → String
  | .literal value => value.inTree
  | .grouping inner => form "group" [inner.inTree]
  | .unary op right _ => form op.symbol [right.inTree]
  | .binary left op right _ => form op.symbol [left.inTree, right.inTree]
  | .logical left op right => form op.symbol [left.inTree, right.inTree]
  | .variable _ name => name.lexeme
  | .assign _ name value => form "=" [name.lexeme, value.inTree]
  | .call callee arguments _ => form "call" (callee.inTree :: inTreeAll arguments)
  | .get object name => form "." [object.inTree, name.lexeme]
  | .set object name value => form "=" [form "." [object.inTree, name.lexeme], value.inTree]
  | .this _ _ => "this"
  | .super _ _ method => form "super" [method.lexeme]

/-- The prefix forms of a list of expressions. -/
def inTreeAll : List Expr → List String
  | [] => []
  | e :: es => e.inTree :: inTreeAll es

end

end Expr

end Lox
