/-!
# Syntax trees

Expressions, statements and function declarations. Every use of a variable carries an id of its own,
by which the static analysis says where the variable lives. A `for` loop is not a tree of its own:
it is written with blocks and `while`.
-/

set_option autoImplicit false

namespace Lox

/-- The number of a use of a variable. -/
abbrev NodeId := Nat

/-- The name of the method that runs when a class is called. -/
def initializerName : String := "init"

/-- An identifier and the line on which it stands. -/
structure Name where
  lexeme : String
  line : Nat
  deriving DecidableEq, Repr

/-- A constant of the source. -/
inductive Literal where
  | nil
  | bool (value : Bool)
  | number (value : Float)
  | string (value : String)

/-- Operators before their operand. -/
inductive UnaryOp where
  | negate
  | not
  deriving DecidableEq, Repr

/-- Operators that evaluate both operands. -/
inductive BinaryOp where
  | add
  | subtract
  | multiply
  | divide
  | equal
  | notEqual
  | less
  | lessEqual
  | greater
  | greaterEqual
  deriving DecidableEq, Repr

/-- Operators that may leave their right operand unevaluated. -/
inductive LogicalOp where
  | and
  | or
  deriving DecidableEq, Repr

/-- How an operator is written. -/
def UnaryOp.symbol : UnaryOp → String
  | .negate => "-"
  | .not => "!"

/-- How an operator is written. -/
def BinaryOp.symbol : BinaryOp → String
  | .add => "+"
  | .subtract => "-"
  | .multiply => "*"
  | .divide => "/"
  | .equal => "=="
  | .notEqual => "!="
  | .less => "<"
  | .lessEqual => "<="
  | .greater => ">"
  | .greaterEqual => ">="

/-- How an operator is written. -/
def LogicalOp.symbol : LogicalOp → String
  | .and => "and"
  | .or => "or"

/-- Expressions. A line is that of the operator, the closing parenthesis of the arguments, or the
word itself. -/
inductive Expr where
  | literal (value : Literal)
  | grouping (inner : Expr)
  | unary (op : UnaryOp) (right : Expr) (line : Nat)
  | binary (left : Expr) (op : BinaryOp) (right : Expr) (line : Nat)
  | logical (left : Expr) (op : LogicalOp) (right : Expr)
  | variable (id : NodeId) (name : Name)
  | assign (id : NodeId) (name : Name) (value : Expr)
  | call (callee : Expr) (arguments : List Expr) (line : Nat)
  | get (object : Expr) (name : Name)
  | set (object : Expr) (name : Name) (value : Expr)
  | this (id : NodeId) (line : Nat)
  | super (id : NodeId) (line : Nat) (method : Name)

/-- The line that stands for an expression in messages; a literal has none. -/
def Expr.line : Expr → Nat
  | .literal _ => 0
  | .grouping inner => inner.line
  | .logical left _ _ => left.line
  | .unary _ _ line | .binary _ _ _ line | .call _ _ line | .this _ line | .super _ line _ => line
  | .variable _ name | .assign _ name _ | .get _ name | .set _ name _ => name.line

/-- The name of a superclass in the head of a class, a use of a variable. -/
structure Superclass where
  id : NodeId
  name : Name
  deriving DecidableEq, Repr

mutual

/-- Statements, declarations included. -/
inductive Stmt where
  | expression (e : Expr)
  | print (e : Expr)
  | var (name : Name) (initializer : Option Expr)
  | block (body : List Stmt)
  | if (condition : Expr) (thenBranch : Stmt) (elseBranch : Option Stmt)
  | while (condition : Expr) (body : Stmt)
  | function (declaration : FunctionDecl)
  | return (line : Nat) (value : Option Expr)
  | «class» (name : Name) (superclass : Option Superclass) (methods : List FunctionDecl)

/-- A function or method: its name, its parameters and its body. -/
inductive FunctionDecl where
  | mk (name : Name) (params : List Name) (body : List Stmt)

end

namespace FunctionDecl

/-- The name under which a function is declared. -/
def name : FunctionDecl → Name
  | mk name _ _ => name

/-- The parameters of a function, in order. -/
def params : FunctionDecl → List Name
  | mk _ params _ => params

/-- The statements of a function. -/
def body : FunctionDecl → List Stmt
  | mk _ _ body => body

end FunctionDecl

end Lox
