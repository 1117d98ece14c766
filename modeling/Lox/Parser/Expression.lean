import Lox.Parser.Cursor

/-!
# Reading expressions

The rules for expressions, from the loosest binding to the tightest:

* assignment, to the right: a variable or property, `=`, and an assignment;
* the six levels of infix operators, each to the left: `or`, `and`, equality, comparison, sums,
  products;
* the prefix operators `!` and `-`;
* calls and properties, behind a primary expression.

Every rule that nests an expression has passed a token before it does so. A rule is therefore given
the parser for nested expressions as an argument, and `expression n` reads what nests less than `n`
deep: a bound above the number of tokens ahead is never reached.
-/

set_option autoImplicit false

namespace Lox

/-- Operators between two operands. -/
inductive InfixOp where
  | logical (op : LogicalOp)
  | binary (op : BinaryOp)
  deriving DecidableEq, Repr

/-- The expression with an operator that stands on the given line. -/
def InfixOp.build (op : InfixOp) (left right : Expr) (line : Nat) : Expr :=
  match op with
  | .logical op => .logical left op right
  | .binary op => .binary left op right line

/-- The operators of one binding strength. -/
abbrev Level := Kind → Option InfixOp

namespace Level

/-- The operator `or`. -/
def disjunction : Level
  | .keyword .or => some (.logical .or)
  | _ => none

/-- The operator `and`. -/
def conjunction : Level
  | .keyword .and => some (.logical .and)
  | _ => none

/-- The operators `!=` and `==`. -/
def equality : Level
  | .punctuation .bangEqual => some (.binary .notEqual)
  | .punctuation .equalEqual => some (.binary .equal)
  | _ => none

/-- The operators `>`, `>=`, `<` and `<=`. -/
def comparison : Level
  | .punctuation .greater => some (.binary .greater)
  | .punctuation .greaterEqual => some (.binary .greaterEqual)
  | .punctuation .less => some (.binary .less)
  | .punctuation .lessEqual => some (.binary .lessEqual)
  | _ => none

/-- The operators `-` and `+`. -/
def sum : Level
  | .punctuation .minus => some (.binary .subtract)
  | .punctuation .plus => some (.binary .add)
  | _ => none

/-- The operators `/` and `*`. -/
def product : Level
  | .punctuation .star => some (.binary .multiply)
  | .punctuation .slash => some (.binary .divide)
  | _ => none

/-- All levels, the loosest first. -/
def all : List Level :=
  [disjunction, conjunction, equality, comparison, sum, product]

end Level

/-- The operator before an operand that a token stands for. -/
def UnaryOp.ofKind? : Kind → Option UnaryOp
  | .punctuation .bang => some .not
  | .punctuation .minus => some .negate
  | _ => none

/-- The most parameters or arguments that a list may hold. -/
def maxArity : Nat := 255

namespace Parser

/-- Takes the current token if `reading` gives it a meaning. -/
def acceptAs? {α : Type} (reading : Kind → Option α) : Parser (Option (α × Nat)) := fun c =>
  match if c.atEnd then none else reading c.current.kind with
  | some a => .ok (some (a, c.current.line)) c.moved
  | none => .ok none c

/-- The rest of a list of arguments, after the arguments `read` (the latest first). -/
def argumentsAfter (expr : Parser Expr) : Nat → List Expr → Parser (List Expr)
  | 0, read => return read.reverse
  | n + 1, read => do
    if maxArity ≤ read.length then
      fail .tooManyArguments
    else
      let argument ← expr
      if ← accept (.punctuation .comma) then
        argumentsAfter expr n (argument :: read)
      else
        return (argument :: read).reverse

/-- The arguments of a call, up to the closing parenthesis. -/
def arguments (expr : Parser Expr) (n : Nat) : Parser (List Expr) := do
  if ← isAt (.punctuation .rightParen) then
    return []
  else
    argumentsAfter expr n []

/-- A literal, a name or an expression in parentheses. -/
def primary (expr : Parser Expr) : Parser Expr := do
  let token ← peek
  match token.kind with
  | .number value => advance; return .literal (.number value)
  | .string value => advance; return .literal (.string value)
  | _ =>
  if ← atEnd then
    fail (.expected "expression")
  else
    match token.kind with
    | .keyword .false => advance; return .literal (.bool false)
    | .keyword .true => advance; return .literal (.bool true)
    | .keyword .nil => advance; return .literal .nil
    | .keyword .this =>
      advance
      return .this (← freshId) token.line
    | .keyword .super =>
      advance
      let _ ← expect (.punctuation .dot) "'.' after 'super'"
      let method ← name "superclass method name"
      return .super (← freshId) token.line method
    | .identifier =>
      advance
      return .variable (← freshId) ⟨token.lexeme, token.line⟩
    | .punctuation .leftParen =>
      advance
      let inner ← expr
      let _ ← expect (.punctuation .rightParen) "')' after expression"
      return .grouping inner
    | _ => fail (.expected "expression")

/-- The calls and properties behind an expression. -/
def suffixes (expr : Parser Expr) : Nat → Expr → Parser Expr
  | 0, left => return left
  | n + 1, left => do
    if ← accept (.punctuation .leftParen) then
      let values ← arguments expr n
      let close ← expect (.punctuation .rightParen) "')' after arguments"
      suffixes expr n (.call left values close.line)
    else if ← accept (.punctuation .dot) then
      let property ← name "property name after '.'"
      suffixes expr n (.get left property)
    else
      return left

/-- The operators before an operand, after those `read` (the latest first). -/
def signs : Nat → List (UnaryOp × Nat) → Parser (List (UnaryOp × Nat))
  | 0, read => return read
  | n + 1, read => do
    match ← acceptAs? UnaryOp.ofKind? with
    | some sign => signs n (sign :: read)
    | none => return read

/-- An operand with the operators before it; the last of these is applied first. -/
def unary (expr : Parser Expr) (n : Nat) : Parser Expr := do
  let operators ← signs n []
  let operand ← primary expr
  let operand ← suffixes expr n operand
  return operators.foldl (fun right (op, line) => .unary op right line) operand

/-- The operators of one level behind an operand, with the operands that follow them. -/
def chain (level : Level) (operand : Parser Expr) : Nat → Expr → Parser Expr
  | 0, left => return left
  | n + 1, left => do
    match ← acceptAs? level with
    | some (op, line) =>
      let right ← operand
      chain level operand n (op.build left right line)
    | none => return left

/-- The levels of infix operators. -/
def levels (expr : Parser Expr) (n : Nat) : List Level → Parser Expr
  | [] => unary expr n
  | level :: tighter => do
    let left ← levels expr n tighter
    chain level (levels expr n tighter) n left

/-- What an expression before `=` becomes: a variable or a property is assigned to. -/
def assigned? (target value : Expr) : Option Expr :=
  match target with
  | .variable id name => some (.assign id name value)
  | .get object name => some (.set object name value)
  | _ => none

/-- An assignment, or an expression without one. -/
def assignment (expr : Parser Expr) (n : Nat) : Parser Expr := do
  let target ← levels expr n Level.all
  match ← accept? (.punctuation .equal) with
  | none => return target
  | some equals =>
    let value ← expr
    match assigned? target value with
    | some e => return e
    | none => throw ⟨.assignmentTarget, equals.line⟩

/-- An expression that nests less than the given bound. -/
def expression : Nat → Parser Expr
  | 0 => fail (.expected "expression")
  | n + 1 => assignment (expression n) n

end Parser

end Lox
