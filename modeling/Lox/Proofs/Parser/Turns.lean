import Lox.Proofs.Parser.Bounds

/-!
# Rules with another bottom

Where a bound is used up a rule does something or other, and its definition has to say what. Here the
rules are given with any parser in that place: `turns` for the loops, one turn of each of which is a
function of what is done in the turns that are left, and `expressionFrom`, `statementFrom` and
`declarationFrom` for the rules that nest in themselves. What is the same for all of these bottoms
has not come to any of them.
-/

set_option autoImplicit false

namespace Lox.Parser

variable {σ α : Type}

/-! ## Loops -/

/-- A loop of at most so many turns, which does `last` where they are used up. A turn is given the
number of turns that are left and what is done in them. -/
def turns (turn : Nat → (σ → Parser α) → σ → Parser α) (last : σ → Parser α) : Nat → σ → Parser α
  | 0 => last
  | n + 1 => turn n (turns turn last n)

/-- One more item of a list with commas between them. -/
def itemsTurn (many : SyntaxError.Cause) (item : Parser α) (_ : Nat)
    (again : List α → Parser (List α)) (read : List α) : Parser (List α) := do
  if maxArity ≤ read.length then
    fail many
  else
    let a ← item
    if ← accept (.punctuation .comma) then
      again (a :: read)
    else
      return (a :: read).reverse

/-- One more call or property. -/
def suffixesTurn (expr : Parser Expr) (n : Nat) (again : Expr → Parser Expr) (left : Expr) :
    Parser Expr := do
  if ← accept (.punctuation .leftParen) then
    let values ← arguments expr n
    let close ← expect (.punctuation .rightParen) "')' after arguments"
    again (.call left values close.line)
  else if ← accept (.punctuation .dot) then
    let property ← name "property name after '.'"
    again (.get left property)
  else
    return left

/-- One more operator before an operand. -/
def signsTurn (_ : Nat) (again : List (UnaryOp × Nat) → Parser (List (UnaryOp × Nat)))
    (read : List (UnaryOp × Nat)) : Parser (List (UnaryOp × Nat)) := do
  match ← acceptAs? UnaryOp.ofKind? with
  | some sign => again (sign :: read)
  | none => return read

/-- One more operator of a level, with its right operand. -/
def chainTurn (level : Level) (operand : Parser Expr) (_ : Nat) (again : Expr → Parser Expr)
    (left : Expr) : Parser Expr := do
  match ← acceptAs? level with
  | some (op, line) =>
    let right ← operand
    again (op.build left right line)
  | none => return left

/-- One more declaration of a block. -/
def blockTurn (decl : Parser Stmt) (_ : Nat) (again : List Stmt → Parser (List Stmt))
    (read : List Stmt) : Parser (List Stmt) := do
  if (← isAt (.punctuation .rightBrace)) || (← atEnd) then
    let _ ← expect (.punctuation .rightBrace) "'\x7d' after block"
    return read.reverse
  else
    let stmt ← decl
    again (stmt :: read)

/-- One more method. -/
def methodsTurn (decl : Parser Stmt) (n : Nat) (again : List FunctionDecl → Parser (List FunctionDecl))
    (read : List FunctionDecl) : Parser (List FunctionDecl) := do
  if (← isAt (.punctuation .rightBrace)) || (← atEnd) then
    return read.reverse
  else
    let method ← function decl n "method"
    again (method :: read)

/-- What is defined turn by turn is a loop. -/
theorem eq_turns {loop : Nat → σ → Parser α} {turn : Nat → (σ → Parser α) → σ → Parser α}
    (step : ∀ n, loop (n + 1) = turn n (loop n)) (n : Nat) : loop n = turns turn (loop 0) n := by
  induction n with
  | zero => rfl
  | succ n ih => rw [step, ih, turns]

theorem argumentsAfter_turns (expr : Parser Expr) (n : Nat) :
    argumentsAfter expr n
      = turns (itemsTurn .tooManyArguments expr) (argumentsAfter expr 0) n :=
  eq_turns (fun _ => rfl) n

theorem parametersAfter_turns (n : Nat) :
    parametersAfter n
      = turns (itemsTurn .tooManyParameters (name "parameter name")) (parametersAfter 0) n :=
  eq_turns (fun _ => rfl) n

theorem suffixes_turns (expr : Parser Expr) (n : Nat) :
    suffixes expr n = turns (suffixesTurn expr) (suffixes expr 0) n :=
  eq_turns (fun _ => rfl) n

theorem signs_turns (n : Nat) : signs n = turns signsTurn (signs 0) n :=
  eq_turns (fun _ => rfl) n

theorem chain_turns (level : Level) (operand : Parser Expr) (n : Nat) :
    chain level operand n = turns (chainTurn level operand) (chain level operand 0) n :=
  eq_turns (fun _ => rfl) n

theorem blockAfter_turns (decl : Parser Stmt) (n : Nat) :
    blockAfter decl n = turns (blockTurn decl) (blockAfter decl 0) n :=
  eq_turns (fun _ => rfl) n

theorem methodsAfter_turns (decl : Parser Stmt) (n : Nat) :
    methodsAfter decl n = turns (methodsTurn decl) (methodsAfter decl 0) n :=
  eq_turns (fun _ => rfl) n

/-! ## Rules that nest in themselves -/

/-- The rule for expressions, with any parser where its bound is used up. -/
def expressionFrom (p : Parser Expr) : Nat → Parser Expr
  | 0 => p
  | n + 1 => assignment (expressionFrom p n) n

mutual

/-- The rule for statements, with any parsers where the bound is used up. -/
def statementFrom (s d : Parser Stmt) : Nat → Parser Stmt
  | 0 => s
  | n + 1 => statementOf (declarationFrom s d n) (statementFrom s d n) n

/-- The rule for declarations, with any parsers where the bound is used up. -/
def declarationFrom (s d : Parser Stmt) : Nat → Parser Stmt
  | 0 => d
  | n + 1 => declarationOf (declarationFrom s d n) (statementFrom s d n) n

end

theorem expression_from (n : Nat) : expression n = expressionFrom (expression 0) n := by
  induction n with
  | zero => rfl
  | succ n ih => rw [expressionFrom, ← ih, expression]

theorem statement_declaration_from (n : Nat) :
    statement n = statementFrom (statement 0) (declaration 0) n ∧
      declaration n = declarationFrom (statement 0) (declaration 0) n := by
  induction n with
  | zero => exact ⟨rfl, rfl⟩
  | succ n ih =>
    rw [statementFrom, declarationFrom, ← ih.1, ← ih.2, statement, declaration]
    exact ⟨rfl, rfl⟩

/-- The loop over the declarations of a program, with anything where its turns are used up. -/
def declarationsFrom
    (last : List Stmt → List SyntaxError → Cursor → List Stmt × List SyntaxError × Cursor)
    (bound : Nat) :
    Nat → List Stmt → List SyntaxError → Cursor → List Stmt × List SyntaxError × Cursor
  | 0, read, faults, c => last read faults c
  | n + 1, read, faults, c =>
    if c.atEnd then (read.reverse, faults.reverse, c)
    else
      match declaration bound c with
      | .ok stmt c' => declarationsFrom last bound n (stmt :: read) faults c'
      | .error fault c' => declarationsFrom last bound n read (fault :: faults) c'

end Lox.Parser
