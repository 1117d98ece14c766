import Lox.Parser.Expression

/-!
# Reading statements

The rules for declarations and statements. Like the rules for expressions they are given the parsers
for what nests in them, and `declaration n` and `statement n` read what nests less than `n` deep.

A declaration that fails leaves the cursor at a statement boundary, and so does each declaration
around it in turn.
-/

set_option autoImplicit false

namespace Lox.Parser

/-- The declarations of a block after its opening brace, after those `read` (the latest first). -/
def blockAfter (decl : Parser Stmt) : Nat → List Stmt → Parser (List Stmt)
  | 0, read => do
    let _ ← expect (.punctuation .rightBrace) "'\x7d' after block"
    return read.reverse
  | n + 1, read => do
    if (← isAt (.punctuation .rightBrace)) || (← atEnd) then
      let _ ← expect (.punctuation .rightBrace) "'\x7d' after block"
      return read.reverse
    else
      let stmt ← decl
      blockAfter decl n (stmt :: read)

/-- The declarations of a block after its opening brace. -/
def block (decl : Parser Stmt) (n : Nat) : Parser (List Stmt) :=
  blockAfter decl n []

/-- The rest of a list of parameters, after those `read` (the latest first). -/
def parametersAfter : Nat → List Name → Parser (List Name)
  | 0, read => return read.reverse
  | n + 1, read => do
    if maxArity ≤ read.length then
      fail .tooManyParameters
    else
      let param ← name "parameter name"
      if ← accept (.punctuation .comma) then
        parametersAfter n (param :: read)
      else
        return (param :: read).reverse

/-- The parameters of a function, up to the closing parenthesis. -/
def parameters (n : Nat) : Parser (List Name) := do
  if ← isAt (.punctuation .rightParen) then
    return []
  else
    parametersAfter n []

/-- A function after its keyword, or a method; `what` says which in messages. -/
def function (decl : Parser Stmt) (n : Nat) (what : String) : Parser FunctionDecl := do
  let name ← name (what ++ " name")
  let _ ← expect (.punctuation .leftParen) ("'(' after " ++ what ++ " name")
  let params ← parameters n
  let _ ← expect (.punctuation .rightParen) "')' after parameters"
  let _ ← expect (.punctuation .leftBrace) ("'\x7b' before " ++ what ++ " body")
  let body ← block decl n
  return .mk name params body

/-- The methods of a class up to its closing brace, after those `read` (the latest first). -/
def methodsAfter (decl : Parser Stmt) : Nat → List FunctionDecl → Parser (List FunctionDecl)
  | 0, read => return read.reverse
  | n + 1, read => do
    if (← isAt (.punctuation .rightBrace)) || (← atEnd) then
      return read.reverse
    else
      let method ← function decl n "method"
      methodsAfter decl n (method :: read)

/-- The superclass in the head of a class. -/
def superclass? : Parser (Option Superclass) := do
  if ← accept (.punctuation .less) then
    let name ← name "superclass name"
    return some ⟨← freshId, name⟩
  else
    return none

/-- A class after its keyword. -/
def classDeclaration (decl : Parser Stmt) (n : Nat) : Parser Stmt := do
  let name ← name "class name"
  let parent ← superclass?
  let _ ← expect (.punctuation .leftBrace) "'\x7b' before class body"
  let methods ← methodsAfter decl n []
  let _ ← expect (.punctuation .rightBrace) "'\x7d' after class body"
  return .class name parent methods

/-- An expression, if an equals sign is ahead of it. -/
def initializer? (expr : Parser Expr) : Parser (Option Expr) := do
  if ← accept (.punctuation .equal) then
    return some (← expr)
  else
    return none

/-- A variable declaration after its keyword. -/
def varDeclaration (expr : Parser Expr) : Parser Stmt := do
  let name ← name "variable name"
  let value ← initializer? expr
  let _ ← expect (.punctuation .semicolon) "';' after variable declaration"
  return .var name value

/-- An expression as a statement. -/
def expressionStatement (expr : Parser Expr) : Parser Stmt := do
  let e ← expr
  let _ ← expect (.punctuation .semicolon) "';' after expression"
  return .expression e

/-- A print statement after its keyword. -/
def printStatement (expr : Parser Expr) : Parser Stmt := do
  let e ← expr
  let _ ← expect (.punctuation .semicolon) "';' after value"
  return .print e

/-- An expression, unless the token that closes its place is ahead. -/
def optional (close : Punctuation) (expr : Parser Expr) : Parser (Option Expr) := do
  if ← isAt (.punctuation close) then
    return none
  else
    return some (← expr)

/-- A return statement after its keyword, which stands on `line`. -/
def returnStatement (expr : Parser Expr) (line : Nat) : Parser Stmt := do
  let value ← optional .semicolon expr
  let _ ← expect (.punctuation .semicolon) "';' after return value"
  return .return line value

/-- An if statement after its keyword; `else` belongs to the nearest one. -/
def ifStatement (expr : Parser Expr) (stmt : Parser Stmt) : Parser Stmt := do
  let _ ← expect (.punctuation .leftParen) "'(' after 'if'"
  let condition ← expr
  let _ ← expect (.punctuation .rightParen) "')' after condition"
  let thenBranch ← stmt
  if ← accept (.keyword .else) then
    return .if condition thenBranch (some (← stmt))
  else
    return .if condition thenBranch none

/-- A while statement after its keyword. -/
def whileStatement (expr : Parser Expr) (stmt : Parser Stmt) : Parser Stmt := do
  let _ ← expect (.punctuation .leftParen) "'(' after 'while'"
  let condition ← expr
  let _ ← expect (.punctuation .rightParen) "')' after condition"
  return .while condition (← stmt)

/-- The first clause of a for statement, with its semicolon. -/
def forInitializer (expr : Parser Expr) : Parser (Option Stmt) := do
  if ← accept (.punctuation .semicolon) then
    return none
  else if ← accept (.keyword .var) then
    return some (← varDeclaration expr)
  else
    return some (← expressionStatement expr)

/-- A for statement in terms of blocks and `while`: the increment runs after the body, and the
initializer before the loop, in a scope around it. A missing condition is true. -/
def forLoop (initializer : Option Stmt) (condition increment : Option Expr) (body : Stmt) : Stmt :=
  let body :=
    match increment with
    | some e => .block [body, .expression e]
    | none => body
  let loop := .while (condition.getD (.literal (.bool true))) body
  match initializer with
  | some first => .block [first, loop]
  | none => loop

/-- A for statement after its keyword. -/
def forStatement (expr : Parser Expr) (stmt : Parser Stmt) : Parser Stmt := do
  let _ ← expect (.punctuation .leftParen) "'(' after 'for'"
  let initializer ← forInitializer expr
  let condition ← optional .semicolon expr
  let _ ← expect (.punctuation .semicolon) "';' after loop condition"
  let increment ← optional .rightParen expr
  let _ ← expect (.punctuation .rightParen) "')' after for clauses"
  return forLoop initializer condition increment (← stmt)

/-- A statement, given the parsers for the declarations and statements in it. -/
def statementOf (decl stmt : Parser Stmt) (n : Nat) : Parser Stmt := do
  let line := (← peek).line
  if ← accept (.keyword .for) then
    forStatement (expression n) stmt
  else if ← accept (.keyword .if) then
    ifStatement (expression n) stmt
  else if ← accept (.keyword .while) then
    whileStatement (expression n) stmt
  else if ← accept (.keyword .return) then
    returnStatement (expression n) line
  else if ← accept (.punctuation .leftBrace) then
    return .block (← block decl n)
  else if ← accept (.keyword .print) then
    printStatement (expression n)
  else
    expressionStatement (expression (n + 1))

/-- A declaration, given the parsers for the declarations and statements in it. -/
def declarationOf (decl stmt : Parser Stmt) (n : Nat) : Parser Stmt :=
  recovering do
    if ← accept (.keyword .class) then
      classDeclaration decl n
    else if ← accept (.keyword .fun) then
      return .function (← function decl n "function")
    else if ← accept (.keyword .var) then
      varDeclaration (expression n)
    else
      statementOf decl stmt n

mutual

/-- A statement that nests less than the given bound. -/
def statement : Nat → Parser Stmt
  | 0 => fail (.expected "expression")
  | n + 1 => statementOf (declaration n) (statement n) n

/-- A declaration that nests less than the given bound. -/
def declaration : Nat → Parser Stmt
  | 0 => recovering (fail (.expected "expression"))
  | n + 1 => declarationOf (declaration n) (statement n) n

end

end Lox.Parser
