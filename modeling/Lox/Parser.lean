import Lox.Parser.Statement

/-!
# Parsing

A list of tokens is read as a program or as one expression. A program is read to its end whatever
its faults, so that all of them are reported. Either way the ids that were given out stay used.
-/

set_option autoImplicit false

namespace Lox

/-- What parsing gives: a tree or the faults found, and the first id not yet used. -/
structure Parsed (ε α : Type) where
  outcome : Except ε α
  nextId : NodeId

namespace Parser

/-- The cursor at the start of a list of tokens. -/
def start (first : Token) (rest : List Token) (firstId : NodeId) : Cursor :=
  ⟨first, rest, firstId⟩

/-- The declarations up to the end and the faults among them, after those read so far (the latest
first). Each turn passes a token, so the last bound is never reached. -/
def declarations (bound : Nat) : Nat → List Stmt → List SyntaxError → Cursor →
    List Stmt × List SyntaxError × Cursor
  | 0, read, faults, c => (read.reverse, faults.reverse, c)
  | n + 1, read, faults, c =>
    if c.atEnd then (read.reverse, faults.reverse, c)
    else
      match declaration bound c with
      | .ok stmt c' => declarations bound n (stmt :: read) faults c'
      | .error fault c' => declarations bound n read (fault :: faults) c'

/-- Reads a program. -/
def parse (tokens : List Token) (firstId : NodeId) : Parsed (List SyntaxError) (List Stmt) :=
  match tokens with
  | [] => ⟨.ok [], firstId⟩
  | first :: rest =>
    let bound := tokens.length
    let (program, faults, c) := declarations bound bound [] [] (start first rest firstId)
    ⟨if faults.isEmpty then .ok program else .error faults, c.nextId % idCount⟩

/-- Refuses anything after an expression. -/
def wholeExpression (n : Nat) : Parser Expr := do
  let e ← expression n
  if ← atEnd then
    return e
  else
    let token ← peek
    fail (.afterExpression token.lexeme)

/-- Reads one expression. -/
def parseExpression (tokens : List Token) (firstId : NodeId) : Parsed SyntaxError Expr :=
  match tokens with
  | [] => ⟨.error ⟨.expected "expression", 1⟩, firstId⟩
  | first :: rest =>
    match wholeExpression tokens.length (start first rest firstId) with
    | .ok e c => ⟨.ok e, c.nextId % idCount⟩
    | .error fault c => ⟨.error fault, c.nextId % idCount⟩

end Parser

end Lox
