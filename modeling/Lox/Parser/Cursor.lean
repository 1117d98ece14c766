import Lox.Token
import Lox.Syntax
import Lox.Diagnostic

/-!
# The parser's place in the tokens

A parser reads tokens from a cursor and either returns a result or stops at a fault; in both cases
it leaves the cursor where it came to. The last token of the input is never passed: usually it is
the end-of-input token, and in a list that lacks one the last token stands for it, so that every
move of the cursor makes the list of tokens still ahead shorter.
-/

set_option autoImplicit false

namespace Lox

/-- Why tokens are refused. -/
inductive SyntaxError.Cause where
  | expected (what : String)
  | afterExpression (lexeme : String)
  | tooManyParameters
  | tooManyArguments
  | assignmentTarget
  deriving DecidableEq, Repr

/-- A fault of the grammar of a source, at the line of a token. -/
structure SyntaxError where
  cause : SyntaxError.Cause
  line : Nat
  deriving DecidableEq, Repr

namespace SyntaxError

/-- The wording of a cause. -/
def Cause.message : Cause → String
  | .expected what => "Expected " ++ what
  | .afterExpression lexeme => "Unexpected '" ++ lexeme ++ "' after expression"
  | .tooManyParameters => "Can't have more than 255 parameters"
  | .tooManyArguments => "Can't have more than 255 arguments"
  | .assignmentTarget => "Invalid assignment target"

/-- The fault as it is reported. -/
def diagnostic (e : SyntaxError) : Diagnostic :=
  ⟨.syntactic, e.line, e.cause.message⟩

end SyntaxError

/-- A place in a list of tokens, and the number of ids given out so far. -/
structure Cursor where
  current : Token
  /-- The tokens after the current one. -/
  rest : List Token
  nextId : Nat

namespace Cursor

/-- Whether the cursor stands at the end of the input or on the last token. -/
def atEnd (c : Cursor) : Bool :=
  c.current.kind.agrees .eof || c.rest.isEmpty

/-- Whether the current token is of a kind. At the end it is of none. -/
def isAt (c : Cursor) (kind : Kind) : Bool :=
  !c.atEnd && c.current.kind.agrees kind

/-- The cursor one token further, or the same at the end. -/
def moved (c : Cursor) : Cursor :=
  if c.current.kind.agrees .eof then c
  else
    match c.rest with
    | [] => c
    | next :: rest => { c with current := next, rest := rest }

/-- Whether a token is the first of a statement that begins with a keyword. -/
def beginsStatement : Kind → Bool
  | .keyword .class | .keyword .fun | .keyword .var | .keyword .for | .keyword .if
  | .keyword .while | .keyword .print | .keyword .return => true
  | _ => false

/-- Moves on from the token `current`, which follows `previous`, to the token after a semicolon or
to one that begins a statement. -/
def resume (previous current : Token) : List Token → Token × List Token
  | [] => (current, [])
  | next :: rest =>
    if current.kind.agrees .eof || previous.kind.agrees (.punctuation .semicolon)
        || beginsStatement current.kind then
      (current, next :: rest)
    else
      resume current next rest

/-- Where parsing goes on after a fault: at least one token further, at a statement boundary. -/
def synchronized (c : Cursor) : Cursor :=
  if c.atEnd then c
  else
    let next := c.moved
    let (current, rest) := resume c.current next.current next.rest
    { c with current := current, rest := rest }

/-- A move shortens what is ahead by the token it comes to, unless the cursor is at the end. -/
theorem rest_moved (c : Cursor) :
    c.moved.rest.length = if c.atEnd then c.rest.length else c.rest.length - 1 := by
  unfold moved atEnd
  cases c.current.kind.agrees .eof with
  | true => rfl
  | false =>
    cases ahead : c.rest with
    | nil =>
      rw [if_neg Bool.false_ne_true, Bool.false_or, List.isEmpty_nil, if_pos rfl]
      exact congrArg List.length ahead
    | cons next rest =>
      rw [if_neg Bool.false_ne_true, Bool.false_or, List.isEmpty_cons, if_neg Bool.false_ne_true,
        List.length_cons, Nat.add_sub_cancel]

/-- No move takes an id. -/
theorem nextId_moved (c : Cursor) : c.moved.nextId = c.nextId := by
  unfold moved
  split
  · rfl
  · split <;> rfl

end Cursor

/-- Reads from a cursor. -/
abbrev Parser := EStateM SyntaxError Cursor

namespace Parser

/-- Stops at the current token. -/
def fail {α : Type} (cause : SyntaxError.Cause) : Parser α :=
  fun c => .error ⟨cause, c.current.line⟩ c

/-- The current token. -/
def peek : Parser Token :=
  fun c => .ok c.current c

/-- Whether the cursor is at the end. -/
def atEnd : Parser Bool :=
  fun c => .ok c.atEnd c

/-- Whether the current token is of a kind. -/
def isAt (kind : Kind) : Parser Bool :=
  fun c => .ok (c.isAt kind) c

/-- Moves past the current token, unless it is the last. -/
def advance : Parser Unit :=
  fun c => .ok () c.moved

/-- Takes the current token if it is of a kind. -/
def accept? (kind : Kind) : Parser (Option Token) :=
  fun c => if c.isAt kind then .ok (some c.current) c.moved else .ok none c

/-- Takes the current token if it is of a kind, and says whether it was. -/
def accept (kind : Kind) : Parser Bool :=
  fun c => if c.isAt kind then .ok true c.moved else .ok false c

/-- Takes a token of a kind, described by `what` where it is missing. -/
def expect (kind : Kind) (what : String) : Parser Token :=
  fun c => if c.isAt kind then .ok c.current c.moved
    else .error ⟨.expected what, c.current.line⟩ c

/-- Takes an identifier, described by `what` where it is missing. -/
def name (what : String) : Parser Name := do
  let token ← expect .identifier what
  return ⟨token.lexeme, token.line⟩

/-- The number of ids: they are words of 32 bits. -/
def idCount : Nat := 4294967296

/-- An id that was not given out before, as long as there is one. -/
def freshId : Parser NodeId :=
  fun c => .ok (c.nextId % idCount) { c with nextId := c.nextId + 1 }

/-- Lets the cursor go on to a statement boundary where `parser` fails. -/
def recovering {α : Type} (parser : Parser α) : Parser α := fun c =>
  match parser c with
  | .ok a c' => .ok a c'
  | .error e c' => .error e c'.synchronized

end Parser

end Lox
