import Lox.Session
import Lox.Token.Listing
import Lox.Syntax.Printer
import Lox.Text.Blank
import Lox.Folder

/-!
# The command line

What each command answers: the text for standard output, the text for standard error and the exit
code, given the contents of its file or the bytes of standard input. Reading files and writing the
answer is left to the program around it.
-/

set_option autoImplicit false

namespace Lox

/-- The commands. All but the dialogue work on a file. -/
inductive Command where
  /-- Lists the tokens of a file, in lines or as JSON. -/
  | tokenize (file : Option String) (json : Bool)
  /-- Writes the expression in a file in prefix form. -/
  | parse (file : Option String)
  /-- Writes the value of the expression in a file. -/
  | evaluate (file : Option String)
  /-- Runs the program in a file. -/
  | run (file : Option String)
  /-- Runs each line of standard input in one session. -/
  | repl
  deriving DecidableEq, Repr

/-- What a command answers. -/
structure Response where
  out : String
  err : String
  code : Nat
  deriving DecidableEq, Repr

namespace Response

/-- A successful answer. -/
def success (out : String) : Response :=
  ⟨out, "", 0⟩

/-- Faults, one after another. -/
def reports (faults : List Fault) : String :=
  String.join (faults.map fun fault => fault.report ++ "\n")

/-- An answer that ends with faults. The first of them decides the exit code. -/
def failure (out : String) (faults : List Fault) : Response :=
  let code :=
    match faults with
    | fault :: _ => fault.exitCode
    | [] => 65
  ⟨out, reports faults, code⟩

/-- An answer to a file that cannot be used. -/
def unusable (what cause : String) : Response :=
  ⟨"", "Error: " ++ what ++ "\n\nCaused by:\n    " ++ cause ++ "\n", 1⟩

/-- The answer when a file is needed and none is named. -/
def noInput : Response :=
  success "No input filepath was provided. Exiting...\n"

/-- The answer when a computation nests beyond all bounds. -/
def exhausted (out : String) : Response :=
  ⟨out, "Evaluation nests too deeply.\n", 70⟩

end Response

namespace Command

/-- Whether an argument is an option. A dash alone is a name. -/
def isOption (argument : String) : Bool :=
  match argument.toList with
  | '-' :: _ :: _ => true
  | _ => false

/-- The file among arguments that name at most one. -/
def fileArgument? : List String → Option (Option String)
  | [] => some none
  | [file] => some (some file)
  | _ => none

/-- The file that a command works on. -/
def file : Command → Option String
  | .tokenize file _ | .parse file | .evaluate file | .run file => file
  | .repl => none

/-- The command that the arguments give. Options are told from names by their dash, unless two
dashes alone come before them. The option for logging has no effect on the answer. -/
def ofArguments? (arguments : List String) : Option Command :=
  let behind := (arguments.dropWhile (· != "--")).drop 1
  match (arguments.takeWhile (· != "--")).filter (· != "--log") with
  | [] => none
  | command :: rest =>
    let names := rest.filter (!isOption ·) ++ behind
    match command, rest.filter isOption with
    | "tokenize", [] => (fileArgument? names).map (tokenize · false)
    | "tokenize", ["--json"] => (fileArgument? names).map (tokenize · true)
    | "parse", [] => (fileArgument? names).map parse
    | "evaluate", [] => (fileArgument? names).map evaluate
    | "run", [] => (fileArgument? names).map run
    | "repl", [] => if names.isEmpty then some repl else none
    | _, _ => none

/-- The machine on which a command runs programs. -/
def machine (clock : Clock) : Machine :=
  .new .empty .accepting Machine.defaultMaxDepth clock

/-- Lists tokens and errors, each in its stream. -/
def answerTokenize (source : String) : Response :=
  let (tokens, errors) := scan source
  let out := String.join (tokens.map fun token => token.listed ++ "\n")
  let faults := errors.map (Fault.source ·.diagnostic)
  if faults.isEmpty then .success out else .failure out faults

/-- Lists tokens as JSON, and then the errors. -/
def answerTokenizeJson (source : String) : Response :=
  let (tokens, errors) := scan source
  let out := Token.jsonListing tokens ++ "\n"
  let faults := errors.map (Fault.source ·.diagnostic)
  if faults.isEmpty then .success out else .failure out faults

/-- Reads one expression, and answers by `f` if there are no faults. -/
def answerExpression (source : String) (f : Expr → Response) : Response :=
  let (tokens, errors) := scan source
  if errors.isEmpty then
    match (Parser.parseExpression tokens 0).outcome with
    | .ok e => f e
    | .error fault => .failure "" [.source fault.diagnostic]
  else
    .failure "" (errors.map (Fault.source ·.diagnostic))

/-- Writes an expression in prefix form. -/
def answerParse (source : String) : Response :=
  answerExpression source fun e => .success (e.inTree ++ "\n")

/-- Writes the value of an expression in which all variables are global. -/
def answerEvaluate (clock : Clock) (source : String) : Response :=
  answerExpression source fun e =>
    match Lox.evaluate Session.ampleBound e (machine clock) with
    | .ok value _ => .success (value.printed ++ "\n")
    | .error (.error e) _ => .failure "" [.runtime e]
    | .error .exhausted _ => .exhausted ""

/-- Runs a program. -/
def answerRun (clock : Clock) (source : String) : Response :=
  let (outcome, session) := (Session.new (machine clock)).run source
  let out := session.machine.sink.text
  match outcome with
  | .finished => .success out
  | .failed faults => .failure out faults
  | .exhausted => .exhausted out

/-- Reads the source in a file, and answers by `f` if it is text. -/
def answerFile (file : String) (contents : Contents) (f : String → Response) : Response :=
  match contents with
  | .unopened cause => .unusable ("Failed to open file " ++ Text.shown file) cause
  | .folder => .unusable ("Failed to map file " ++ Text.shown file) "No such device (os error 19)"
  | .file bytes =>
    match Utf8.decode bytes with
    | .error fault =>
      .unusable ("File " ++ Text.shown file ++ " is not valid UTF-8") fault.message
    | .ok source => f source

end Command

namespace Repl

/-- What is written before each line is read. -/
def prompt : String := "> "

/-- What is written where a line is not text. -/
def notText : String := "Error: stream did not contain valid UTF-8\n"

/-- One line of a dialogue: the texts for standard output and standard error, and the session
afterwards. Blank lines do nothing. -/
def turn (session : Session) (line : String) : String × String × Session :=
  let line := Text.trim line
  if line.isEmpty then
    ("", "", session)
  else
    let (outcome, session) := session.run line
    let out := session.machine.sink.text
    let session := { session with machine.sink := session.machine.sink.drained }
    match outcome with
    | .finished => (out, "", session)
    | .failed faults => (out, Response.reports faults, session)
    | .exhausted => (out, (Response.exhausted "").err, session)

/-- Cuts bytes into lines that end with their line breaks; `line` is what was read of the present
one, the latest byte first. -/
def linesAfter (line : List UInt8) : List UInt8 → List (List UInt8)
  | [] => if line.isEmpty then [] else [line.reverse]
  | b :: rest =>
    if b = 10 then (b :: line).reverse :: linesAfter [] rest else linesAfter (b :: line) rest

/-- Cuts bytes into lines that end with their line breaks. -/
def lines (bytes : List UInt8) : List (List UInt8) :=
  linesAfter [] bytes

/-- A dialogue over lines, after the texts written so far. It ends with the input, or at a line that
is not text. -/
def answerLines (session : Session) (out err : String) : List (List UInt8) → Response
  | [] => ⟨out ++ prompt, err, 0⟩
  | line :: rest =>
    match Utf8.decode line with
    | .error _ => ⟨out ++ prompt, err ++ notText, 1⟩
    | .ok text =>
      let (written, reported, session) := turn session text
      answerLines session (out ++ prompt ++ written) (err ++ reported) rest

/-- A whole dialogue. -/
def answer (clock : Clock) (input : List UInt8) : Response :=
  answerLines (.new (Command.machine clock)) "" "" (lines input)

end Repl

namespace Command

/-- What a command answers by a clock, where `contents` gives the contents of files and
`input` is standard input. -/
def answer (command : Command) (clock : Clock) (contents : String → Contents)
    (input : List UInt8) : Response :=
  match command with
  | .tokenize (some file) false => answerFile file (contents file) answerTokenize
  | .tokenize (some file) true => answerFile file (contents file) answerTokenizeJson
  | .parse (some file) => answerFile file (contents file) answerParse
  | .evaluate (some file) => answerFile file (contents file) (answerEvaluate clock)
  | .run (some file) => answerFile file (contents file) (answerRun clock)
  | .repl => Repl.answer clock input
  | .tokenize none _ | .parse none | .evaluate none | .run none => .noInput

end Command

end Lox
