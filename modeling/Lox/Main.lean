import Std.Time.DateTime.Timestamp
import Lox.Command

/-!
# The program

Reads the file that a command names, or standard input line by line, and writes the answer.
-/

set_option autoImplicit false

namespace Lox

/-- The time in seconds since the epoch, to the microsecond. -/
def currentTime : IO Float := do
  let time ← Std.Time.Timestamp.now
  let microseconds := time.toNanosecondsSinceUnixEpoch.val / 1000
  return Float.ofInt microseconds / 1000000.0

/-- What a failure of the system of the given number says about a path. The number may be negated;
one of its own means that a folder was read as a file. -/
def unreadable (code : UInt32) (details : String) : Contents :=
  let number := min code.toNat (0 - code).toNat
  match PathError.all.find? (·.number == number) with
  | some e => .unopened e.message
  | none => if number = 21 then .folder else .unopened details

/-- What a failure to read a file says about its path. -/
def contentsOfFailure : IO.Error → Contents
  | .noFileOrDirectory _ code details | .permissionDenied _ code details
  | .invalidArgument _ code details | .inappropriateType _ code details => unreadable code details
  | error => .unopened (toString error)

/-- The contents of a file. -/
def readContents (file : String) : IO Contents := do
  try
    let bytes ← IO.FS.readBinFile file
    return .file bytes.toList
  catch error =>
    return contentsOfFailure error

/-- Writes an answer and gives its exit code. -/
def respond (response : Response) : IO UInt32 := do
  IO.print response.out
  IO.eprint response.err
  return response.code.toUInt32

/-- Reads the bytes of one line with its line break; none at the end of the input. -/
partial def readLine (input : IO.FS.Stream) (line : List UInt8) : IO (List UInt8) := do
  let bytes ← input.read 1
  match bytes.toList with
  | [] => return line.reverse
  | b :: _ => if b = 10 then return (b :: line).reverse else readLine input (b :: line)

/-- Answers one line of standard input after another, each by the time at which it was read. -/
partial def converse (input output : IO.FS.Stream) (session : Session) : IO UInt32 := do
  output.putStr Repl.prompt
  output.flush
  let line ← readLine input []
  if line.isEmpty then
    return 0
  match Utf8.decode line with
  | .error _ =>
    IO.eprint Repl.notText
    return 1
  | .ok text =>
    let session := { session with machine.clock := ← currentTime }
    let (written, reported, session) := Repl.turn session text
    output.putStr written
    output.flush
    IO.eprint reported
    converse input output session

/-- How the program is used. -/
def usage : String :=
  "Usage: lox [--log] <tokenize [--json] | parse | evaluate | run> [FILENAME]\n"
    ++ "       lox [--log] repl\n"

/-- Carries out a command. -/
def perform (command : Command) : IO UInt32 := do
  let now ← currentTime
  match command, command.file with
  | .repl, _ => converse (← IO.getStdin) (← IO.getStdout) (.new (Command.machine now))
  | _, none => respond (command.answer now (fun _ => .file []) [])
  | _, some file =>
    let contents ← readContents file
    respond (command.answer now (fun _ => contents) [])

end Lox

/-- Carries out the command that the arguments give. -/
def main (arguments : List String) : IO UInt32 := do
  match Lox.Command.ofArguments? arguments with
  | some command => Lox.perform command
  | none =>
    IO.eprint Lox.usage
    return 2
