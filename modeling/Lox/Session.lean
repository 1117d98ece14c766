import Lox.Token.Scan
import Lox.Parser
import Lox.Resolution
import Lox.Fault
import Lox.Machine.Evaluate

/-!
# Sessions

A session takes one source after another and runs each on the same machine, so that what one defines
the next can use. A source that is no program runs nothing, and its faults are all reported; a source
that fails while it runs leaves the session ready for the next one.
-/

set_option autoImplicit false

namespace Lox

/-- A program with what the static analysis says about it. -/
structure Program where
  statements : List Stmt
  distances : Distances

/-- A source that was read: the program or its faults, and the first id not yet used. -/
structure Checked where
  outcome : Except (List Fault) Program
  nextId : NodeId

/-- Scans and parses a source. Lexical errors are reported with the syntax errors, or alone. -/
def parseSource (source : String) (firstId : NodeId) : Parsed (List Fault) (List Stmt) :=
  let (tokens, lexical) := scan source
  let lexical := lexical.map (Fault.source ·.diagnostic)
  let parsed := Parser.parse tokens firstId
  let outcome :=
    match parsed.outcome with
    | .error errors => .error (lexical ++ errors.map (Fault.source ·.diagnostic))
    | .ok statements => if lexical.isEmpty then .ok statements else .error lexical
  ⟨outcome, parsed.nextId⟩

/-- Analyses statements. -/
def checkStatements (statements : List Stmt) : Except (List Fault) Program :=
  let resolution := resolve statements
  if resolution.errors.isEmpty then .ok ⟨statements, resolution.distances⟩
  else .error (resolution.errors.map (Fault.source ·.diagnostic))

/-- Reads a source as a program that obeys the static rules. -/
def checkSource (source : String) (firstId : NodeId) : Checked :=
  let parsed := parseSource source firstId
  ⟨parsed.outcome.bind checkStatements, parsed.nextId⟩

/-- A machine that is fed sources, and the first id not yet used. -/
structure Session where
  machine : Machine
  nextId : NodeId

namespace Session

/-- How a source ends. -/
inductive Outcome where
  | finished
  | failed (faults : List Fault)
  /-- The bound on the nesting of the evaluation was used up. -/
  | exhausted

/-- A new session on a machine. -/
def new (machine : Machine) : Session :=
  ⟨machine, 0⟩

/-- Runs a source within a bound on the nesting of the evaluation. -/
def runWithin (bound : Nat) (session : Session) (source : String) : Outcome × Session :=
  let checked := checkSource source session.nextId
  match checked.outcome with
  | .error faults => (.failed faults, { session with nextId := checked.nextId })
  | .ok program =>
    let machine := session.machine.learn program.distances
    match interpret bound program.statements machine with
    | .ok () machine => (.finished, ⟨machine, checked.nextId⟩)
    | .error (.error e) machine => (.failed [.runtime e], ⟨machine, checked.nextId⟩)
    | .error .exhausted machine => (.exhausted, ⟨machine, checked.nextId⟩)

/-- A bound that no computation uses up in practice: two to the power of 62. -/
def ampleBound : Nat := 4611686018427387904

/-- Runs a source. -/
def run (session : Session) (source : String) : Outcome × Session :=
  session.runWithin ampleBound source

end Session

end Lox
