import Lox.Proofs.Origin.Sessions

/-!
# Where runtime errors point

A runtime error is raised at a token, and its line is that of the token. What fails may be code of an
earlier input, so the token may be one of any source that the session was given. Two errors have no
token, and their line is zero: a flush that is refused when a program has ended, and the output of an
expression that begins with a constant, since constants keep no line.
-/

set_option autoImplicit false

namespace Lox

namespace Session

/-- Whether an error is that of the flush that follows the program of an input. -/
def FailsToFlush (session : Session) (input : Input) (e : RuntimeError) : Prop :=
  ∃ program ∈ session.accepted input, ∃ reason m,
    executeProgram input.bound program.statements (session.prepared program) = .ok () m ∧
    m.sink.policy.refusesFlush m.sink.tally = some reason ∧ e = ⟨.output reason, 0⟩

variable {session : Session} {input : Input} {faults : List Fault} {e : RuntimeError}

/-- An error of an input is one of its program, which was accepted. -/
theorem fails_of_receive (failed : (session.receive input).1 = .failed faults)
    (member : Fault.runtime e ∈ faults) :
    ∃ program ∈ session.accepted input, ∃ m,
      interpret input.bound program.statements (session.prepared program)
        = .error (.error e) m := by
  unfold accepted
  cases checked : (checkSource input.source session.nextId).outcome with
  | error refusals =>
    -- A source that is refused has no runtime errors.
    rw [receive_of_error checked] at failed
    obtain rfl := Outcome.failed.inj failed
    obtain ⟨d, source⟩ := faults_checkSource checked _ member
    cases source
  | ok program =>
    refine ⟨program, List.mem_cons_self, ?_⟩
    rw [receive_fst checked] at failed
    cases ends : interpret input.bound program.statements (session.prepared program) with
    | ok _ m =>
      rw [ends] at failed
      cases failed
    | error stop m =>
      rw [ends] at failed
      cases stop with
      | exhausted => cases failed
      | error e' =>
        obtain rfl := Outcome.failed.inj failed
        obtain rfl := Fault.runtime.inj (List.mem_singleton.mp member)
        exact ⟨m, rfl⟩

/-- Errors of an input are blamed on where its code comes from, but for that of the flush. -/
theorem blamed_of_receive {o : Origin} (code : session.machine.heap.From o)
    (known : ∀ program ∈ session.accepted input, ∀ s ∈ program.statements, s.From o)
    (failed : (session.receive input).1 = .failed faults) (member : Fault.runtime e ∈ faults) :
    session.FailsToFlush input e ∨ e.Blamed o := by
  obtain ⟨program, accepted, m, ends⟩ := fails_of_receive failed member
  have code' : (session.prepared program).heap.From o := code
  rcases blamed_of_interpret input.bound (known program accepted) code' ends with
    ⟨reason, m', ended, refuses, same⟩ | blamed
  · exact .inl ⟨program, accepted, reason, m', ended, refuses, same⟩
  · exact .inr blamed

end Session

/-- **Runtime errors point at tokens.** Whatever a session was given and whatever its sink refuses, a
runtime error that an input ends with is that of the flush after its program, or its line is that of
a token of a source that the session was given, or it is a refused output at line zero. This last
happens only where some program of the session prints an expression that begins with a constant. -/
theorem runtime_errors_point_at_tokens (policy : Sink.Policy) (maxDepth : Nat) (clock : Clock)
    (inputs : List Input) (input : Input) (faults : List Fault) (e : RuntimeError)
    (failed : (((Session.fresh policy maxDepth clock).after inputs).receive input).1 = .failed faults)
    (member : Fault.runtime e ∈ faults) :
    ((Session.fresh policy maxDepth clock).after inputs).FailsToFlush input e ∨
    (∃ i ∈ inputs ++ [input], ∃ t ∈ (scan i.source).1, t.line = e.line) ∨
    PrintsBare ((Session.fresh policy maxDepth clock).programs (inputs ++ [input])) ∧
      ∃ reason, e = ⟨.output reason, 0⟩ := by
  obtain ⟨code, known⟩ := Session.from_origin policy maxDepth clock inputs input
  rcases Session.blamed_of_receive code known failed member with flush | line | bare
  · exact .inl flush
  · obtain ⟨t, ⟨source, known, inside⟩, same⟩ := line
    obtain ⟨i, given, rfl⟩ := List.mem_map.mp known
    exact .inr (.inl ⟨i, given, t, inside, same⟩)
  · exact .inr (.inr bare)

/-- A function whose call fails at the first line. -/
def Input.failing : Input := ⟨"fun f() \x7b nil(); \x7d", 20⟩

/-- Calls the function from the third line. -/
def Input.callingFailing : Input := ⟨"\n\nf();", 20⟩

/-- An error may point at an earlier source: the function is called from the third line of another
one. -/
theorem failing_function_points_at_its_source :
    (((Session.fresh .accepting 5 (.steady 0)).after [.failing]).receive .callingFailing).1
      = .failed [.runtime ⟨.notCallable, 1⟩] ∧
    (∃ i ∈ [Input.failing, .callingFailing], ∃ t ∈ (scan i.source).1, t.line = 1) ∧
    ∀ t ∈ (scan Input.callingFailing.source).1, t.line = 3 := by
  have failed : (((Session.fresh .accepting 5 (.steady 0)).after [.failing]).receive .callingFailing).1
      = .failed [.runtime ⟨.notCallable, 1⟩] := by decide +kernel
  refine ⟨failed, ?_, by decide +kernel⟩
  rcases runtime_errors_point_at_tokens .accepting 5 (.steady 0) [.failing] .callingFailing _ _ failed
    List.mem_cons_self with ⟨_, _, _, _, _, _, output⟩ | pointed | ⟨_, _, output⟩
  · cases output
  · exact pointed
  · cases output

/-- Prints a constant. -/
def Input.printing : Input := ⟨"print \"a\";", 20⟩

/-- A sink that takes no line refuses what is printed. The error is not that of a flush, and its line
is that of no token. -/
theorem refused_constant_points_nowhere :
    ((Session.fresh (.limited (some 0) false) 5 (.steady 0)).receive .printing).1
      = .failed [.runtime ⟨.output "sink full", 0⟩] ∧
    ¬(Session.fresh (.limited (some 0) false) 5 (.steady 0)).FailsToFlush .printing
      ⟨.output "sink full", 0⟩ ∧
    ∀ t ∈ (scan Input.printing.source).1, t.line ≠ 0 := by
  refine ⟨by decide +kernel, ?_, by decide +kernel⟩
  rintro ⟨program, -, reason, m, ends, refuses, -⟩
  -- This sink refuses no flush.
  have policy : m.sink.policy = .limited (some 0) false :=
    ((restores_executeProgram Input.printing.bound program.statements).of_ok ends).policy
  rw [policy] at refuses
  cases refuses

end Lox
