import Lox.Proofs.Restoration

/-!
# What a session goes through

A session begins with new globals and an empty table of distances, and is then given one input
after another, each a source with the bound within which it runs. All read the time from one clock,
each reading where the last one was taken. Whatever an input does, the next one finds the machine at
its globals and outside all calls.
-/

set_option autoImplicit false

namespace Lox

deriving instance DecidableEq for Session.Outcome

/-- A source, and the bound within which it runs. -/
structure Input where
  source : String
  bound : Nat

namespace Session

/-- A session before its first input. -/
def fresh (policy : Sink.Policy) (maxDepth : Nat) (clock : Clock) : Session :=
  .new (.new .empty policy maxDepth clock)

/-- Runs an input. -/
def receive (session : Session) (input : Input) : Outcome × Session :=
  session.runWithin input.bound input.source

/-- The session after inputs. -/
def after (session : Session) (inputs : List Input) : Session :=
  inputs.foldl (fun session input => (session.receive input).2) session

theorem after_cons (session : Session) (input : Input) (inputs : List Input) :
    session.after (input :: inputs) = (session.receive input).2.after inputs := rfl

theorem after_append (session : Session) (inputs later : List Input) :
    session.after (inputs ++ later) = (session.after inputs).after later := by
  unfold after
  rw [List.foldl_append]

theorem after_concat (session : Session) (inputs : List Input) (input : Input) :
    session.after (inputs ++ [input]) = ((session.after inputs).receive input).2 :=
  after_append session inputs [input]

/-- What holds of a session and is kept by every input holds after any inputs. -/
theorem after_induction {motive : Session → Prop} {session : Session} (start : motive session)
    (step : ∀ session input, motive session → motive (session.receive input).2)
    (inputs : List Input) : motive (session.after inputs) := by
  induction inputs generalizing session with
  | nil => exact start
  | cons input inputs ih => exact ih (step session input start)

/-- Whether the machine of a session is at its globals and outside all calls. -/
def AtRest (session : Session) : Prop :=
  session.machine.current = session.machine.globals ∧ session.machine.depth = 0

theorem atRest_fresh (policy : Sink.Policy) (maxDepth : Nat) (clock : Clock) :
    (fresh policy maxDepth clock).AtRest :=
  ⟨rfl, rfl⟩

/-- A source that is refused runs nothing; only its ids are taken. -/
theorem runWithin_of_error {bound : Nat} {session : Session} {source : String}
    {faults : List Fault} (refused : (checkSource source session.nextId).outcome = .error faults) :
    session.runWithin bound source =
      (.failed faults, ⟨session.machine, (checkSource source session.nextId).nextId⟩) := by
  unfold runWithin
  simp only [refused]

/-- A program that is accepted runs on the machine, which has learned its distances. -/
theorem runWithin_of_ok {bound : Nat} {session : Session} {source : String} {program : Program}
    (accepted : (checkSource source session.nextId).outcome = .ok program) :
    (session.runWithin bound source).2 =
      ⟨(interpret bound program.statements).leaves (session.machine.learn program.distances),
        (checkSource source session.nextId).nextId⟩ := by
  unfold runWithin Eval.leaves
  simp only [accepted]
  cases interpret bound program.statements (session.machine.learn program.distances) with
  | ok _ machine => rfl
  | error stop machine => cases stop <;> rfl

/-- The outcome of an input whose program ends so. -/
def Outcome.of : EStateM.Result Stop Machine Unit → Outcome
  | .ok () _ => .finished
  | .error (.error e) _ => .failed [.runtime e]
  | .error .exhausted _ => .exhausted

theorem runWithin_fst {bound : Nat} {session : Session} {source : String} {program : Program}
    (accepted : (checkSource source session.nextId).outcome = .ok program) :
    (session.runWithin bound source).1
      = .of (interpret bound program.statements (session.machine.learn program.distances)) := by
  unfold runWithin
  simp only [accepted]
  cases interpret bound program.statements (session.machine.learn program.distances) with
  | ok _ r => rfl
  | error stop r => cases stop <;> rfl

theorem nextId_receive (session : Session) (input : Input) :
    (session.receive input).2.nextId = (checkSource input.source session.nextId).nextId := by
  unfold receive
  cases checked : (checkSource input.source session.nextId).outcome with
  | error faults =>
    rw [runWithin_of_error checked]
  | ok program =>
    rw [runWithin_of_ok checked]

theorem atRest_runWithin (bound : Nat) (session : Session) (source : String)
    (rest : session.AtRest) : (session.runWithin bound source).2.AtRest := by
  unfold AtRest
  cases checked : (checkSource source session.nextId).outcome with
  | error faults =>
    rw [runWithin_of_error checked]
    exact rest
  | ok program =>
    rw [runWithin_of_ok checked]
    have kept := restores_interpret bound program.statements
      (session.machine.learn program.distances)
    exact ⟨(kept.current.trans rest.1).trans kept.globals.symm, kept.depth.trans rest.2⟩

theorem atRest_receive (session : Session) (input : Input) (rest : session.AtRest) :
    (session.receive input).2.AtRest :=
  atRest_runWithin input.bound session input.source rest

end Session

/-- **Every exit restores the machine**: whichever way a computation ends, the globals, the current
frame, the distances, the depth, its limit and the policy of the sink are what they were.
So between the inputs of a session the current frame is that of the globals, and the depth is zero. -/
theorem every_exit_restores :
    (∀ bound e, (evaluate bound e).Restores) ∧
    (∀ bound s, (execute bound s).Restores) ∧
    (∀ bound body frame, (executeBlock bound body frame).Restores) ∧
    (∀ bound callee arguments line, (call bound callee arguments line).Restores) ∧
    (∀ bound f arguments line, (invoke bound f arguments line).Restores) ∧
    (∀ bound program, (interpret bound program).Restores) ∧
    (∀ policy maxDepth clock inputs, ((Session.fresh policy maxDepth clock).after inputs).AtRest) := by
  refine ⟨fun bound => (restoring bound).evaluate, fun bound => (restoring bound).execute,
    restores_executeBlock, fun bound => (restoring bound).call, fun bound => (restoring bound).invoke,
    restores_interpret, fun policy maxDepth clock inputs => ?_⟩
  exact Session.after_induction (Session.atRest_fresh policy maxDepth clock)
    Session.atRest_receive inputs

end Lox
