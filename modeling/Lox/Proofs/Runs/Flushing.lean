import Lox.Proofs.Runs.Limits

/-!
# Output is flushed once

All that a computation does to the sink is to offer it text: of the steps of the evaluator only the
writing of a piece touches the sink at all, so this is a congruence (`Eval.onlyWrites`). The flush is
the last thing that happens in a program, whether a statement has failed or all have been executed.

A sink may refuse any piece of text and any flush. It is described by the texts that were offered to
it one after the other (`Sink.offered`): what it has accepted before stays in it, and the number of
its flushes stays as it is.
-/

set_option autoImplicit false

namespace Lox

/-! ## What a sink is offered -/

namespace Sink

/-- The sink after texts were offered one after the other, and accepted or refused. -/
def offered (sink : Sink) (texts : List String) : Sink :=
  texts.foldl (fun sink text => (sink.write text).2) sink

variable (sink : Sink)

theorem offered_append (texts texts' : List String) :
    sink.offered (texts ++ texts') = (sink.offered texts).offered texts' :=
  List.foldl_append

theorem flushes_write (text : String) : (sink.write text).2.tally.flushes = sink.tally.flushes := by
  unfold write
  split
  · rfl
  · cases sink.policy.refusesWrite sink.tally <;> rfl

/-- Texts that are offered are no flushes. -/
theorem flushes_offered (texts : List String) :
    (sink.offered texts).tally.flushes = sink.tally.flushes := by
  induction texts generalizing sink with
  | nil => rfl
  | cons text texts ih => exact (ih (sink.write text).2).trans (flushes_write sink text)

/-- What a sink holds stays in it. -/
theorem pieces_offered (texts : List String) : sink.pieces <:+ (sink.offered texts).pieces := by
  induction texts generalizing sink with
  | nil => exact List.suffix_rfl
  | cons text texts ih => exact (pieces_write sink text).trans (ih (sink.write text).2)

theorem text_offered (texts : List String) :
    ∃ more, (sink.offered texts).text = sink.text ++ more :=
  text_of_suffix (pieces_offered sink texts)

end Sink

/-- The machine after its output was flushed, whether or not the flush was refused. -/
def Machine.flushed (m : Machine) : Machine :=
  { m with sink := m.sink.flush.2 }

namespace Eval

variable {α β : Type}

/-- A computation does nothing to the sink but offer it texts, however it ends. -/
def OnlyWrites (x : Eval α) : Prop :=
  ∀ m, ∃ texts, (x.leaves m).sink = m.sink.offered texts

theorem OnlyWrites.bind {x : Eval α} {f : α → Eval β} (first : x.OnlyWrites)
    (second : ∀ a, (f a).OnlyWrites) : (x >>= f).OnlyWrites := by
  intro m
  obtain ⟨texts, here⟩ := first m
  rw [leaves_bind]
  unfold leaves at here
  cases ends : x m with
  | ok a m' =>
    rw [ends] at here
    obtain ⟨texts', later⟩ := second a m'
    refine ⟨texts ++ texts', ?_⟩
    calc ((f a).leaves m').sink
        = m'.sink.offered texts' := later
      _ = (m.sink.offered texts).offered texts' := by rw [here]
      _ = m.sink.offered (texts ++ texts') := (Sink.offered_append _ _ _).symm
  | error stop m' =>
    rw [ends] at here
    exact ⟨texts, here⟩

theorem onlyWrites_write (text : String) (line : Nat) : OnlyWrites (write text line) := by
  intro m
  refine ⟨[text], ?_⟩
  unfold leaves write
  show _ = (m.sink.write text).2
  cases m.sink.write text with
  | mk refusal sink => cases refusal <;> rfl

theorem OnlyWrites.inFrame {x : Eval α} (frame : Address) (inside : x.OnlyWrites) :
    (inFrame frame x).OnlyWrites := by
  intro m
  rw [leaves_of_onMachine (inFrame_eq frame x m)]
  exact inside { m with current := frame }

theorem OnlyWrites.inCall {x : Eval α} (line : Nat) (inside : x.OnlyWrites) :
    (inCall line x).OnlyWrites := by
  intro m
  by_cases full : m.maxDepth ≤ m.depth
  · rw [leaves_congr (inCall_full line x full)]
    exact ⟨[], rfl⟩
  · rw [leaves_of_onMachine (inCall_room line x full)]
    exact inside { m with depth := m.depth + 1 }

/-- **Executing and evaluating only writes.** -/
theorem onlyWrites : Congruence fun _ x _ => x.OnlyWrites where
  exhausted _ _ := ⟨[], rfl⟩
  oblivious same m := ⟨[], by rw [same.counting_leaves m]; rfl⟩
  bind := OnlyWrites.bind
  write := onlyWrites_write
  inFrame := OnlyWrites.inFrame
  inCall := OnlyWrites.inCall

/-- What a run that has ended with a value did to the sink. -/
theorem OnlyWrites.of_ok {x : Eval α} (only : x.OnlyWrites) {m m' : Machine} {a : α}
    (ok : x m = .ok a m') : ∃ texts, m'.sink = m.sink.offered texts := by
  have here := only m
  unfold leaves at here
  rwa [ok] at here

/-- What a run that has failed did to the sink. -/
theorem OnlyWrites.of_error {x : Eval α} (only : x.OnlyWrites) {m m' : Machine} {stop : Stop}
    (failed : x m = .error stop m') : ∃ texts, m'.sink = m.sink.offered texts := by
  have here := only m
  unfold leaves at here
  rwa [failed] at here

/-! ## Programs -/

variable {bound : Nat} {program first rest : List Stmt} {s : Stmt} {m m₁ m₂ : Machine}

/-- Where a statement stops, so does the program, and no later statement is executed. -/
theorem executeProgram_of_error {stop : Stop} (ok : executeProgram bound first m = .ok () m₁)
    (failed : execute bound s m₁ = .error stop m₂) :
    executeProgram bound (first ++ s :: rest) m = .error stop m₂ := by
  rw [executeProgram_append, bind_eq, ok]
  show executeProgram bound (s :: rest) m₁ = _
  rw [executeProgram, bind_eq, failed]

/-- A program that stops does so in one of its statements, and those before it were executed. -/
theorem exists_failed {stop : Stop} (stopped : executeProgram bound program m = .error stop m₂) :
    ∃ first s rest m₁, program = first ++ s :: rest ∧
      executeProgram bound first m = .ok () m₁ ∧ execute bound s m₁ = .error stop m₂ := by
  induction program generalizing m with
  | nil => cases stopped
  | cons s program ih =>
    rw [executeProgram, bind_eq] at stopped
    cases here : execute bound s m with
    | ok completion m' =>
      rw [here] at stopped
      obtain ⟨first, s', rest, m₁, rfl, ok, failed⟩ := ih stopped
      refine ⟨s :: first, s', rest, m₁, rfl, ?_, failed⟩
      rw [executeProgram, bind_eq, here]
      exact ok
    | error stop' m' =>
      rw [here] at stopped
      cases stopped
      exact ⟨[], s, program, m, rfl, rfl, here⟩

theorem interpret_of_error {e : RuntimeError}
    (failed : executeProgram bound program m = .error (.error e) m₂) :
    interpret bound program m = .error (.error e) m₂.flushed := by
  rw [interpret, failed]
  rfl

theorem interpret_of_ok (ok : executeProgram bound program m = .ok () m₁) :
    interpret bound program m =
      match m₁.sink.flush.1 with
      | none => .ok () m₁.flushed
      | some reason => .error (.error ⟨.output reason, 0⟩) m₁.flushed := by
  unfold interpret Machine.flushed
  rw [ok]
  dsimp only
  cases m₁.sink.flush with
  | mk refusal sink => cases refusal <;> rfl

theorem interpret_exhausted (used : executeProgram bound program m = .error .exhausted m₂) :
    interpret bound program m = .error .exhausted m₂ := by
  rw [interpret, used]

/-- A program that has come to its end was flushed once, behind all that it has offered. -/
theorem interpret_flushes (comes : ¬Exhausts (interpret bound program m)) :
    ∃ texts, ((interpret bound program).leaves m).sink = (m.sink.offered texts).flush.2 := by
  have only : (executeProgram bound program).OnlyWrites :=
    onlyWrites.executeProgram (Nat.le_refl bound) program
  cases run : executeProgram bound program m with
  | ok u m₁ =>
    obtain ⟨texts, here⟩ := only.of_ok run
    refine ⟨texts, ?_⟩
    calc ((interpret bound program).leaves m).sink
        = m₁.flushed.sink := by
          unfold leaves
          rw [interpret_of_ok run]
          cases m₁.sink.flush.1 <;> rfl
      _ = (m.sink.offered texts).flush.2 := by rw [Machine.flushed, here]
  | error stop m₂ =>
    cases stop with
    | exhausted => exact absurd ⟨m₂, interpret_exhausted run⟩ comes
    | error e =>
      obtain ⟨texts, here⟩ := only.of_error run
      refine ⟨texts, ?_⟩
      calc ((interpret bound program).leaves m).sink
          = m₂.flushed.sink := by
            unfold leaves
            rw [interpret_of_error run]
        _ = (m.sink.offered texts).flush.2 := by rw [Machine.flushed, here]

/-- A program comes to its end, or stops in one of its statements, or goes on for longer than its
bound. -/
theorem interpret_cases (bound : Nat) (program : List Stmt) (m : Machine) :
    Exhausts (interpret bound program m) ∨
      (∃ m₁, executeProgram bound program m = .ok () m₁) ∨
      ∃ first s rest m₁ e m₂, program = first ++ s :: rest ∧
        executeProgram bound first m = .ok () m₁ ∧ execute bound s m₁ = .error (.error e) m₂ := by
  cases run : executeProgram bound program m with
  | ok u m₁ => exact .inr (.inl ⟨m₁, rfl⟩)
  | error stop m₂ =>
    cases stop with
    | exhausted => exact .inl ⟨m₂, interpret_exhausted run⟩
    | error e =>
      obtain ⟨first, s, rest, m₁, same, ok, failed⟩ := exists_failed run
      exact .inr (.inr ⟨first, s, rest, m₁, e, m₂, same, ok, failed⟩)

end Eval

open Eval

/-- **Output is flushed once, at the end, and errors keep their priority.** Evaluating and executing
only offers texts to the sink, whatever the sink refuses. A program that does not run for ever leaves
the sink as it is after some texts were offered and it was flushed once, and nothing was offered after
that. If a statement fails when those before it have been executed, the program fails with the error
of that statement whether or not the flush is refused, the later ones are not executed, and what the
sink held before the statement stays in it. If all are executed, the program fails if and only if the
flush is refused, and then with that as its error. There is no other way to end. -/
theorem output_is_flushed_once :
    ((∀ bound e, (evaluate bound e).OnlyWrites) ∧
      (∀ bound callee arguments line, (call bound callee arguments line).OnlyWrites) ∧
      (∀ bound s, (execute bound s).OnlyWrites) ∧
      (∀ bound body frame, (executeBlock bound body frame).OnlyWrites)) ∧
    (∀ (sink : Sink) texts,
      (sink.offered texts).tally.flushes = sink.tally.flushes ∧
        ∃ more, (sink.offered texts).text = sink.text ++ more) ∧
    ∀ bound program m,
      (¬Exhausts (interpret bound program m) →
        ∃ texts, ((interpret bound program).leaves m).sink = (m.sink.offered texts).flush.2 ∧
          ((interpret bound program).leaves m).sink.tally.flushes = m.sink.tally.flushes + 1) ∧
      (∀ first s rest m₁ e m₂, program = first ++ s :: rest →
        executeProgram bound first m = .ok () m₁ → execute bound s m₁ = .error (.error e) m₂ →
        interpret bound program m = .error (.error e) m₂.flushed ∧
          m₂.flushed.sink.text = m₂.sink.text ∧ ∃ more, m₂.sink.text = m₁.sink.text ++ more) ∧
      (∀ m₁, executeProgram bound program m = .ok () m₁ →
        (m₁.sink.flush.1 = none ∧ interpret bound program m = .ok () m₁.flushed) ∨
          ∃ reason, m₁.sink.flush.1 = some reason ∧
            interpret bound program m = .error (.error ⟨.output reason, 0⟩) m₁.flushed) ∧
      (Exhausts (interpret bound program m) ∨
        (∃ m₁, executeProgram bound program m = .ok () m₁) ∨
        ∃ first s rest m₁ e m₂, program = first ++ s :: rest ∧
          executeProgram bound first m = .ok () m₁ ∧ execute bound s m₁ = .error (.error e) m₂) := by
  refine ⟨⟨?evaluate, ?call, ?execute, ?block⟩, ?offered, fun bound program m =>
    ⟨?once, ?fails, ?succeeds, interpret_cases bound program m⟩⟩
  case evaluate => exact fun bound => (onlyWrites.related (Nat.le_refl bound)).evaluate
  case call => exact fun bound => (onlyWrites.related (Nat.le_refl bound)).call
  case execute => exact fun bound => (onlyWrites.related (Nat.le_refl bound)).execute
  case block =>
    exact fun bound body frame =>
      OnlyWrites.inFrame frame ((onlyWrites.related (Nat.le_refl bound)).executeAll body)
  case offered => exact fun sink texts => ⟨sink.flushes_offered texts, sink.text_offered texts⟩
  case once =>
    intro comes
    -- Offering texts flushes nothing, so the one flush at the end is all that is counted.
    obtain ⟨texts, same⟩ := interpret_flushes comes
    refine ⟨texts, same, ?_⟩
    calc ((interpret bound program).leaves m).sink.tally.flushes
        = (m.sink.offered texts).tally.flushes + 1 := by rw [same]; rfl
      _ = m.sink.tally.flushes + 1 := by rw [Sink.flushes_offered]
  case fails =>
    rintro first s rest m₁ e m₂ rfl ok failed
    -- The flush behind an error is made for its effect: its answer is dropped.
    refine ⟨interpret_of_error (executeProgram_of_error ok failed), Sink.text_flush m₂.sink, ?_⟩
    obtain ⟨texts, same⟩ := OnlyWrites.of_error
      ((onlyWrites.related (Nat.le_refl bound)).execute s) failed
    rw [same]
    exact m₁.sink.text_offered texts
  case succeeds =>
    intro m₁ ok
    rw [interpret_of_ok ok]
    cases m₁.sink.flush.1 with
    | none => exact .inl ⟨rfl, rfl⟩
    | some reason => exact .inr ⟨reason, rfl, rfl⟩

end Lox
