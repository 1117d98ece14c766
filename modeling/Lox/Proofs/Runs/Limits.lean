import Lox.Proofs.Runs.Bounds

/-!
# A higher limit on the depth

The depth is compared with its limit where the body of a function would begin, and nowhere else. So
up to the first call that is refused a run goes the same way under a higher limit. If no call is
refused, that is the whole run. Otherwise the run ends right there: nothing of the language catches
the overflow, and what the run under the higher limit does from then on can only be added to the
output (`Eval.Extends`). These are the cases of `Eval.Conservative`, which all runs satisfy.

Neither the clock nor the sink has to be excluded: both runs see the same time, and up to the refused
call both sinks are asked the same.
-/

set_option autoImplicit false

namespace Lox

namespace Sink

/-- A sink that was offered a piece holds what it held before, and at most that piece besides. -/
theorem pieces_write (sink : Sink) (text : String) : sink.pieces <:+ (sink.write text).2.pieces := by
  unfold write
  split
  · exact List.suffix_refl _
  · dsimp only
    split
    · exact List.suffix_refl _
    · exact List.suffix_cons _ _

/-- Pieces that were added stand behind the text that was there. -/
theorem text_of_suffix {sink later : Sink} (added : sink.pieces <:+ later.pieces) :
    ∃ more, later.text = sink.text ++ more := by
  obtain ⟨pieces, same⟩ := added
  refine ⟨String.join pieces.reverse, ?_⟩
  unfold text
  rw [← same, List.reverse_append, String.join_append]

end Sink

/-- A machine with another limit on the depth. -/
def Machine.limited (m : Machine) (limit : Nat) : Machine :=
  { m with maxDepth := limit }

namespace Eval

variable {α β : Type}

/-! ## Output is only added to -/

/-- Whether a computation, however it ends, leaves all output that was there. -/
def Extends (x : Eval α) : Prop :=
  ∀ m : Machine, m.sink.pieces <:+ (x.leaves m).sink.pieces

/-- What the first part of a sequence left is still there after the second. -/
theorem leaves_bind_suffix (x : Eval α) {f : α → Eval β} (second : ∀ a, Extends (f a))
    (m : Machine) : (x.leaves m).sink.pieces <:+ ((x >>= f).leaves m).sink.pieces := by
  rw [leaves_bind]
  unfold leaves
  cases x m with
  | ok a m' => exact second a m'
  | error stop m' => exact List.suffix_refl _

theorem extends_inFrame (frame : Address) {body : Eval α} (inside : Extends body) :
    Extends (inFrame frame body) := by
  intro m
  rw [leaves_of_onMachine (inFrame_eq frame body m)]
  exact inside { m with current := frame }

theorem extends_inCall (line : Nat) {body : Eval α} (inside : Extends body) :
    Extends (inCall line body) := by
  intro m
  by_cases full : m.maxDepth ≤ m.depth
  · rw [leaves_congr (inCall_full line body full)]
    exact List.suffix_refl _
  · rw [leaves_of_onMachine (inCall_room line body full)]
    exact inside { m with depth := m.depth + 1 }

theorem extends_write (text : String) (line : Nat) : Extends (write text line) := by
  intro m
  have added := m.sink.pieces_write text
  unfold leaves write
  cases written : m.sink.write text with
  | mk refusal sink =>
    rw [written] at added
    cases refusal <;> exact added

/-! ## Runs under two limits -/

/-- Whether a computation goes the same way under a higher limit, up to where it overflows. -/
def Conservative (x : Eval α) : Prop :=
  ∀ (m : Machine) (limit : Nat), m.maxDepth ≤ limit →
    Exhausts (x m) ∨
    (∃ line, Overflows (x m) line) ∧
      (x.leaves m).sink.pieces <:+ (x.leaves (m.limited limit)).sink.pieces ∨
    (x.leaves m).maxDepth = m.maxDepth ∧ x (m.limited limit) = onMachine (·.limited limit) (x m)

theorem Oblivious.conservative {x : Eval α} (oblivious : x.Oblivious) : Conservative x := by
  intro m limit _
  have own : x m = onMachine (·.counting m.depth m.maxDepth m.sink) (x m) :=
    oblivious.commutes m m.depth m.maxDepth m.sink
  refine .inr (.inr ⟨by rw [oblivious.counting_leaves m]; rfl, ?_⟩)
  calc x (m.limited limit)
      = onMachine (·.counting m.depth limit m.sink) (x m) :=
        oblivious.commutes m m.depth limit m.sink
    _ = onMachine (·.limited limit) (onMachine (·.counting m.depth m.maxDepth m.sink) (x m)) := by
        cases x m <;> rfl
    _ = onMachine (·.limited limit) (x m) := congrArg _ own.symm

theorem Conservative.bind {x : Eval α} {f : α → Eval β} (first : Conservative x)
    (second : ∀ a, Conservative (f a)) (adds : ∀ a, Extends (f a)) : Conservative (x >>= f) := by
  intro m limit le
  rcases first m limit le with ⟨m', used⟩ | ⟨⟨line, m', refused⟩, printed⟩ | ⟨kept, same⟩
  · left
    rw [bind_eq, used]
    exact ⟨m', rfl⟩
  · right; left
    have ends : (x >>= f) m = .error (.error ⟨.stackOverflow, line⟩) m' := by rw [bind_eq, refused]
    -- The rest is not run below the limit, and only adds to the output above it.
    have stopped : ((x >>= f).leaves m).sink.pieces = (x.leaves m).sink.pieces := by
      unfold leaves
      rw [ends, refused]
    refine ⟨⟨line, m', ends⟩, ?_⟩
    rw [stopped]
    exact printed.trans (leaves_bind_suffix x adds _)
  · unfold leaves at kept ⊢
    rw [bind_eq, bind_eq, same]
    cases ends : x m with
    | error stop m' =>
      rw [ends] at kept
      exact .inr (.inr ⟨kept, rfl⟩)
    | ok a m' =>
      rw [ends] at kept
      change m'.maxDepth = m.maxDepth at kept
      rcases second a m' limit (by omega) with used | ⟨refused, printed⟩ | ⟨kept', same'⟩
      · exact .inl used
      · exact .inr (.inl ⟨refused, printed⟩)
      · exact .inr (.inr ⟨kept'.trans kept, same'⟩)

theorem Conservative.inFrame (frame : Address) {body : Eval α} (inside : Conservative body) :
    Conservative (inFrame frame body) := by
  intro m limit le
  have there := inFrame_eq frame body (m.limited limit)
  rw [leaves_of_onMachine (inFrame_eq frame body m), leaves_of_onMachine there, inFrame_eq]
  rcases inside { m with current := frame } limit le with
    used | ⟨⟨line, refused⟩, printed⟩ | ⟨kept, same⟩
  · exact .inl (exhausts_onMachine used _)
  · exact .inr (.inl ⟨⟨line, overflows_onMachine.mpr refused⟩, printed⟩)
  · refine .inr (.inr ⟨kept, ?_⟩)
    change body { m.limited limit with current := frame } = _ at same
    rw [there, same]
    cases body { m with current := frame } <;> rfl

theorem Conservative.inCall (line : Nat) {body : Eval α} (inside : Conservative body)
    (adds : Extends body) : Conservative (inCall line body) := by
  intro m limit le
  by_cases full : m.maxDepth ≤ m.depth
  · -- The call is refused, and has added nothing yet.
    right; left
    refine ⟨⟨line, m, inCall_full line body full⟩, ?_⟩
    rw [leaves_congr (inCall_full line body full)]
    exact extends_inCall line adds (m.limited limit)
  -- Below its own limit, the call is below the higher one too.
  by_cases full' : limit ≤ m.depth
  · omega
  have there := inCall_room line body (m := m.limited limit) full'
  rw [leaves_of_onMachine (inCall_room line body full), leaves_of_onMachine there,
    inCall_room line body full]
  rcases inside { m with depth := m.depth + 1 } limit le with
    used | ⟨⟨line', refused⟩, printed⟩ | ⟨kept, same⟩
  · exact .inl (exhausts_onMachine used _)
  · exact .inr (.inl ⟨⟨line', overflows_onMachine.mpr refused⟩, printed⟩)
  · refine .inr (.inr ⟨kept, ?_⟩)
    change body { m.limited limit with depth := m.depth + 1 } = _ at same
    rw [there]
    change onMachine _ (body { m.limited limit with depth := m.depth + 1 }) = _
    rw [same]
    cases body { m with depth := m.depth + 1 } <;> rfl

theorem conservative_write (text : String) (line : Nat) : Conservative (write text line) := by
  intro m limit _
  have kept := (restores_write text line m).maxDepth
  refine .inr (.inr ⟨kept, ?_⟩)
  unfold write Machine.limited
  dsimp only
  cases m.sink.write text with
  | mk refusal sink => cases refusal <;> rfl

theorem extends_and_conservative : Congruence fun _ x _ => Extends x ∧ Conservative x where
  exhausted _ := ⟨fun _ => List.suffix_refl _, fun m _ _ => .inl ⟨m, rfl⟩⟩
  oblivious same := by
    refine ⟨fun m => ?_, same.conservative⟩
    rw [same.counting_leaves m]
    exact List.suffix_refl _
  bind {_ _ x _ f _} first second :=
    ⟨fun m => (first.1 m).trans (leaves_bind_suffix x (fun a => (second a).1) m),
      first.2.bind (fun a => (second a).2) fun a => (second a).1⟩
  write text line := ⟨extends_write text line, conservative_write text line⟩
  inFrame frame inside := ⟨extends_inFrame frame inside.1, inside.2.inFrame frame⟩
  inCall line inside := ⟨extends_inCall line inside.1, inside.2.inCall line inside.1⟩

/-- A flush takes no output away and adds none. -/
theorem pieces_interpret (bound : Nat) (program : List Stmt) (m : Machine) :
    ((interpret bound program).leaves m).sink.pieces
      = ((executeProgram bound program).leaves m).sink.pieces := by
  unfold leaves interpret
  cases executeProgram bound program m with
  | ok _ m' =>
    unfold Sink.flush
    dsimp only
    cases m'.sink.policy.refusesFlush m'.sink.tally <;> rfl
  | error stop m' => cases stop <;> rfl

/-- A whole run goes the same way under a higher limit, up to where it overflows. -/
theorem conservative_interpret (bound : Nat) (program : List Stmt) :
    Conservative (interpret bound program) := by
  intro m limit le
  have run := (extends_and_conservative.executeProgram (Nat.le_refl bound) program).2 m limit le
  rw [pieces_interpret, pieces_interpret]
  have kept := (restores_interpret bound program m).maxDepth
  unfold interpret
  rcases run with ⟨m', used⟩ | ⟨⟨line, m', refused⟩, printed⟩ | ⟨-, same⟩
  · rw [used]
    exact .inl ⟨m', rfl⟩
  · rw [refused]
    exact .inr (.inl ⟨⟨line, _, rfl⟩, printed⟩)
  · refine .inr (.inr ⟨kept, ?_⟩)
    -- The flush at the end does not depend on the limit.
    rw [same]
    cases executeProgram bound program m with
    | error stop m' => cases stop <;> rfl
    | ok _ m' =>
      unfold onMachine Machine.limited Sink.flush
      dsimp only
      cases m'.sink.policy.refusesFlush m'.sink.tally <;> rfl

end Eval

/-! ## Sessions under two limits -/

namespace Session

/-- The session with another limit on the depth. -/
def limited (session : Session) (limit : Nat) : Session :=
  ⟨session.machine.limited limit, session.nextId⟩

/-- Whether a source failed because calls were nested too deeply. -/
def Outcome.Overflows (outcome : Outcome) : Prop :=
  ∃ line, outcome = .failed [.runtime ⟨.stackOverflow, line⟩]

theorem Outcome.overflows_of {result : EStateM.Result Stop Machine Unit} :
    (Outcome.of result).Overflows ↔ ∃ line, Eval.Overflows result line := by
  constructor
  · rintro ⟨line, same⟩
    rcases result with ⟨_, m⟩ | ⟨_ | _, m⟩
    · cases same
    · cases same
      exact ⟨line, m, rfl⟩
    · cases same
  · rintro ⟨line, m, rfl⟩
    exact ⟨line, rfl⟩

/-- A source that is refused is refused under every limit. -/
theorem runWithin_limited_of_error {session : Session} {source : String} {faults : List Fault}
    (refused : (checkSource source session.nextId).outcome = .error faults) (bound limit : Nat) :
    (session.limited limit).runWithin bound source
      = ((session.runWithin bound source).1, (session.runWithin bound source).2.limited limit) := by
  have refused' : (checkSource source (session.limited limit).nextId).outcome = .error faults :=
    refused
  rw [runWithin_of_error refused, runWithin_of_error refused']
  rfl

/-- Within a bound a source that does not exhaust it goes the same way under a higher limit, or it
overflows with nothing printed but what is printed under the higher limit as well. -/
theorem runWithin_limited (session : Session) {limit : Nat}
    (le : session.machine.maxDepth ≤ limit) (source : String) (bound : Nat)
    (ends : (session.runWithin bound source).1 ≠ .exhausted) :
    (session.limited limit).runWithin bound source
        = ((session.runWithin bound source).1, (session.runWithin bound source).2.limited limit) ∨
      (session.runWithin bound source).1.Overflows ∧
        (session.runWithin bound source).2.machine.sink.pieces
          <:+ ((session.limited limit).runWithin bound source).2.machine.sink.pieces := by
  cases checked : (checkSource source session.nextId).outcome with
  | error faults => exact .inl (runWithin_limited_of_error checked bound limit)
  | ok program =>
    have checked' : (checkSource source (session.limited limit).nextId).outcome = .ok program :=
      checked
    have run := Eval.conservative_interpret bound program.statements
      (session.machine.learn program.distances) limit le
    rw [runWithin_fst checked] at ends ⊢
    -- The bound is used up, or a call is refused for the lower limit, or the limits do not differ.
    rcases run with ⟨m', used⟩ | ⟨refused, printed⟩ | ⟨-, same⟩
    · rw [used] at ends
      exact absurd rfl ends
    · rw [runWithin_of_ok checked, runWithin_of_ok checked']
      exact .inr ⟨Outcome.overflows_of.mpr refused, printed⟩
    · left
      refine Prod.ext ?_ ?_
      · rw [runWithin_fst checked']
        change Outcome.of (interpret bound program.statements
          ((session.machine.learn program.distances).limited limit)) = _
        rw [same]
        rcases interpret bound program.statements (session.machine.learn program.distances)
          with ⟨_, m⟩ | ⟨_ | _, m⟩ <;> rfl
      · rw [runWithin_of_ok checked, runWithin_of_ok checked']
        change (⟨(interpret bound program.statements).leaves
          ((session.machine.learn program.distances).limited limit), _⟩ : Session) = _
        rw [Eval.leaves_of_onMachine same]
        rfl

/-- What a source adds to the output of a session stands behind what was there. -/
theorem pieces_runWithin (session : Session) (bound : Nat) (source : String) :
    session.machine.sink.pieces <:+ (session.runWithin bound source).2.machine.sink.pieces := by
  cases checked : (checkSource source session.nextId).outcome with
  | error faults =>
    have same : (session.runWithin bound source).2.machine = session.machine := by
      rw [runWithin_of_error checked]
    exact same ▸ List.suffix_refl _
  | ok program =>
    rw [runWithin_of_ok checked, Eval.pieces_interpret]
    exact (Eval.extends_and_conservative.executeProgram (Nat.le_refl bound) program.statements).1
      (session.machine.learn program.distances)

end Session

/-- **A higher limit on the depth is conservative.** Whatever a session holds and whatever its sink
does, if a source ends without an overflow, then it ends in the same way under a higher limit, and
leaves the same session, heap, globals and output included. If it ends with an overflow and also
ends, somehow, under the higher limit, then what it printed is the beginning of what it prints
there. -/
theorem higher_limit_conservative (session : Session) (limit : Nat)
    (le : session.machine.maxDepth ≤ limit) (source : String) (outcome : Session.Outcome)
    (after : Session) (ends : session.Ends source outcome after) :
    (¬outcome.Overflows → (session.limited limit).Ends source outcome (after.limited limit)) ∧
    (outcome.Overflows → ∀ outcome' after', (session.limited limit).Ends source outcome' after' →
      ∃ printed more, after.machine.sink.text = session.machine.sink.text ++ printed ∧
        after'.machine.sink.text = session.machine.sink.text ++ (printed ++ more)) := by
  constructor
  · intro calm
    obtain ⟨ended, bound, run⟩ := ends
    refine ⟨ended, bound, ?_⟩
    rcases session.runWithin_limited le source bound (by rw [run]; exact ended) with
      same | ⟨overflows, -⟩
    · rw [same, run]
    · rw [run] at overflows
      exact absurd overflows calm
  · intro overflows outcome' after' ends'
    obtain ⟨bound, run, run'⟩ := ends.common ends'
    obtain ⟨printed, first⟩ := Sink.text_of_suffix (session.pieces_runWithin bound source)
    rw [run] at first
    have further : after.machine.sink.pieces <:+ after'.machine.sink.pieces := by
      rcases session.runWithin_limited le source bound (by rw [run]; exact ends.1) with
        same | ⟨-, suffix⟩
      · rw [run, run'] at same
        rw [(Prod.mk.inj same).2]
        exact List.suffix_refl _
      · rwa [run, run'] at suffix
    obtain ⟨more, second⟩ := Sink.text_of_suffix further
    exact ⟨printed, more, first, by rw [second, first, String.append_assoc]⟩

/-- A function that prints and then calls another one. -/
def nestedCalls : String :=
  "fun g() \x7b \x7d fun f() \x7b print nil; g(); \x7d f();"

/-- A limit of one refuses the inner call, after the first line was printed. A limit of two lets the
program end, and so does every higher limit. -/
theorem nested_calls_under_higher_limits :
    (((Session.fresh .accepting 1 (.steady 0)).runWithin 20 nestedCalls).1
        = .failed [.runtime ⟨.stackOverflow, 1⟩] ∧
      ∀ outcome' after',
        ((Session.fresh .accepting 1 (.steady 0)).limited 2).Ends nestedCalls outcome' after' →
        ∃ printed more,
          ((Session.fresh .accepting 1 (.steady 0)).runWithin 20 nestedCalls).2.machine.sink.text
            = "" ++ printed ∧
          after'.machine.sink.text = "" ++ (printed ++ more)) ∧
    (((Session.fresh .accepting 2 (.steady 0)).runWithin 20 nestedCalls).1 = .finished ∧
      ∀ limit, 2 ≤ limit →
        ((Session.fresh .accepting 2 (.steady 0)).limited limit).Ends nestedCalls .finished
          (((Session.fresh .accepting 2 (.steady 0)).runWithin 20 nestedCalls).2.limited limit)) := by
  have refused : ((Session.fresh .accepting 1 (.steady 0)).runWithin 20 nestedCalls).1
      = .failed [.runtime ⟨.stackOverflow, 1⟩] := by decide +kernel
  have calm : ((Session.fresh .accepting 2 (.steady 0)).runWithin 20 nestedCalls).1 = .finished := by
    decide +kernel
  refine ⟨⟨refused, ?_⟩, calm, fun limit le => ?_⟩
  · exact (higher_limit_conservative (.fresh .accepting 1 (.steady 0)) 2 (by decide) nestedCalls
      (.failed [.runtime ⟨.stackOverflow, 1⟩]) _ ⟨nofun, 20, Prod.ext refused rfl⟩).2 ⟨1, rfl⟩
  · exact (higher_limit_conservative (.fresh .accepting 2 (.steady 0)) limit le nestedCalls
      .finished _ ⟨nofun, 20, Prod.ext calm rfl⟩).1 nofun

end Lox
