import Lox.Proofs.History
import Lox.Proofs.Runs.Congruence

/-!
# Bounds do not matter

The bound of a run decides only whether the run gets to its end. Within a larger bound a run goes
the same way, and it ends the same way as soon as the bound suffices (`Eval.Refines`). So one may
say how a source ends without a bound: `Session.Ends` means that it does so within some bound, and
a source ends in one way only (`Session.Ends.unique`).
-/

set_option autoImplicit false

namespace Lox

namespace Eval

variable {α β : Type}

/-- Whether a result says that the bound was used up. -/
def Exhausts (result : EStateM.Result Stop Machine α) : Prop :=
  ∃ m, result = .error .exhausted m

/-- A computation refines another if it does the same wherever the other has not used up its
bound. -/
def Refines (x y : Eval α) : Prop :=
  ∀ m, Exhausts (x m) ∨ y m = x m

theorem refines_refl (x : Eval α) : Refines x x := fun _ => .inr rfl

theorem Refines.bind {x y : Eval α} {f g : α → Eval β} (first : Refines x y)
    (second : ∀ a, Refines (f a) (g a)) : Refines (x >>= f) (y >>= g) := by
  intro m
  rw [bind_eq, bind_eq]
  rcases first m with ⟨m', used⟩ | same
  · rw [used]
    exact .inl ⟨m', rfl⟩
  · rw [same]
    cases x m with
    | ok a m' => exact second a m'
    | error stop m' => exact .inr rfl

theorem exhausts_onMachine {result : EStateM.Result Stop Machine α} (used : Exhausts result)
    (change : Machine → Machine) : Exhausts (onMachine change result) := by
  obtain ⟨m, rfl⟩ := used
  exact ⟨_, rfl⟩

theorem Refines.inFrame {x y : Eval α} (frame : Address) (inside : Refines x y) :
    Refines (inFrame frame x) (inFrame frame y) := by
  intro m
  rw [inFrame_eq, inFrame_eq]
  rcases inside { m with current := frame } with used | same
  · exact .inl (exhausts_onMachine used _)
  · rw [same]
    exact .inr rfl

theorem Refines.inCall {x y : Eval α} (line : Nat) (inside : Refines x y) :
    Refines (inCall line x) (inCall line y) := by
  intro m
  by_cases full : m.maxDepth ≤ m.depth
  · rw [inCall_full line x full, inCall_full line y full]
    exact .inr rfl
  · rw [inCall_room line x full, inCall_room line y full]
    rcases inside { m with depth := m.depth + 1 } with used | same
    · exact .inl (exhausts_onMachine used _)
    · rw [same]
      exact .inr rfl

theorem refines : Congruence fun _ => Refines where
  exhausted _ m := .inl ⟨m, rfl⟩
  oblivious _ := refines_refl _
  bind := Refines.bind
  write _ _ := refines_refl _
  inFrame := Refines.inFrame
  inCall := Refines.inCall

/-- A program run within a larger bound does the same, unless the smaller one is used up. -/
theorem refines_interpret {bound bound' : Nat} (le : bound ≤ bound') (program : List Stmt) :
    Refines (interpret bound program) (interpret bound' program) := by
  intro m
  unfold interpret
  rcases refines.executeProgram le program m with ⟨m', used⟩ | same
  · rw [used]
    exact .inl ⟨m', rfl⟩
  · rw [same]
    exact .inr rfl

end Eval

namespace Session

/-- Within a larger bound a source ends as it does within a smaller one that suffices. -/
theorem runWithin_mono {session : Session} {source : String} {bound bound' : Nat}
    (le : bound ≤ bound') (enough : (session.runWithin bound source).1 ≠ .exhausted) :
    session.runWithin bound' source = session.runWithin bound source := by
  cases checked : (checkSource source session.nextId).outcome with
  | error faults => rw [runWithin_of_error checked, runWithin_of_error checked]
  | ok program =>
    rw [runWithin_fst checked] at enough
    rcases Eval.refines_interpret le program.statements
      (session.machine.learn program.distances) with ⟨m', used⟩ | same
    · -- A program that uses up its bound ends its source so.
      rw [used] at enough
      exact absurd rfl enough
    · refine Prod.ext ?_ ?_
      · rw [runWithin_fst checked, runWithin_fst checked, same]
      · rw [runWithin_of_ok checked, runWithin_of_ok checked, Eval.leaves_congr same]

/-- Whether a source ends in some way, in some time, and leaves some session. -/
def Ends (session : Session) (source : String) (outcome : Outcome) (after : Session) : Prop :=
  outcome ≠ .exhausted ∧ ∃ bound, session.runWithin bound source = (outcome, after)

/-- Two endings are reached within one bound. -/
theorem Ends.common {session₁ session₂ after₁ after₂ : Session} {source : String}
    {outcome₁ outcome₂ : Outcome} (first : session₁.Ends source outcome₁ after₁)
    (second : session₂.Ends source outcome₂ after₂) :
    ∃ bound, session₁.runWithin bound source = (outcome₁, after₁) ∧
      session₂.runWithin bound source = (outcome₂, after₂) := by
  obtain ⟨ends₁, bound₁, run₁⟩ := first
  obtain ⟨ends₂, bound₂, run₂⟩ := second
  refine ⟨max bound₁ bound₂, ?_, ?_⟩
  · rw [runWithin_mono (Nat.le_max_left _ _) (by rw [run₁]; exact ends₁), run₁]
  · rw [runWithin_mono (Nat.le_max_right _ _) (by rw [run₂]; exact ends₂), run₂]

/-- **A source ends in one way only.** -/
theorem Ends.unique {session after₁ after₂ : Session} {source : String} {outcome₁ outcome₂ : Outcome}
    (first : session.Ends source outcome₁ after₁) (second : session.Ends source outcome₂ after₂) :
    outcome₁ = outcome₂ ∧ after₁ = after₂ := by
  obtain ⟨bound, run₁, run₂⟩ := first.common second
  rw [run₁] at run₂
  exact ⟨congrArg Prod.fst run₂, congrArg Prod.snd run₂⟩

end Session

end Lox
