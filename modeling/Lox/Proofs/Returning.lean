import Mathlib
import Lox.Proofs.Sources
import Lox.Proofs.Statics.Diagnostics
import Lox.Proofs.Told

/-!
# Returns and the calls that they end

A call runs the body of a function: statements begin, expressions are evaluated, and a return may
give a value. The *steps* of a call are those of its own body. What the calls inside do is no step
of it, since their statements belong to other bodies.

The evaluator is written once more with the steps (`Followed`), and without them it is the evaluator
itself (`Followed.plain_invoke`). One property carries everything: either nothing was returned so
far, or the last step was a return and its value is on its way out (`Followed.Orderly`). Every
block, loop and branch keeps it, because each passes a value on its way out at once.

At top level there is no call that a return could end. There the analysis finds the return: a
statement that can return has a return in it outside all functions (`Eval.revealing`), and that is a
violation (`Stmt.exists_violation`).
-/

set_option autoImplicit false

namespace Lox

/-- What the body of a function does. -/
inductive Step where
  /-- A statement begins. -/
  | begins (s : Stmt)
  /-- An expression is evaluated. -/
  | evaluates (e : Expr)
  /-- A return gives a value. -/
  | returns (value : Value)

/-- Computes on a machine and tells its steps. -/
abbrev Followed := Told Step

namespace Followed

open Told (lift inFrame deeper guarded)

variable {α β : Type}

/-- Takes a step. -/
def step (s : Step) : Followed Unit := Told.note fun _ => s

/-! ## The evaluator in steps -/

/-- Evaluates an expression. What it calls takes its own steps. -/
def evaluate (bound : Nat) (e : Expr) : Followed Value := do
  step (.evaluates e)
  lift (Lox.evaluate bound e)

mutual

/-- Executes a statement. -/
def execute (bound : Nat) (s : Stmt) : Followed Completion :=
  match bound with
  | 0 => lift (throw .exhausted)
  | n + 1 => do
    step (.begins s)
    match s with
    | .expression e => do
      let _ ← evaluate n e
      return .normal
    | .print e => do
      let value ← evaluate n e
      lift (Eval.print value e.line)
      return .normal
    | .var name none => do
      lift (Eval.define name.lexeme .nil)
      return .normal
    | .var name (some e) => do
      let value ← evaluate n e
      lift (Eval.define name.lexeme value)
      return .normal
    | .block body => do
      let frame ← lift Eval.openBlock
      inFrame frame (executeAll n body)
    | .if condition thenBranch elseBranch => do
      let condition ← evaluate n condition
      if condition.isTruthy then
        execute n thenBranch
      else
        match elseBranch with
        | some s => execute n s
        | none => return .normal
    | .while condition body => executeWhile n condition body
    | .function declaration => do
      lift (Eval.declareFunction declaration)
      return .normal
    | .return _ none => do
      step (.returns .nil)
      return .returned .nil
    | .return _ (some e) => do
      let value ← evaluate n e
      step (.returns value)
      return .returned value
    | .class name parent methods => do
      lift (Eval.declareClass name parent methods)
      return .normal

/-- Executes a loop. -/
def executeWhile (bound : Nat) (condition : Expr) (body : Stmt) : Followed Completion :=
  match bound with
  | 0 => lift (throw .exhausted)
  | n + 1 => do
    let value ← evaluate n condition
    if value.isTruthy then
      match ← execute n body with
      | .normal => executeWhile n condition body
      | .returned value => return .returned value
    else
      return .normal

/-- Executes statements in order, until one of them returns. -/
def executeAll (bound : Nat) (ss : List Stmt) : Followed Completion :=
  match bound with
  | 0 => lift (throw .exhausted)
  | n + 1 =>
    match ss with
    | [] => return .normal
    | s :: ss => do
      match ← execute n s with
      | .normal => executeAll n ss
      | .returned value => return .returned value

end

/-- Runs the body of a function. -/
def invoke (bound : Nat) (f : Closure) (arguments : List Value) (line : Nat) : Followed Value :=
  match bound with
  | 0 => lift (throw .exhausted)
  | n + 1 => do
    let frame ← lift (Eval.enterFunction f arguments)
    let completion ← guarded line (deeper (inFrame frame (executeAll n f.declaration.body)))
    lift (Eval.result f line completion)

/-! ## Steps are only noted -/

@[simp]
theorem plain_step (s : Step) : Told.plain (step s) = pure () := rfl

@[simp]
theorem plain_evaluate (n : Nat) (e : Expr) :
    Told.plain (evaluate n e) = Lox.evaluate n e := rfl

/-- Within a bound, statements do in steps what they do. -/
structure Same (n : Nat) : Prop where
  execute : ∀ s, Told.plain (execute n s) = Lox.execute n s
  executeWhile : ∀ condition body,
    Told.plain (executeWhile n condition body) = Lox.executeWhile n condition body
  executeAll : ∀ ss, Told.plain (executeAll n ss) = Lox.executeAll n ss

namespace Same

variable {n : Nat}

theorem zero : Same 0 := ⟨fun _ => rfl, fun _ _ => rfl, fun _ => rfl⟩

theorem execute_succ (inner : Same n) (s : Stmt) :
    Told.plain (Followed.execute (n + 1) s) = Lox.execute (n + 1) s := by
  cases s with
  | expression e => simp [Followed.execute, Lox.execute]
  | print e => simp [Followed.execute, Lox.execute]
  | var name initializer => cases initializer <;> simp [Followed.execute, Lox.execute]
  | block body => simp [Followed.execute, Lox.execute, inner.executeAll]
  | «if» condition thenBranch elseBranch =>
    simp only [Followed.execute, Lox.execute, Told.plain_bind, plain_step, pure_bind, plain_evaluate]
    congr 1
    funext value
    cases value.isTruthy with
    | true => exact inner.execute thenBranch
    | false =>
      cases elseBranch with
      | none => rfl
      | some s => exact inner.execute s
  | «while» condition body => simp [Followed.execute, Lox.execute, inner.executeWhile]
  | function declaration => simp [Followed.execute, Lox.execute]
  | «return» line value => cases value <;> simp [Followed.execute, Lox.execute]
  | «class» name parent methods => simp [Followed.execute, Lox.execute]

theorem executeWhile_succ (inner : Same n) (condition : Expr) (body : Stmt) :
    Told.plain (Followed.executeWhile (n + 1) condition body)
      = Lox.executeWhile (n + 1) condition body := by
  simp only [Followed.executeWhile, Lox.executeWhile, Told.plain_bind, plain_evaluate]
  congr 1
  funext value
  cases value.isTruthy with
  | false => rfl
  | true =>
    simp only [if_true, Told.plain_bind, inner.execute]
    congr 1
    funext completion
    cases completion with
    | normal => exact inner.executeWhile condition body
    | returned value => rfl

theorem executeAll_succ (inner : Same n) (ss : List Stmt) :
    Told.plain (Followed.executeAll (n + 1) ss) = Lox.executeAll (n + 1) ss := by
  cases ss with
  | nil => rfl
  | cons s ss =>
    simp only [Followed.executeAll, Lox.executeAll, Told.plain_bind, inner.execute]
    congr 1
    funext completion
    cases completion with
    | normal => exact inner.executeAll ss
    | returned value => rfl

end Same

theorem same (n : Nat) : Same n := by
  induction n with
  | zero => exact .zero
  | succ n ih => exact ⟨ih.execute_succ, ih.executeWhile_succ, ih.executeAll_succ⟩

/-- **In steps a call does what it does.** -/
theorem plain_invoke (n : Nat) (f : Closure) (arguments : List Value) (line : Nat) :
    Told.plain (invoke n f arguments line) = Lox.invoke n f arguments line := by
  cases n with
  | zero => rfl
  | succ n => simp [invoke, Lox.invoke, (same n).executeAll]

/-! ## A return is the last step -/

/-- Whether no step returns. -/
def Open (steps : List Step) : Prop := ∀ value, .returns value ∉ steps

theorem open_nil : Open [] := fun _ => List.not_mem_nil

theorem Open.append {first second : List Step} (one : Open first) (two : Open second) :
    Open (first ++ second) := by
  intro value member
  rcases List.mem_append.mp member with early | late
  · exact one value early
  · exact two value late

/-- Whether a computation never returns, however it ends. -/
def Quiet (x : Followed α) : Prop := ∀ m, Open (x m).1

/-- What the steps say by how they end: where a value is on its way out it was returned in the last
step, and before it nothing was; in all other ways nothing was returned. -/
def Settled (steps : List Step) : EStateM.Result Stop Machine Completion → Prop
  | .ok (.returned value) _ => ∃ earlier, steps = earlier ++ [.returns value] ∧ Open earlier
  | .ok .normal _ | .error _ _ => Open steps

/-- Whether a computation returns in its last step only, and goes no further. -/
def Orderly (x : Followed Completion) : Prop := ∀ m, Settled (x m).1 (x m).2

theorem Settled.prepend {steps more : List Step} {ending : EStateM.Result Stop Machine Completion}
    (before : Open steps) (after : Settled more ending) : Settled (steps ++ more) ending := by
  cases ending with
  | error stop m => exact before.append after
  | ok completion m =>
    cases completion with
    | normal => exact before.append after
    | returned value =>
      obtain ⟨earlier, rfl, opened⟩ := after
      exact ⟨steps ++ earlier, (List.append_assoc _ _ _).symm, before.append opened⟩

theorem quiet_lift (x : Eval α) : Quiet (lift x) := fun _ => open_nil

theorem quiet_step {s : Step} (other : ∀ value, s ≠ .returns value) : Quiet (step s) := by
  intro m value member
  exact other value (List.mem_singleton.mp member).symm

theorem orderly_normal : Orderly (pure .normal) := fun _ => open_nil

theorem orderly_fail (stop : Stop) : Orderly (lift (throw stop)) := fun _ => open_nil

/-- What follows a quiet computation is as orderly after it. -/
theorem Quiet.bind {x : Followed α} {f : α → Followed Completion} (quiet : Quiet x)
    (rest : ∀ a, Orderly (f a)) : Orderly (x >>= f) := by
  intro m
  have before := quiet m
  simp only [Bind.bind]
  cases found : x m with
  | mk steps ending =>
    rw [found] at before
    cases ending with
    | ok a m' => exact (rest a m').prepend before
    | error stop m' => exact before

theorem quiet_evaluate (n : Nat) (e : Expr) : Quiet (evaluate n e) := by
  intro m value member
  have first : Step.returns value ∈ [Step.evaluates e] := member
  cases List.mem_singleton.mp first

/-- **A value on its way out passes what follows**: it takes no more steps. -/
theorem Orderly.andThen {x y : Followed Completion} (first : Orderly x) (next : Orderly y) :
    Orderly (x >>= fun
      | .normal => y
      | .returned value => pure (.returned value)) := by
  intro m
  have before := first m
  simp only [Bind.bind]
  cases found : x m with
  | mk steps ending =>
    rw [found] at before
    cases ending with
    | error stop m' => exact before
    | ok completion m' =>
      cases completion with
      | normal => exact (next m').prepend before
      | returned value =>
        -- The other computation is left out, so the last step remains the last.
        dsimp only [pure]
        rwa [List.append_nil]

theorem Settled.onMachine {steps : List Step} {ending : EStateM.Result Stop Machine Completion}
    (settled : Settled steps ending) (change : Machine → Machine) :
    Settled steps (Eval.onMachine change ending) := by
  cases ending with
  | error stop m => exact settled
  | ok completion m => cases completion <;> exact settled

theorem Orderly.inFrame {x : Followed Completion} (frame : Address) (inside : Orderly x) :
    Orderly (inFrame frame x) :=
  fun m => (inside { m with current := frame }).onMachine _

theorem Orderly.inCall {x : Followed Completion} (line : Nat) (inside : Orderly x) :
    Orderly (guarded line (deeper x)) := by
  intro m
  unfold guarded
  by_cases full : m.maxDepth ≤ m.depth
  · rw [if_pos full]
    exact open_nil
  · rw [if_neg full]
    exact (inside { m with depth := m.depth + 1 }).onMachine _

/-- Within a bound, all statements are orderly. -/
structure Keeping (n : Nat) : Prop where
  execute : ∀ s, Orderly (execute n s)
  executeWhile : ∀ condition body, Orderly (executeWhile n condition body)
  executeAll : ∀ ss, Orderly (executeAll n ss)

namespace Keeping

variable {n : Nat}

theorem zero : Keeping 0 :=
  ⟨fun _ => orderly_fail _, fun _ _ => orderly_fail _, fun _ => orderly_fail _⟩

theorem execute_succ (inner : Keeping n) (s : Stmt) : Orderly (Followed.execute (n + 1) s) := by
  have begun : Quiet (step (.begins s)) := quiet_step (fun _ => nofun)
  refine begun.bind fun _ => ?_
  cases s with
  | expression e => exact (quiet_evaluate n e).bind fun _ => orderly_normal
  | print e =>
    exact (quiet_evaluate n e).bind fun _ => (quiet_lift _).bind fun _ => orderly_normal
  | var name initializer =>
    cases initializer with
    | none => exact (quiet_lift _).bind fun _ => orderly_normal
    | some e => exact (quiet_evaluate n e).bind fun _ => (quiet_lift _).bind fun _ => orderly_normal
  | block body => exact (quiet_lift _).bind fun frame => (inner.executeAll body).inFrame frame
  | «if» condition thenBranch elseBranch =>
    refine (quiet_evaluate n condition).bind fun value => ?_
    cases value.isTruthy with
    | true => exact inner.execute thenBranch
    | false =>
      cases elseBranch with
      | none => exact orderly_normal
      | some s => exact inner.execute s
  | «while» condition body => exact inner.executeWhile condition body
  | function declaration => exact (quiet_lift _).bind fun _ => orderly_normal
  | «return» line value =>
    -- The step and the completion carry the same value.
    have last (value : Value) :
        Orderly (step (.returns value) >>= fun _ => pure (.returned value)) :=
      fun m => ⟨[], rfl, open_nil⟩
    cases value with
    | none => exact last .nil
    | some e => exact (quiet_evaluate n e).bind fun value => last value
  | «class» name parent methods => exact (quiet_lift _).bind fun _ => orderly_normal

theorem executeWhile_succ (inner : Keeping n) (condition : Expr) (body : Stmt) :
    Orderly (Followed.executeWhile (n + 1) condition body) := by
  refine (quiet_evaluate n condition).bind fun value => ?_
  cases value.isTruthy with
  | true => exact (inner.execute body).andThen (inner.executeWhile condition body)
  | false => exact orderly_normal

theorem executeAll_succ (inner : Keeping n) (ss : List Stmt) :
    Orderly (Followed.executeAll (n + 1) ss) := by
  cases ss with
  | nil => exact orderly_normal
  | cons s ss => exact (inner.execute s).andThen (inner.executeAll ss)

end Keeping

/-- **A return is the last step of its body**, within any bound. -/
theorem keeping (n : Nat) : Keeping n := by
  induction n with
  | zero => exact .zero
  | succ n ih => exact ⟨ih.execute_succ, ih.executeWhile_succ, ih.executeAll_succ⟩

end Followed

/-! ## Where returns stand -/

mutual

/-- Whether a return stands in a statement, outside the functions in it. -/
def Stmt.Returns : Stmt → Prop
  | .return _ _ => True
  | .block body => Stmt.AnyReturns body
  | .if _ thenBranch none => thenBranch.Returns
  | .if _ thenBranch (some elseBranch) => thenBranch.Returns ∨ elseBranch.Returns
  | .while _ body => body.Returns
  | .expression _ | .print _ | .var _ _ | .function _ | .class _ _ _ => False

/-- Whether a return stands in one of some statements, outside the functions in it. -/
def Stmt.AnyReturns : List Stmt → Prop
  | [] => False
  | s :: ss => s.Returns ∨ Stmt.AnyReturns ss

end

mutual

/-- Outside all functions a return is a violation, however deep in blocks, loops and branches. -/
theorem Stmt.exists_violation (s : Stmt) {place : Position} (outside : place.function? = none)
    (returns : s.Returns) : ∃ o ∈ s.occurrences place, o.violation? ≠ none := by
  match s with
  | .return line value =>
    refine ⟨⟨.returns line value.isSome, place⟩, List.mem_cons_self, ?_⟩
    simp [Occurrence.violation?, outside]
  | .block body =>
    exact Stmt.exists_violation_of_any body (.block · :: place) (fun _ => outside) [] returns
  | .if condition thenBranch none =>
    obtain ⟨o, member, violated⟩ := thenBranch.exists_violation outside returns
    exact ⟨o, by simp [Stmt.occurrences, Stmt.occurrencesOf?, member], violated⟩
  | .if condition thenBranch (some elseBranch) =>
    rcases returns with first | second
    · obtain ⟨o, member, violated⟩ := thenBranch.exists_violation outside first
      exact ⟨o, by simp [Stmt.occurrences, member], violated⟩
    · -- The second branch has a place of its own, in no more functions than the first.
      have inside : Position.function? (.otherwise thenBranch :: place) = none := outside
      obtain ⟨o, member, violated⟩ := elseBranch.exists_violation inside second
      exact ⟨o, by simp [Stmt.occurrences, Stmt.occurrencesOf?, member], violated⟩
  | .while condition body =>
    obtain ⟨o, member, violated⟩ := body.exists_violation outside returns
    exact ⟨o, by simp [Stmt.occurrences, member], violated⟩

theorem Stmt.exists_violation_of_any (ss : List Stmt) (around : List Stmt → Position)
    (outside : ∀ before, (around before).function? = none) (before : List Stmt)
    (returns : Stmt.AnyReturns ss) :
    ∃ o ∈ Stmt.occurrencesOfAll around before ss, o.violation? ≠ none := by
  match ss with
  | s :: ss =>
    rcases returns with here | later
    · obtain ⟨o, member, violated⟩ := s.exists_violation (outside before) here
      exact ⟨o, List.mem_append_left _ member, violated⟩
    · obtain ⟨o, member, violated⟩ :=
        Stmt.exists_violation_of_any ss around outside (before ++ [s]) later
      exact ⟨o, List.mem_append_right _ member, violated⟩

end

theorem Stmt.anyReturns_of_mem {s : Stmt} {ss : List Stmt} (member : s ∈ ss) (returns : s.Returns) :
    Stmt.AnyReturns ss := by
  induction ss with
  | nil => exact absurd member List.not_mem_nil
  | cons other ss ih =>
    rcases List.mem_cons.mp member with rfl | later
    · exact .inl returns
    · exact .inr (ih later)

/-- In an accepted program all returns stand in functions. -/
theorem Program.Accepted.not_returns {program : Program} {lo hi : Nat}
    (accepted : program.Accepted lo hi) {s : Stmt} (member : s ∈ program.statements) :
    ¬s.Returns := by
  intro returns
  have start : Resolver.Stands [] .initial := ⟨rfl, rfl, rfl, fun _ => rfl⟩
  have reports : Resolver.Reports .initial (programOccurrences program.statements) _ :=
    Resolver.reports_statements program.statements Resolver.sequence_program start
  unfold Resolver.Reports at reports
  -- Nothing was reported, so no occurrence is a violation.
  rw [accepted.silent] at reports
  have none_ := List.reverse_eq_nil_iff.mp (List.append_eq_nil_iff.mp reports.symm).1
  obtain ⟨o, found, violated⟩ := Stmt.exists_violation_of_any program.statements
    (fun _ => []) (fun _ => rfl) [] (Stmt.anyReturns_of_mem member returns)
  exact violated (List.filterMap_eq_nil_iff.mp none_ o found)

namespace Eval

/-- Whether a computation completes with a return only under some condition. -/
def ReturnsOnlyIf (P : Prop) (x : Eval Completion) : Prop :=
  ∀ m c m', x m = .ok c m' → c = .normal ∨ P

namespace ReturnsOnlyIf

variable {α : Type} {P Q : Prop} {x y : Eval Completion}

theorem normal (P : Prop) : ReturnsOnlyIf P (pure .normal) := by
  intro m c m' ends
  cases ends
  exact .inl rfl

theorem mono (only : ReturnsOnlyIf P x) (weaker : P → Q) : ReturnsOnlyIf Q x :=
  fun m c m' ends => (only m c m' ends).imp_right weaker

theorem bind {x : Eval α} {f : α → Eval Completion} (only : ∀ a, ReturnsOnlyIf P (f a)) :
    ReturnsOnlyIf P (x >>= f) := by
  intro m c m' ends
  rw [bind_eq] at ends
  cases first : x m with
  | ok a m₁ =>
    rw [first] at ends
    exact only a m₁ c m' ends
  | error stop m₁ =>
    rw [first] at ends
    cases ends

theorem andThen (first : ReturnsOnlyIf P x) (next : ReturnsOnlyIf P y) :
    ReturnsOnlyIf P (x >>= fun
      | .normal => y
      | .returned value => pure (.returned value)) := by
  intro m c m' ends
  rw [bind_eq] at ends
  cases found : x m with
  | error stop m₁ =>
    rw [found] at ends
    cases ends
  | ok completion m₁ =>
    rw [found] at ends
    cases completion with
    | normal => exact next m₁ c m' ends
    | returned value =>
      rcases first m _ m₁ found with normal | holds
      · cases normal
      · exact .inr holds

theorem inFrame (frame : Address) (inside : ReturnsOnlyIf P x) :
    ReturnsOnlyIf P (inFrame frame x) := by
  intro m c m' ends
  unfold Eval.inFrame at ends
  dsimp only at ends
  cases found : x { m with current := frame } with
  | error stop m₁ =>
    rw [found] at ends
    cases ends
  | ok completion m₁ =>
    rw [found] at ends
    cases ends
    exact inside _ _ _ found

end ReturnsOnlyIf

/-- Within a bound, a statement completes with a return only if a return stands in it. -/
structure Revealing (n : Nat) : Prop where
  execute : ∀ s : Stmt, ReturnsOnlyIf s.Returns (execute n s)
  executeWhile : ∀ condition body, ReturnsOnlyIf body.Returns (executeWhile n condition body)
  executeAll : ∀ ss, ReturnsOnlyIf (Stmt.AnyReturns ss) (executeAll n ss)

namespace Revealing

variable {n : Nat}

theorem zero : Revealing 0 :=
  ⟨fun _ _ _ _ => nofun, fun _ _ _ _ _ => nofun, fun _ _ _ _ => nofun⟩

theorem execute_succ (inner : Revealing n) (s : Stmt) :
    ReturnsOnlyIf s.Returns (Lox.execute (n + 1) s) := by
  cases s with
  | expression e => exact .bind fun _ => .normal _
  | print e => exact .bind fun _ => .bind fun _ => .normal _
  | var name initializer =>
    cases initializer with
    | none => exact .bind fun _ => .normal _
    | some e => exact .bind fun _ => .bind fun _ => .normal _
  | block body => exact .bind fun frame => (inner.executeAll body).inFrame frame
  | «if» condition thenBranch elseBranch =>
    refine .bind fun value => ?_
    cases elseBranch with
    | none =>
      cases value.isTruthy with
      | true => exact inner.execute thenBranch
      | false => exact .normal _
    | some elseBranch =>
      cases value.isTruthy with
      | true => exact (inner.execute thenBranch).mono .inl
      | false => exact (inner.execute elseBranch).mono .inr
  | «while» condition body => exact inner.executeWhile condition body
  | function declaration => exact .bind fun _ => .normal _
  | «return» line value => exact fun _ _ _ _ => .inr trivial
  | «class» name parent methods => exact .bind fun _ => .normal _

theorem executeWhile_succ (inner : Revealing n) (condition : Expr) (body : Stmt) :
    ReturnsOnlyIf body.Returns (Lox.executeWhile (n + 1) condition body) := by
  refine .bind fun value => ?_
  cases value.isTruthy with
  | true => exact (inner.execute body).andThen (inner.executeWhile condition body)
  | false => exact .normal _

theorem executeAll_succ (inner : Revealing n) (ss : List Stmt) :
    ReturnsOnlyIf (Stmt.AnyReturns ss) (Lox.executeAll (n + 1) ss) := by
  cases ss with
  | nil => exact .normal _
  | cons s ss =>
    exact ((inner.execute s).mono .inl).andThen ((inner.executeAll ss).mono .inr)

end Revealing

theorem revealing (n : Nat) : Revealing n := by
  induction n with
  | zero => exact .zero
  | succ n ih => exact ⟨ih.execute_succ, ih.executeWhile_succ, ih.executeAll_succ⟩

end Eval

/-! ## Calls -/

/-- How a call answers to the steps of its body. A return is the last step, and nothing was returned
before; its value is that of the call, unless the function is an initializer; and without a return
the call has no value but nil. -/
structure Answered (f : Closure) (steps : List Step) (ending : EStateM.Result Stop Machine Value) :
    Prop where
  last : ∀ value, .returns value ∈ steps →
    ∃ earlier, steps = earlier ++ [.returns value] ∧ Followed.Open earlier
  value : f.isInitializer = false → ∀ value, .returns value ∈ steps → ∃ m, ending = .ok value m
  nil : f.isInitializer = false → Followed.Open steps →
    ∀ value m, ending = .ok value m → value = .nil

namespace Followed

open Told (lift inFrame deeper guarded)

/-- Where nothing was returned, the steps say nothing of the value but that it may be nil. -/
theorem Open.answered {f : Closure} {steps : List Step}
    {ending : EStateM.Result Stop Machine Value} (opened : Open steps)
    (nil : f.isInitializer = false → ∀ value m, ending = .ok value m → value = .nil) :
    Answered f steps ending :=
  ⟨fun value member => absurd member (opened value), fun _ value member =>
    absurd member (opened value), fun plain _ => nil plain⟩

/-- What a call makes of the way its body ended. -/
theorem Settled.answered {f : Closure} {steps : List Step} {completion : Completion} {m' : Machine}
    (settled : Settled steps (.ok completion m')) (line : Nat) :
    Answered f steps (Eval.result f line completion m') := by
  cases completion with
  | normal =>
    refine Open.answered settled fun plain value m ends => ?_
    unfold Eval.result at ends
    rw [plain] at ends
    cases ends
    rfl
  | returned value =>
    obtain ⟨earlier, rfl, opened⟩ := settled
    -- Before the last step nothing was returned, so there is one value only.
    have only {other : Value} (member : .returns other ∈ earlier ++ [.returns value]) :
        other = value := by
      rcases List.mem_append.mp member with early | late
      · exact absurd early (opened other)
      · cases List.mem_singleton.mp late
        rfl
    refine ⟨fun other member => ?_, fun plain other member => ?_, fun _ none_ => ?_⟩
    · rw [only member]
      exact ⟨earlier, rfl, opened⟩
    · rw [only member]
      refine ⟨m', ?_⟩
      unfold Eval.result
      rw [plain]
      rfl
    · exact absurd (List.mem_append_right _ List.mem_cons_self) (none_ value)

/-- A call answers to its body, however that ends. -/
theorem Orderly.answered {x : Followed Completion} (orderly : Orderly x) (f : Closure) (line : Nat)
    (m : Machine) :
    Answered f ((x >>= fun completion => lift (Eval.result f line completion)) m).1
      ((x >>= fun completion => lift (Eval.result f line completion)) m).2 := by
  have settled := orderly m
  simp only [Bind.bind, lift]
  cases found : x m with
  | mk steps ending =>
    rw [found] at settled
    cases ending with
    | error stop m' =>
      refine Open.answered settled fun _ value m' same => ?_
      cases same
    | ok completion m' =>
      dsimp only
      rw [List.append_nil]
      exact settled.answered line

theorem answered_invoke (n : Nat) (f : Closure) (arguments : List Value) (line : Nat)
    (m : Machine) :
    Answered f (invoke n f arguments line m).1 (invoke n f arguments line m).2 := by
  cases n with
  | zero => exact open_nil.answered fun _ _ _ => nofun
  | succ n =>
    have body (frame : Address) :
        Orderly (guarded line (deeper (inFrame frame (executeAll n f.declaration.body)))) :=
      (((keeping n).executeAll _).inFrame frame).inCall line
    simp only [invoke, Told.lift_bind_apply]
    cases Eval.enterFunction f arguments m with
    | ok frame m' => exact (body frame).answered f line m'
    | error stop m' => exact open_nil.answered fun _ _ _ => nofun

end Followed

/-- **A return ends its call and nothing else.** No statement of an accepted program completes with
a return, and no expression ever does. The body of a function does nothing after a return, whatever
blocks, loops and branches are around it, and what was returned is the value of the call. -/
theorem returns_end_their_calls {source : String} {firstId : NodeId} {program : Program}
    (accepted : (checkSource source firstId).outcome = .ok program) :
    (∀ s ∈ program.statements, ∀ (bound : Nat) (m : Machine) (c : Completion) (m' : Machine),
      execute bound s m = .ok c m' → c = .normal) ∧
    (∀ (bound : Nat) (e : Expr) (m : Machine) (c : Completion) (m' : Machine),
      execute bound (.expression e) m = .ok c m' → c = .normal) ∧
    ∀ (bound : Nat) (f : Closure) (arguments : List Value) (line : Nat) (m : Machine),
      (Followed.invoke bound f arguments line m).2 = invoke bound f arguments line m ∧
      Answered f (Followed.invoke bound f arguments line m).1
        (invoke bound f arguments line m) := by
  refine ⟨fun s member bound m c m' ends => ?_, fun bound e m c m' ends => ?_,
    fun bound f arguments line m => ?_⟩
  · have none_ := (accepted_checkSource accepted).not_returns member
    exact ((Eval.revealing bound).execute s m c m' ends).resolve_right none_
  · exact ((Eval.revealing bound).execute (.expression e) m c m' ends).resolve_right id
  · have same := congrFun (Followed.plain_invoke bound f arguments line) m
    exact ⟨same, same ▸ Followed.answered_invoke bound f arguments line m⟩

/-- The loop in the function would go on for ever, but for the return in it. Called with nil on a
new machine that knows the distances of the program, the function returns nil in its last step and
nothing before, and that is the value of the call. -/
theorem return_ends_a_loop :
    ∃ program : Program,
      (checkSource "fun f(x) { while (true) { { return x; } print x; } } print f(nil);" 0).outcome
        = .ok program ∧
      (∀ s ∈ program.statements, ∀ (bound : Nat) (m : Machine) (c : Completion) (m' : Machine),
        execute bound s m = .ok c m' → c = .normal) ∧
      ∃ declaration, program.statements.head? = some (.function declaration) ∧ ∀ clock : Clock,
        let m := (Machine.new .empty .accepting 1 clock).learn program.distances
        let f : Closure := ⟨2, declaration, m.globals, false⟩
        (∃ earlier, (Followed.invoke 20 f [.nil] 1 m).1 = earlier ++ [.returns .nil] ∧
          Followed.Open earlier) ∧
        ∃ m', invoke 20 f [.nil] 1 m = .ok .nil m' := by
  have accepted :
      (checkSource "fun f(x) { while (true) { { return x; } print x; } } print f(nil);" 0).outcome
        = .ok ⟨[.function (.mk ⟨"f", 1⟩ [⟨"x", 1⟩] [.while (.literal (.bool true))
            (.block [.block [.return 1 (some (.variable 0 ⟨"x", 1⟩))],
              .print (.variable 1 ⟨"x", 1⟩)])]),
          .print (.call (.variable 2 ⟨"f", 1⟩) [.literal .nil] 1)],
        .ofList [(0, 2), (1, 1)]⟩ := by cbv
  obtain ⟨statements, -, calls⟩ := returns_end_their_calls accepted
  refine ⟨_, accepted, statements, _, rfl, fun clock => ?_⟩
  intro m f
  have answered := (calls 20 f [.nil] 1 m).2
  have returned : .returns .nil ∈ (Followed.invoke 20 f [.nil] 1 m).1 :=
    List.mem_of_getLast? (by cbv)
  exact ⟨answered.last _ returned, answered.value rfl _ returned⟩

end Lox
