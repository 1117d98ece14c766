import Lox.Parser.Statement
import Lox.Proofs.Syntax
import Lox.Proofs.Runs.Bounds

/-!
# The rounds of a loop

The grammar has a `for` loop, the trees have none: a loop with an initializer, a condition and an
increment is read as a block around a `while` loop, and the body and the increment as a block in it.
Here it is said without these what such a loop does (`ForLoop.Runs`), as a walk through its parts:
the condition, the body, the increment, and the condition again.

The evaluator is given a bound, and a walk has none. What a computation gives in some time
(`Eval.Gives`) does not depend on the bound, so the two can be compared. A run of the loop within a
bound leads along a walk by induction on the bound, and a walk is run within some bound by induction
on the walk (`ForLoop.gives_iff_runs`).
-/

set_option autoImplicit false

namespace Lox

open Eval

namespace Eval

variable {α β : Type}

/-! ## What is given in some time -/

/-- Whether a computation, with some bound, gives a result. -/
def Gives (x : Nat → Eval α) (m : Machine) (result : EStateM.Result Stop Machine α) : Prop :=
  ¬Exhausts result ∧ ∃ bound, x bound m = result

/-- Whether a computation goes the same way within every bound that suffices. -/
def Bounded (x : Nat → Eval α) : Prop :=
  ∀ bound bound' : Nat, bound ≤ bound' → Refines (x bound) (x bound')

/-- What needs no bound. -/
theorem bounded_const (x : Eval α) : Bounded fun _ => x := fun _ _ _ => refines_refl x

theorem not_exhausts_ok (a : α) (m : Machine) : ¬Exhausts (.ok a m) := nofun

theorem exhausts_error_iff {stop : Stop} {m : Machine} :
    Exhausts (.error stop m : EStateM.Result Stop Machine α) ↔ stop = .exhausted := by
  constructor
  · rintro ⟨m', same⟩
    cases same
    rfl
  · rintro rfl
    exact ⟨m, rfl⟩

theorem exhausts_onMachine_iff {result : EStateM.Result Stop Machine α}
    (change : Machine → Machine) : Exhausts (onMachine change result) ↔ Exhausts result := by
  refine ⟨fun used => ?_, fun used => exhausts_onMachine used change⟩
  obtain ⟨m, same⟩ := used
  cases result with
  | ok a m' => cases same
  | error stop m' =>
    cases same
    exact ⟨m', rfl⟩

/-- What is given within some bound is given within all larger ones. -/
theorem Gives.from {x : Nat → Eval α} (bounded : Bounded x) {m : Machine}
    {result : EStateM.Result Stop Machine α} (gives : Gives x m result) :
    ∃ bound, ∀ bound', bound ≤ bound' → x bound' m = result := by
  obtain ⟨enough, bound, runs⟩ := gives
  refine ⟨bound, fun bound' le => ?_⟩
  rcases bounded bound bound' le m with used | same
  · exact absurd (runs ▸ used) enough
  · rw [same, runs]

/-- Only one result is given. -/
theorem Gives.unique {x : Nat → Eval α} (bounded : Bounded x) {m : Machine}
    {result result' : EStateM.Result Stop Machine α} (gives : Gives x m result)
    (gives' : Gives x m result') : result = result' := by
  obtain ⟨bound, runs⟩ := gives.from bounded
  obtain ⟨bound', runs'⟩ := gives'.from bounded
  rw [← runs _ (Nat.le_max_left bound bound'), ← runs' _ (Nat.le_max_right bound bound')]

theorem gives_pure {a : α} {m : Machine} {result : EStateM.Result Stop Machine α} :
    Gives (fun _ => pure a) m result ↔ result = .ok a m := by
  constructor
  · rintro ⟨-, -, rfl⟩
    rfl
  · rintro rfl
    exact ⟨not_exhausts_ok a m, 0, rfl⟩

/-- A sequence gives what its second part gives after the first, or stops where the first does. -/
theorem gives_bind {x : Nat → Eval α} {f : Nat → α → Eval β} (first : Bounded x)
    (second : ∀ a, Bounded fun bound => f bound a) {m : Machine}
    {result : EStateM.Result Stop Machine β} :
    Gives (fun bound => x bound >>= f bound) m result ↔
      (∃ a m', Gives x m (.ok a m') ∧ Gives (fun bound => f bound a) m' result) ∨
      ∃ stop m', Gives x m (.error stop m') ∧ result = .error stop m' := by
  constructor
  · rintro ⟨enough, bound, runs⟩
    have runs : (x bound >>= f bound) m = result := runs
    rw [bind_eq] at runs
    cases ends : x bound m with
    | ok a m' =>
      rw [ends] at runs
      exact .inl ⟨a, m', ⟨not_exhausts_ok a m', bound, ends⟩, enough, bound, runs⟩
    | error stop m' =>
      rw [ends] at runs
      obtain rfl : result = .error stop m' := runs.symm
      rw [exhausts_error_iff] at enough
      exact .inr ⟨stop, m', ⟨mt exhausts_error_iff.mp enough, bound, ends⟩, rfl⟩
  · rintro (⟨a, m', before, after⟩ | ⟨stop, m', before, rfl⟩)
    · obtain ⟨n, runs⟩ := before.from first
      obtain ⟨k, runs'⟩ := after.from (second a)
      refine ⟨after.1, max n k, ?_⟩
      show (x (max n k) >>= f (max n k)) m = result
      rw [bind_eq, runs _ (Nat.le_max_left n k)]
      exact runs' _ (Nat.le_max_right n k)
    · obtain ⟨enough, bound, runs⟩ := before
      rw [exhausts_error_iff] at enough
      exact ⟨mt exhausts_error_iff.mp enough, bound, (bind_eq _ _ m).trans (by rw [runs])⟩

/-- A step of the evaluator gives what its parts give with a smaller bound. -/
theorem gives_succ {x y : Nat → Eval α} (none : x 0 = throw .exhausted)
    (step : ∀ n, x (n + 1) = y n) {m : Machine} {result : EStateM.Result Stop Machine α} :
    Gives x m result ↔ Gives y m result := by
  constructor
  · rintro ⟨enough, bound, runs⟩
    cases bound with
    | zero =>
      rw [none] at runs
      exact absurd ⟨m, runs.symm⟩ enough
    | succ n => exact ⟨enough, n, by rw [← step, runs]⟩
  · rintro ⟨enough, bound, runs⟩
    exact ⟨enough, bound + 1, by rw [step, runs]⟩

/-- What is given in a frame is given with the frame around it put back. -/
theorem gives_inFrame {x : Nat → Eval α} {frame : Address} {m : Machine}
    {result : EStateM.Result Stop Machine α} :
    Gives (fun bound => inFrame frame (x bound)) m result ↔
      ∃ inner, Gives x { m with current := frame } inner ∧
        result = onMachine (fun m' => { m' with current := m.current }) inner := by
  constructor
  · rintro ⟨enough, bound, runs⟩
    have runs : inFrame frame (x bound) m = result := runs
    rw [inFrame_eq] at runs
    subst runs
    exact ⟨_, ⟨fun used => enough (exhausts_onMachine used _), bound, rfl⟩, rfl⟩
  · rintro ⟨inner, ⟨enough, bound, runs⟩, rfl⟩
    refine ⟨fun used => enough ((exhausts_onMachine_iff _).mp used), bound, ?_⟩
    show inFrame frame (x bound) m = _
    rw [inFrame_eq, runs]

/-! ## The evaluator in some time -/

theorem bounded_evaluate (e : Expr) : Bounded (evaluate · e) :=
  fun _ _ le => (refines.related le).evaluate e

theorem bounded_execute (s : Stmt) : Bounded (execute · s) :=
  fun _ _ le => (refines.related le).execute s

theorem bounded_executeAll (ss : List Stmt) : Bounded (executeAll · ss) :=
  fun _ _ le => (refines.related le).executeAll ss

theorem bounded_executeWhile (condition : Expr) (body : Stmt) :
    Bounded (executeWhile · condition body) :=
  fun _ _ le => (refines.related le).executeWhile condition body

end Eval

/-- How a statement that does not end normally ends all that is around it. -/
def Completion.Breaks (result : EStateM.Result Stop Machine Completion) : Prop :=
  ∀ m, result ≠ .ok .normal m

/-- What a statement and what follows it give, where what follows is executed if the statement ends
normally. -/
def Eval.Then (first : EStateM.Result Stop Machine Completion → Prop)
    (next : Machine → EStateM.Result Stop Machine Completion → Prop)
    (result : EStateM.Result Stop Machine Completion) : Prop :=
  (∃ m, first (.ok .normal m) ∧ next m result) ∨ first result ∧ Completion.Breaks result

namespace Eval

variable {m : Machine} {result : EStateM.Result Stop Machine Completion}

/-- Goes on if a statement ended normally. -/
def unlessReturned (next : Eval Completion) : Completion → Eval Completion
  | .normal => next
  | .returned value => pure (.returned value)

theorem bounded_unlessReturned {next : Nat → Eval Completion} (bounded : Bounded next)
    (completion : Completion) : Bounded fun bound => unlessReturned (next bound) completion := by
  cases completion with
  | normal => exact bounded
  | returned value => exact bounded_const _

theorem gives_andThen {x next : Nat → Eval Completion} (first : Bounded x)
    (second : Bounded next) :
    Gives (fun bound => x bound >>= unlessReturned (next bound)) m result ↔
      Then (Gives x m) (Gives next) result := by
  rw [gives_bind first (bounded_unlessReturned second)]
  constructor
  · rintro (⟨completion, m', before, after⟩ | ⟨stop, m', before, rfl⟩)
    · cases completion with
      | normal => exact .inl ⟨m', before, after⟩
      | returned value =>
        obtain rfl := gives_pure.mp after
        exact .inr ⟨before, nofun⟩
    · exact .inr ⟨before, nofun⟩
  · rintro (⟨m', before, after⟩ | ⟨before, breaks⟩)
    · exact .inl ⟨.normal, m', before, after⟩
    · cases result with
      | error stop m' => exact .inr ⟨stop, m', before, rfl⟩
      | ok completion m' =>
        cases completion with
        | normal => exact absurd rfl (breaks m')
        | returned value => exact .inl ⟨.returned value, m', before, gives_pure.mpr rfl⟩

theorem gives_executeAll_nil : Gives (executeAll · []) m result ↔ result = .ok .normal m :=
  (gives_succ rfl fun _ => rfl).trans gives_pure

theorem gives_executeAll_cons (s : Stmt) (ss : List Stmt) :
    Gives (executeAll · (s :: ss)) m result ↔
      Then (Gives (execute · s) m) (Gives (executeAll · ss)) result :=
  (gives_succ rfl fun _ => rfl).trans
    (gives_andThen (bounded_execute s) (bounded_executeAll ss))

/-- An expression statement ends normally if its expression has a value. -/
theorem gives_expression (e : Expr) :
    Gives (execute · (.expression e)) m result ↔
      (∃ value m', Gives (evaluate · e) m (.ok value m') ∧ result = .ok .normal m') ∨
      ∃ stop m', Gives (evaluate · e) m (.error stop m') ∧ result = .error stop m' := by
  have step (n : Nat) : execute (n + 1) (.expression e)
      = evaluate n e >>= fun _ => pure .normal := rfl
  rw [gives_succ rfl step, gives_bind (bounded_evaluate e) fun _ => bounded_const _]
  simp only [gives_pure]

end Eval

/-- A machine in a new block. -/
def Machine.opened (m : Machine) : Machine :=
  { m with heap := (m.heap.allocateFrame (some m.current) .empty).2, current := m.heap.cells.size }

/-- A result from which the frame around is gone back to. -/
def Machine.restoring (m : Machine) :
    EStateM.Result Stop Machine Completion → EStateM.Result Stop Machine Completion :=
  onMachine fun m' => { m' with current := m.current }

namespace Eval

variable {m : Machine} {result : EStateM.Result Stop Machine Completion}

/-- A block gives what its statements give in a new frame. -/
theorem gives_block (body : List Stmt) :
    Gives (execute · (.block body)) m result ↔
      ∃ inner, Gives (executeAll · body) m.opened inner ∧ result = m.restoring inner := by
  have step (n : Nat) : execute (n + 1) (.block body)
      = openBlock >>= fun frame => inFrame frame (executeAll n body) := rfl
  have opens : Gives (fun _ => openBlock) m (.ok m.heap.cells.size
      { m with heap := (m.heap.allocateFrame (some m.current) .empty).2 }) :=
    ⟨not_exhausts_ok _ _, 0, rfl⟩
  rw [gives_succ rfl step, gives_bind (bounded_const _) fun frame n k le =>
    (bounded_executeAll body n k le).inFrame frame]
  constructor
  · rintro (⟨frame, m', opened, inside⟩ | ⟨stop, m', opened, -⟩)
    · cases opened.unique (bounded_const _) opens
      exact gives_inFrame.mp inside
    · cases opened.unique (bounded_const _) opens
  · intro inside
    exact .inl ⟨_, _, opens, gives_inFrame.mpr inside⟩

theorem then_congr {first : EStateM.Result Stop Machine Completion → Prop}
    {next next' : Machine → EStateM.Result Stop Machine Completion → Prop}
    (same : ∀ m result, next m result ↔ next' m result) :
    Then first next result ↔ Then first next' result :=
  or_congr_left (exists_congr fun m => and_congr_right fun _ => same m result)

/-- Where what follows does nothing, a statement gives what it gives. -/
theorem then_normal {first : EStateM.Result Stop Machine Completion → Prop} :
    Then first (fun m result => result = .ok .normal m) result ↔ first result := by
  constructor
  · rintro (⟨m, before, rfl⟩ | ⟨before, -⟩)
    · exact before
    · exact before
  · intro before
    by_cases normal : ∃ m, result = .ok .normal m
    · obtain ⟨m, rfl⟩ := normal
      exact .inl ⟨m, before, rfl⟩
    · exact .inr ⟨before, fun m same => normal ⟨m, same⟩⟩

theorem executeWhile_succ (n : Nat) (condition : Expr) (body : Stmt) :
    executeWhile (n + 1) condition body = evaluate n condition >>= fun value =>
      if value.isTruthy = true then
        execute n body >>= unlessReturned (executeWhile n condition body)
      else pure .normal := by
  rw [executeWhile]
  refine congrArg (evaluate n condition >>= ·) (funext fun value => ?_)
  refine congrArg (ite _ · _) (congrArg (execute n body >>= ·) (funext fun completion => ?_))
  cases completion <;> rfl

/-- A loop that goes on gives what its body and the loop after it give. -/
theorem gives_executeWhile (condition : Expr) (body : Stmt) :
    Gives (executeWhile · condition body) m result ↔
      (∃ value m', Gives (evaluate · condition) m (.ok value m') ∧
        if value.isTruthy = true then
          Then (Gives (execute · body) m') (Gives (executeWhile · condition body)) result
        else result = .ok .normal m') ∨
      ∃ stop m', Gives (evaluate · condition) m (.error stop m') ∧ result = .error stop m' := by
  have onwards := bounded_executeWhile condition body
  have rest (value : Value) : Bounded fun n =>
      if value.isTruthy = true then
        execute n body >>= unlessReturned (executeWhile n condition body)
      else pure .normal := by
    intro n k le
    split
    · exact (bounded_execute body n k le).bind (bounded_unlessReturned onwards · n k le)
    · exact refines_refl _
  rw [gives_succ rfl (executeWhile_succ · condition body),
    gives_bind (bounded_evaluate condition) rest]
  refine or_congr_left (exists_congr fun value => exists_congr fun m' => and_congr_right fun _ => ?_)
  split
  · exact gives_andThen (bounded_execute body) onwards
  · exact gives_pure

end Eval

/-! ## Loops as they are written -/

/-- Whether a statement may begin a `for` loop: the declaration of a variable, or an expression. -/
def Stmt.beginsLoop : Stmt → Bool
  | .var _ _ | .expression _ => true
  | .print _ | .block _ | .if _ _ _ | .while _ _ | .function _ | .return _ _ | .class _ _ _ => false

/-- The parts of a `for` loop. -/
structure ForLoop where
  initializer : Option Stmt
  condition : Option Expr
  increment : Option Expr
  body : Stmt
  begins : ∀ s ∈ initializer, s.beginsLoop = true
  plain : body.isPlain = true

namespace ForLoop

variable (l : ForLoop)

/-- The statement as which the loop is read. -/
def statement : Stmt :=
  Parser.forLoop l.initializer l.condition l.increment l.body

/-- What is tested before each round: the condition, or `true` if there is none. -/
def test : Expr :=
  l.condition.getD (.literal (.bool true))

/-- The increment, if there is one. -/
def step (bound : Nat) : Eval Completion :=
  match l.increment with
  | some e => do
    let _ ← evaluate bound e
    return .normal
  | none => return .normal

/-- The machine in which a round begins. The increment shares a block with the body. -/
def enter (m : Machine) : Machine :=
  match l.increment with
  | some _ => m.opened
  | none => m

/-- What a loop is about to do. -/
inductive Moment where
  | test
  | body
  | increment

/-- The moments that a loop passes from a machine on: before its first round and again after each
increment it is tested, if the test holds the body is executed, and if that ends normally the
increment follows. -/
inductive Passes (start : Machine) : Moment → Machine → Prop
  | first : Passes start .test start
  | body {m m' : Machine} {value : Value} (here : Passes start .test m)
      (tested : Gives (evaluate · l.test) m (.ok value m')) (holds : value.isTruthy = true) :
      Passes start .body (l.enter m')
  | increment {m m' : Machine} (here : Passes start .body m)
      (ran : Gives (execute · l.body) m (.ok .normal m')) : Passes start .increment m'
  | again {m m' : Machine} (here : Passes start .increment m)
      (stepped : Gives l.step m (.ok .normal m')) :
      Passes start .test { m' with current := start.current }

/-- How a loop ends: normally once the test fails, or at once if a part of it stops or the body
returns, with the same outcome. -/
inductive Ends (start : Machine) : EStateM.Result Stop Machine Completion → Prop
  | done {m m' : Machine} {value : Value} (here : l.Passes start .test m)
      (tested : Gives (evaluate · l.test) m (.ok value m')) (fails : value.isTruthy = false) :
      Ends start (.ok .normal m')
  | untested {m m' : Machine} {stop : Stop} (here : l.Passes start .test m)
      (stops : Gives (evaluate · l.test) m (.error stop m')) : Ends start (.error stop m')
  | returned {m m' : Machine} {value : Value} (here : l.Passes start .body m)
      (returns : Gives (execute · l.body) m (.ok (.returned value) m')) :
      Ends start (start.restoring (.ok (.returned value) m'))
  | failed {m m' : Machine} {stop : Stop} (here : l.Passes start .body m)
      (stops : Gives (execute · l.body) m (.error stop m')) :
      Ends start (start.restoring (.error stop m'))
  | unstepped {m m' : Machine} {stop : Stop} (here : l.Passes start .increment m)
      (stops : Gives l.step m (.error stop m')) : Ends start (start.restoring (.error stop m'))

/-- What a loop does: the initializer, if there is one, is executed once in a new frame, and there
the rounds follow. -/
inductive Runs (m : Machine) : EStateM.Result Stop Machine Completion → Prop
  | rounds {result : EStateM.Result Stop Machine Completion} (absent : l.initializer = none)
      (ends : l.Ends m result) : Runs m result
  | initialized {s : Stmt} {m₁ : Machine} {result : EStateM.Result Stop Machine Completion}
      (present : l.initializer = some s)
      (ran : Gives (execute · s) m.opened (.ok .normal m₁)) (ends : l.Ends m₁ result) :
      Runs m (m.restoring result)
  | failed {s : Stmt} {m₁ : Machine} {stop : Stop} (present : l.initializer = some s)
      (stops : Gives (execute · s) m.opened (.error stop m₁)) :
      Runs m (m.restoring (.error stop m₁))

/-! ## The statement does the same -/

/-- The body of the loop as it is read: with the increment in a block, if there is one. -/
def round : Stmt :=
  match l.increment with
  | some e => .block [l.body, .expression e]
  | none => l.body

/-- The loop without its initializer. -/
def rounds : Stmt := .while l.test l.round

theorem statement_eq :
    l.statement = match l.initializer with
      | some s => .block [s, l.rounds]
      | none => l.rounds := rfl

variable {l} {m m' start : Machine} {result : EStateM.Result Stop Machine Completion}

theorem step_of_none (absent : l.increment = none) : l.step = fun _ => pure .normal := by
  unfold step
  rw [absent]

theorem step_of_some {e : Expr} (present : l.increment = some e) :
    l.step = fun bound => evaluate bound e >>= fun _ => pure .normal := by
  unfold step
  rw [present]

theorem gives_step_of_some {e : Expr} (present : l.increment = some e) :
    Gives l.step m result ↔ Gives (execute · (.expression e)) m result := by
  have step (n : Nat) : execute (n + 1) (.expression e)
      = evaluate n e >>= fun _ => pure .normal := rfl
  rw [step_of_some present]
  exact (gives_succ rfl step).symm

/-- The increment is an expression and returns nothing. -/
theorem step_normal {completion : Completion} (gives : Gives l.step m (.ok completion m')) :
    completion = .normal := by
  cases inc : l.increment with
  | none =>
    rw [step_of_none inc, gives_pure] at gives
    cases gives
    rfl
  | some e =>
    rw [gives_step_of_some inc, gives_expression] at gives
    rcases gives with ⟨value, m₁, -, same⟩ | ⟨stop, m₁, -, same⟩
    · cases same
      rfl
    · cases same

/-- A statement goes back to its frame by itself. -/
theorem restoring_of_gives {s : Stmt} (gives : Gives (execute · s) m result) :
    m.restoring result = result := by
  obtain ⟨-, bound, runs⟩ := gives
  have runs : execute bound s m = result := runs
  have kept := (restoring bound).execute s m
  unfold leaves at kept
  rw [runs] at kept
  unfold Machine.restoring
  cases result with
  | ok completion m' => exact congrArg (EStateM.Result.ok completion) (by rw [← kept.current])
  | error stop m' => exact congrArg (EStateM.Result.error stop) (by rw [← kept.current])

theorem current_of_test {value : Value} (gives : Gives (evaluate · l.test) m (.ok value m')) :
    m'.current = m.current := by
  obtain ⟨-, bound, runs⟩ := gives
  exact (((restoring bound).evaluate l.test).of_ok runs).current

/-- A round gives what the body and the increment give, and goes back to the frame around. -/
theorem gives_round :
    Gives (execute · l.round) m result ↔
      ∃ inner, Then (Gives (execute · l.body) (l.enter m)) (Gives l.step) inner ∧
        result = m.restoring inner := by
  cases inc : l.increment with
  | none =>
    -- Without an increment a round is the body alone and opens no frame.
    have entered : l.enter m = m := by
      unfold enter
      rw [inc]
    have round : l.round = l.body := by
      unfold round
      rw [inc]
    have stays (m₁ : Machine) (inner : EStateM.Result Stop Machine Completion) :
        Gives l.step m₁ inner ↔ inner = .ok .normal m₁ := by
      rw [step_of_none inc, gives_pure]
    rw [entered, round]
    have whole (inner : EStateM.Result Stop Machine Completion) :
        Then (Gives (execute · l.body) m) (Gives l.step) inner ↔
          Gives (execute · l.body) m inner := (then_congr stays).trans then_normal
    constructor
    · intro gives
      exact ⟨result, (whole result).mpr gives, (restoring_of_gives gives).symm⟩
    · rintro ⟨inner, gives, rfl⟩
      have gives := (whole inner).mp gives
      rwa [restoring_of_gives gives]
  | some e =>
    have entered : l.enter m = m.opened := by
      unfold enter
      rw [inc]
    have round : l.round = .block [l.body, .expression e] := by
      unfold round
      rw [inc]
    have last (m₁ : Machine) (inner : EStateM.Result Stop Machine Completion) :
        Gives (executeAll · [.expression e]) m₁ inner ↔ Gives l.step m₁ inner := by
      rw [gives_executeAll_cons, gives_step_of_some inc, then_congr fun _ _ => gives_executeAll_nil]
      exact then_normal
    rw [entered, round, gives_block]
    refine exists_congr fun inner => and_congr_left fun _ => ?_
    rw [gives_executeAll_cons, then_congr last]

/-- Each round begins in the frame of the loop. -/
theorem Passes.current (passes : l.Passes start .test m) : m.current = start.current := by
  cases passes <;> rfl

/-- From where a loop is tested the first time it gives what it gives from where it is tested
again. -/
theorem Passes.carries {moment : Moment} {m : Machine} (passes : l.Passes start moment m)
    (here : moment = .test) (gives : Gives (executeWhile · l.test l.round) m result) :
    Gives (executeWhile · l.test l.round) start result := by
  match passes with
  | .first => exact gives
  | .again (.increment (.body before tested holds) ran) steps =>
    refine before.carries rfl ((gives_executeWhile l.test l.round).mpr (.inl ⟨_, _, tested, ?_⟩))
    rw [if_pos holds]
    refine .inl ⟨_, gives_round.mpr ⟨_, .inl ⟨_, ran, steps⟩, ?_⟩, gives⟩
    unfold Machine.restoring
    rw [(current_of_test tested).trans before.current]
    rfl

/-- How a loop ends, its statement gives. -/
theorem Ends.gives (ends : l.Ends start result) :
    Gives (executeWhile · l.test l.round) start result := by
  -- A round that breaks off ends the loop, wherever in the round it does so.
  have broken {m m₁ : Machine} {value : Value} {inner : EStateM.Result Stop Machine Completion}
      (here : l.Passes start .test m) (tested : Gives (evaluate · l.test) m (.ok value m₁))
      (holds : value.isTruthy = true)
      (round : Then (Gives (execute · l.body) (l.enter m₁)) (Gives l.step) inner)
      (breaks : Completion.Breaks (start.restoring inner)) :
      Gives (executeWhile · l.test l.round) start (start.restoring inner) := by
    refine here.carries rfl ((gives_executeWhile l.test l.round).mpr (.inl ⟨_, _, tested, ?_⟩))
    rw [if_pos holds]
    refine .inr ⟨gives_round.mpr ⟨inner, round, ?_⟩, breaks⟩
    unfold Machine.restoring
    rw [(current_of_test tested).trans here.current]
  cases ends with
  | done here tested fails =>
    refine here.carries rfl ((gives_executeWhile l.test l.round).mpr (.inl ⟨_, _, tested, ?_⟩))
    rw [if_neg (by rw [fails]; exact Bool.false_ne_true)]
  | untested here stops =>
    exact here.carries rfl ((gives_executeWhile l.test l.round).mpr (.inr ⟨_, _, stops, rfl⟩))
  | returned here returns =>
    cases here with
    | body here tested holds => exact broken here tested holds (.inr ⟨returns, nofun⟩) nofun
  | failed here stops =>
    cases here with
    | body here tested holds => exact broken here tested holds (.inr ⟨stops, nofun⟩) nofun
  | unstepped here stops =>
    cases here with
    | increment here ran =>
      cases here with
      | body here tested holds => exact broken here tested holds (.inl ⟨_, ran, stops⟩) nofun

/-- A round that begins at a test goes on to the next one or ends the loop. -/
theorem Passes.round {m₁ : Machine} {value : Value} (here : l.Passes start .test m)
    (tested : Gives (evaluate · l.test) m (.ok value m₁)) (holds : value.isTruthy = true)
    (gives : Gives (execute · l.round) m₁ result) :
    (∃ m₂, result = .ok .normal m₂ ∧ l.Passes start .test m₂) ∨
      Completion.Breaks result ∧ l.Ends start result := by
  have body := Passes.body here tested holds
  obtain ⟨inner, round, rfl⟩ := gives_round.mp gives
  have back : m₁.restoring inner = start.restoring inner := by
    unfold Machine.restoring
    rw [(current_of_test tested).trans here.current]
  rw [back]
  rcases round with ⟨m₂, ran, steps⟩ | ⟨ran, breaks⟩
  · cases inner with
    | ok completion m₃ =>
      obtain rfl := step_normal steps
      exact .inl ⟨_, rfl, .again (.increment body ran) steps⟩
    | error stop m₃ => exact .inr ⟨nofun, .unstepped (.increment body ran) steps⟩
  · cases inner with
    | ok completion m₃ =>
      cases completion with
      | normal => exact absurd rfl (breaks m₃)
      | returned value => exact .inr ⟨nofun, .returned body ran⟩
    | error stop m₃ => exact .inr ⟨nofun, .failed body ran⟩

/-- What a loop gives within a bound from a test on is how it ends. -/
theorem Passes.ends (here : l.Passes start .test m) (bound : Nat)
    (runs : executeWhile bound l.test l.round m = result) (enough : ¬Exhausts result) :
    l.Ends start result := by
  -- By induction on the bound, since a loop may go on for ever: each turn is run with a smaller one.
  induction bound generalizing m with
  | zero => exact absurd ⟨m, runs.symm⟩ enough
  | succ n ih =>
    rw [executeWhile_succ, bind_eq] at runs
    cases test : evaluate n l.test m with
    | error stop m₁ =>
      rw [test] at runs
      obtain rfl : result = .error stop m₁ := runs.symm
      rw [exhausts_error_iff] at enough
      exact .untested here ⟨mt exhausts_error_iff.mp enough, n, test⟩
    | ok value m₁ =>
      rw [test] at runs
      have tested : Gives (evaluate · l.test) m (.ok value m₁) := ⟨not_exhausts_ok _ _, n, test⟩
      dsimp only at runs
      split at runs
      · next holds =>
        rw [bind_eq] at runs
        cases ran : execute n l.round m₁ with
        | error stop m₂ =>
          rw [ran] at runs
          obtain rfl : result = .error stop m₂ := runs.symm
          rcases here.round tested holds ⟨enough, n, ran⟩ with ⟨_, same, _⟩ | ⟨_, ends⟩
          · cases same
          · exact ends
        | ok completion m₂ =>
          rw [ran] at runs
          rcases here.round tested holds ⟨not_exhausts_ok _ _, n, ran⟩ with
            ⟨_, same, next⟩ | ⟨breaks, ends⟩
          · cases same
            exact ih next runs
          · cases completion with
            | normal => exact absurd rfl (breaks m₂)
            | returned value =>
              obtain rfl : result = .ok (.returned value) m₂ := runs.symm
              exact ends
      · next fails =>
        obtain rfl : result = .ok .normal m₁ := runs.symm
        exact .done here tested (Bool.eq_false_iff.mpr fails)

theorem gives_rounds_iff : Gives (execute · l.rounds) start result ↔ l.Ends start result := by
  rw [rounds, gives_succ rfl fun _ => rfl]
  exact ⟨fun ⟨enough, bound, runs⟩ => Passes.first.ends bound runs enough, Ends.gives⟩

/-- An initializer does not return. -/
theorem initializer_normal {s : Stmt} (begins : s.beginsLoop = true) {completion : Completion}
    (gives : Gives (execute · s) m (.ok completion m')) : completion = .normal := by
  have last {α : Type} {x : Eval α} {f : α → Eval Completion}
      (each : ∀ a m₁, f a m₁ = .ok completion m' → completion = .normal)
      (runs : (x >>= f) m = .ok completion m') : completion = .normal := by
    rw [bind_eq] at runs
    cases ran : x m with
    | ok a m₁ =>
      rw [ran] at runs
      exact each a m₁ runs
    | error stop m₁ =>
      rw [ran] at runs
      cases runs
  obtain ⟨-, bound, runs⟩ := gives
  have runs : execute bound s m = .ok completion m' := runs
  cases bound with
  | zero => cases runs
  | succ n =>
    cases s with
    | expression e => exact last (fun _ _ same => by cases same; rfl) runs
    | var name value =>
      cases value with
      | none =>
        cases runs
        rfl
      | some e => exact last (fun _ _ same => by cases same; rfl) runs
    | _ => cases begins

/-- **What a `for` loop does.** -/
theorem gives_iff_runs (l : ForLoop) (m : Machine)
    (result : EStateM.Result Stop Machine Completion) :
    Gives (execute · l.statement) m result ↔ l.Runs m result := by
  rw [statement_eq]
  cases init : l.initializer with
  | none =>
    dsimp only
    rw [gives_rounds_iff]
    constructor
    · exact .rounds init
    · rintro (⟨-, ends⟩ | ⟨present, -, -⟩ | ⟨present, -⟩)
      · exact ends
      · rw [init] at present
        cases present
      · rw [init] at present
        cases present
  | some s =>
    -- The rounds are the last statement of the block that the initializer opens.
    have last (m₁ : Machine) (inner : EStateM.Result Stop Machine Completion) :
        Gives (executeAll · [l.rounds]) m₁ inner ↔ l.Ends m₁ inner := by
      rw [gives_executeAll_cons, then_congr fun _ _ => gives_executeAll_nil, then_normal,
        gives_rounds_iff]
    dsimp only
    rw [gives_block]
    constructor
    · rintro ⟨inner, gives, rfl⟩
      rw [gives_executeAll_cons, then_congr last] at gives
      rcases gives with ⟨m₁, ran, ends⟩ | ⟨stops, breaks⟩
      · exact .initialized init ran ends
      · cases inner with
        | error stop m₁ => exact .failed init stops
        | ok completion m₁ =>
          obtain rfl := initializer_normal (l.begins s init) stops
          exact absurd rfl (breaks m₁)
    · rintro (⟨absent, -⟩ | ⟨present, ran, ends⟩ | ⟨present, stops⟩)
      · rw [init] at absent
        cases absent
      · obtain rfl := Option.some.inj (init.symm.trans present)
        refine ⟨_, ?_, rfl⟩
        rw [gives_executeAll_cons, then_congr last]
        exact .inl ⟨_, ran, ends⟩
      · obtain rfl := Option.some.inj (init.symm.trans present)
        refine ⟨_, ?_, rfl⟩
        rw [gives_executeAll_cons]
        exact .inr ⟨stops, nofun⟩

end ForLoop

end Lox
