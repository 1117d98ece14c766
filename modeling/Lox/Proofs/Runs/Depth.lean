import Lox.Proofs.Runs.Accounts
import Lox.Proofs.Scoping.Dispatch

/-!
# The depth is exact

Every run of the evaluator is accounted for by its moments (`accounting`), by induction on the bound. So
at each moment of a session the depth is the number of function bodies that are running, also while
an error or a return leaves them; calls overflow where the limit is reached and nowhere else.

Functions of the host, and classes that neither have nor inherit an initializer, have no body that
would run (`Value.body?`), so their calls are not counted and cannot overflow.
-/

set_option autoImplicit false

namespace Lox

open Eval

variable {sites : Expr → Prop}

/-- All functions of the evaluator are accounted for by their moments within a bound. -/
structure Accounting (bound : Nat) : Prop where
  evaluate (sites : Expr → Prop) (e : Expr) : Accounts sites (Traced.evaluate bound e)
  evaluateAll (sites : Expr → Prop) (es : List Expr) : Accounts sites (Traced.evaluateAll bound es)
  call {sites : Expr → Prop} {site : CallSite} (met : sites site.expr) (callee : Value)
    (arguments : List Value) : Accounts sites (Traced.call bound site callee arguments)
  invoke {sites : Expr → Prop} {site : CallSite} (met : sites site.expr) {callee : Value}
    {f : Closure} (runs : callee.body? = some f.declaration) (arguments : List Value) :
    Accounts sites (Traced.invoke bound site callee f arguments)
  execute (sites : Expr → Prop) (s : Stmt) : Accounts sites (Traced.execute bound s)
  executeWhile (sites : Expr → Prop) (condition : Expr) (body : Stmt) :
    Accounts sites (Traced.executeWhile bound condition body)
  executeAll (sites : Expr → Prop) (ss : List Stmt) : Accounts sites (Traced.executeAll bound ss)

namespace Accounting

variable {n : Nat}

theorem zero : Accounting 0 := by
  constructor <;> intros <;> exact .lift calm_exhausted

theorem evaluate_succ (inner : Accounting n) (sites : Expr → Prop) (e : Expr) :
    Accounts sites (Traced.evaluate (n + 1) e) := by
  -- While its parts are evaluated, the expression itself has been met.
  refine .within (fun site => sites site ∨ site = e) (fun _ => rfl) (fun m => .inl ⟨e, rfl⟩)
    (fun m site known => known.imp id fun same => ⟨m, ?_⟩) ?_
  · rw [same]
    exact List.mem_singleton_self _
  cases e with
  | literal value => exact .pure _
  | grouping e => exact inner.evaluate _ e
  | unary op right line =>
    exact (inner.evaluate _ right).bind fun _ => .lift (oblivious_unary _ _ _).calm
  | binary left op right line =>
    exact (inner.evaluate _ left).bind fun _ =>
      (inner.evaluate _ right).bind fun _ => .lift (oblivious_binary _ _ _ _).calm
  | logical left op right =>
    refine (inner.evaluate _ left).bind fun value => ?_
    cases op.stopsAt value with
    | true => exact .pure value
    | false => exact inner.evaluate _ right
  | «variable» id name => exact .after_note (fun _ => rfl) (.lift (oblivious_lookUp _ _ _).calm)
  | assign id name value =>
    exact (inner.evaluate _ value).bind fun value => .after_note (fun _ => rfl) <|
      (Accounts.lift (oblivious_assign _ _ _).calm).bind fun _ => .pure value
  | call callee arguments line =>
    exact (inner.evaluate _ callee).bind fun value =>
      (inner.evaluateAll _ arguments).bind fun values =>
        (Accounts.lift (oblivious_checkCall _ _ _).calm).bind fun _ =>
          inner.call (.inr rfl) value values
  | get object name =>
    refine (inner.evaluate _ object).bind fun receiver => .quiet ?_ ?_
    · exact Traced.silent_property (fun _ _ _ => rfl) (fun _ _ _ _ => rfl) receiver name
    · rw [Traced.plain_property]
      exact (oblivious_property _ _).calm
  | set object name value =>
    refine (inner.evaluate _ object).bind fun receiver => ?_
    cases receiver with
    | «instance» i =>
      exact (inner.evaluate _ value).bind fun value => .after_note (fun _ => rfl) <|
        (Accounts.lift (oblivious_setField _ _ _).calm).bind fun _ => .pure value
    | nil | bool | number | string | native | closure | «class» =>
      exact .lift (oblivious_fail .setsFieldOfNonInstance name.line nofun).calm
  | this id line => exact .after_note (fun _ => rfl) (.lift (oblivious_lookUp _ _ _).calm)
  | super id line method =>
    refine .after_note (fun _ => rfl) (.quiet ?_ ?_)
    · exact Traced.silent_superMethod (fun _ _ _ _ => rfl) id line method.lexeme
    · rw [Traced.plain_superMethod]
      exact (oblivious_superMethod _ _ _).calm

theorem evaluateAll_succ (inner : Accounting n) (sites : Expr → Prop) (es : List Expr) :
    Accounts sites (Traced.evaluateAll (n + 1) es) := by
  cases es with
  | nil => exact .pure _
  | cons e es =>
    exact (inner.evaluate _ e).bind fun value =>
      (inner.evaluateAll _ es).bind fun values => .pure (value :: values)

theorem call_succ (inner : Accounting n) {site : CallSite} (met : sites site.expr) (callee : Value)
    (arguments : List Value) : Accounts sites (Traced.call (n + 1) site callee arguments) := by
  unfold Traced.call
  cases callee with
  | native f => exact Accounts.plain_call met rfl (oblivious_callNative f arguments site.line).calm
  | closure f => exact inner.invoke met rfl arguments
  | «class» c =>
    refine .after_note (fun _ => rfl) ?_
    have made : Accounts sites (Traced.newInstance c) :=
      .quiet (Told.silent_telling fun _ _ => rfl) (by
        rw [Traced.plain_newInstance]
        exact (oblivious_create _).calm)
    refine made.bind fun i => ?_
    cases found : c.method? initializerName with
    | none =>
      have bodiless : (Value.class c).body? = none := by rw [Value.body?, found]; rfl
      exact Accounts.plain_call met bodiless (oblivious_pure (Value.instance i)).calm
    | some method =>
      have binds : Accounts sites (Traced.bindMethod method i) :=
        .quiet (Told.silent_telling fun _ _ => rfl) (by
          rw [Traced.plain_bindMethod]
          exact (oblivious_create _).calm)
      refine binds.bind_given fun init bound => ?_
      have runs : (Value.class c).body? = some init.declaration := by
        obtain ⟨m, m', ends⟩ := bound
        rw [Traced.plain_bindMethod] at ends
        rw [Value.body?, found, ← (EStateM.Result.ok.inj ends).1]
        rfl
      exact (inner.invoke met runs arguments).bind fun _ => .pure (Value.instance i)
  | nil | bool | number | string | «instance» =>
    exact Accounts.lift (oblivious_fail .notCallable site.line (by rintro ⟨⟩)).calm

theorem invoke_succ (inner : Accounting n) {site : CallSite} (met : sites site.expr) {callee : Value}
    {f : Closure} (runs : callee.body? = some f.declaration) (arguments : List Value) :
    Accounts sites (Traced.invoke (n + 1) site callee f arguments) := by
  refine .after_note (fun _ => rfl) ?_
  have entered : Accounts sites (Traced.enterFunction f arguments) := by
    refine .quiet (Traced.silent_enterFunction (fun _ _ _ => rfl) (fun _ _ _ _ => rfl) _ _) ?_
    rw [Traced.plain_enterFunction]
    exact (oblivious_enterFunction f arguments).calm
  exact entered.bind fun frame =>
    (Accounts.carryOut met runs ((inner.executeAll _ _).inFrame frame)).bind fun completion =>
      .lift (oblivious_result f site.line completion).calm

theorem execute_succ (inner : Accounting n) (sites : Expr → Prop) (s : Stmt) :
    Accounts sites (Traced.execute (n + 1) s) := by
  refine .within sites (fun _ => rfl) (fun m => .inr ⟨s, rfl⟩) (fun _ _ known => .inl known) ?_
  cases s with
  | expression e => exact (inner.evaluate _ e).bind fun _ => .pure _
  | print e =>
    exact (inner.evaluate _ e).bind fun _ =>
      (Accounts.lift (calm_print _ _)).bind fun _ => .pure _
  | var name initializer =>
    have defined (value : Value) : Accounts sites
        (Told.lift (define name.lexeme value) >>= fun _ => Pure.pure Completion.normal) :=
      (Accounts.lift (oblivious_define _ _).calm).bind fun _ => .pure _
    cases initializer with
    | none => exact defined .nil
    | some e => exact (inner.evaluate _ e).bind defined
  | block body =>
    have opened : Accounts sites (Traced.openBlock body) := by
      refine .quiet (Traced.silent_openBlock (fun _ _ => rfl) (fun _ _ _ _ => rfl) _) ?_
      rw [Traced.plain_openBlock]
      exact oblivious_openBlock.calm
    exact opened.bind fun frame => (inner.executeAll _ body).inFrame frame
  | «if» condition thenBranch elseBranch =>
    refine (inner.evaluate _ condition).bind fun value => ?_
    cases value.isTruthy with
    | true => exact inner.execute _ thenBranch
    | false =>
      cases elseBranch with
      | none => exact .pure _
      | some s => exact inner.execute _ s
  | «while» condition body => exact inner.executeWhile _ condition body
  | function declaration =>
    have declared : Accounts sites (Traced.declareFunction declaration) := by
      refine .quiet (Traced.silent_declareFunction (fun _ _ => rfl) _) ?_
      rw [Traced.plain_declareFunction]
      exact (oblivious_declareFunction _).calm
    exact declared.bind fun _ => .pure _
  | «return» line value =>
    cases value with
    | none => exact .pure _
    | some e => exact (inner.evaluate _ e).bind fun value => .pure (Completion.returned value)
  | «class» name parent methods =>
    have declared : Accounts sites (Traced.declareClass name parent methods) := by
      refine .quiet (Traced.silent_declareClass (fun _ _ => rfl) (fun _ _ _ => rfl)
        (fun _ _ _ _ => rfl) (fun _ _ => rfl) _ _ _) ?_
      rw [Traced.plain_declareClass]
      exact (oblivious_declareClass _ _ _).calm
    exact declared.bind fun _ => .pure _

theorem executeWhile_succ (inner : Accounting n) (sites : Expr → Prop) (condition : Expr)
    (body : Stmt) : Accounts sites (Traced.executeWhile (n + 1) condition body) := by
  refine (inner.evaluate _ condition).bind fun value => ?_
  cases value.isTruthy with
  | false => exact .pure _
  | true =>
    refine (inner.execute _ body).bind fun completion => ?_
    cases completion with
    | normal => exact inner.executeWhile _ condition body
    | returned value => exact .pure (Completion.returned value)

theorem executeAll_succ (inner : Accounting n) (sites : Expr → Prop) (ss : List Stmt) :
    Accounts sites (Traced.executeAll (n + 1) ss) := by
  cases ss with
  | nil => exact .pure _
  | cons s ss =>
    refine (inner.execute _ s).bind fun completion => ?_
    cases completion with
    | normal => exact inner.executeAll _ ss
    | returned value => exact .pure (Completion.returned value)

theorem succ (inner : Accounting n) : Accounting (n + 1) :=
  ⟨inner.evaluate_succ, inner.evaluateAll_succ, inner.call_succ, inner.invoke_succ,
    inner.execute_succ, inner.executeWhile_succ, inner.executeAll_succ⟩

end Accounting

/-- **Every run is accounted for by its moments**, within any bound. -/
theorem accounting (bound : Nat) : Accounting bound := by
  induction bound with
  | zero => exact .zero
  | succ n ih => exact ih.succ

theorem accounts_executeProgram (sites : Expr → Prop) (bound : Nat) (program : List Stmt) :
    Accounts sites (Traced.executeProgram bound program) := by
  induction program with
  | nil => exact .pure ()
  | cons s ss ih => exact ((accounting bound).execute sites s).bind fun _ => ih

/-! ## Calls without a body -/

/-- A call that runs no body is calm, whatever it is given. -/
theorem calm_call {callee : Value} (bodiless : callee.body? = none) (bound : Nat)
    (arguments : List Value) (line : Nat) : Calm (call bound callee arguments line) := by
  cases bound with
  | zero => exact calm_exhausted
  | succ n =>
    unfold call
    cases callee with
    | native f => exact (oblivious_callNative f arguments line).calm
    | closure f => cases bodiless
    | «class» c =>
      have missing : c.method? initializerName = none := Option.map_eq_none_iff.mp bodiless
      simp only [missing]
      exact ((oblivious_create _).bind fun i => oblivious_pure (Value.instance i)).calm
    | nil | bool | number | string | «instance» =>
      exact (oblivious_fail .notCallable line (by rintro ⟨⟩)).calm

/-- A class runs a body when it is called if it or a class above it defines an initializer. -/
theorem body?_class (c : Class) :
    (Value.class c).body? = none ↔ ∀ above ∈ c.lineage, above.own? initializerName = none := by
  unfold Value.body?
  rw [Option.map_eq_none_iff, Class.method?_eq, List.findSome?_eq_none_iff]

/-! ## Calls at the limit -/

/-- **At the limit no statement of a body runs.** The frame of the call is all that is left of it:
nothing is written, and no other part of the machine changes. -/
theorem invoke_full {m : Machine} (full : m.maxDepth ≤ m.depth) (bound : Nat) (f : Closure)
    (arguments : List Value) (line : Nat) :
    ∃ bindings, invoke (bound + 1) f arguments line m
      = fail .stackOverflow line
          { m with heap := (m.heap.allocateFrame (some f.frame) bindings).2 } := by
  obtain ⟨bindings, enters⟩ : ∃ bindings, enterFunction f arguments m
      = .ok (m.heap.allocateFrame (some f.frame) bindings).1
          { m with heap := (m.heap.allocateFrame (some f.frame) bindings).2 } := ⟨_, rfl⟩
  refine ⟨bindings, ?_⟩
  generalize entered : { m with heap := (m.heap.allocateFrame (some f.frame) bindings).2 } = m'
    at enters ⊢
  -- The new frame leaves the depth and the limit alone, so the call still finds itself at it.
  have full' : m'.maxDepth ≤ m'.depth := by rwa [← entered]
  unfold invoke
  rw [bind_eq, enters]
  dsimp only
  rw [bind_eq, inCall_full line _ full']
  rfl

/-! ## Sessions -/

namespace Session

theorem maxDepth_after (policy : Sink.Policy) (maxDepth : Nat) (clock : Clock) (inputs : List Input) :
    ((fresh policy maxDepth clock).after inputs).machine.maxDepth = maxDepth := by
  refine after_induction (motive := (·.machine.maxDepth = maxDepth)) rfl ?_ inputs
  intro session input before
  cases checked : (checkSource input.source session.nextId).outcome with
  | error faults =>
    rw [receive_of_error checked]
    exact before
  | ok program =>
    rw [receive_of_ok checked]
    exact (restores_interpret input.bound program.statements _).maxDepth.trans before

/-- The run of an input is accounted for by its moments, if no function is running before it. -/
theorem account {session : Session} (rest : session.AtRest) (input : Input) :
    ∃ stop, Account [] session.machine.maxDepth (fun _ => False) (session.moments input) stop
        (session.receive input).2.machine ∧
      ∀ line, stop = overflow line ↔
        (session.receive input).1 = .failed [.runtime ⟨.stackOverflow, line⟩] := by
  unfold moments
  cases checked : (checkSource input.source session.nextId).outcome with
  | error faults =>
    rw [receive_of_error checked, notes_of_error checked]
    refine ⟨none, .nil nofun rest.2 rfl, fun line => ⟨nofun, fun same => ?_⟩⟩
    -- A source that is refused has no runtime errors.
    obtain rfl := Outcome.failed.inj same
    obtain ⟨d, source⟩ := faults_checkSource checked _ (List.mem_singleton_self _)
    exact nomatch source
  | ok program =>
    have depth : (session.prepared program).depth = 0 := rest.2
    have run := accounts_executeProgram (fun _ => False) input.bound program.statements
      (session.prepared program) [] depth (by omega)
    rw [Traced.plain_executeProgram] at run
    rw [notes_of_ok checked]
    refine ⟨_, ⟨run.sound, run.settled, run.refused, ?_, ?_⟩, fun line => ?_⟩
    · rw [receive_of_ok checked]
      exact (restores_interpret input.bound program.statements _).depth.trans depth
    · rw [receive_of_ok checked]
      exact (restores_interpret input.bound program.statements _).maxDepth
    · unfold receive
      rw [runWithin_fst checked, ← overflows_iff_stops]
      change _ ↔ Outcome.of (interpret _ _ (session.prepared program)) = _
      unfold interpret
      cases executeProgram input.bound program.statements (session.prepared program) with
      | ok _ m =>
        refine ⟨nofun, ?_⟩
        unfold Sink.flush
        dsimp only
        cases m.sink.policy.refusesFlush m.sink.tally <;> exact nofun
      | error stop m =>
        cases stop with
        | exhausted => exact ⟨nofun, nofun⟩
        | error e =>
          constructor
          · rintro ⟨m', same⟩
            rw [Stop.error.inj (EStateM.Result.error.inj same).1]
            rfl
          · intro same
            refine ⟨m, ?_⟩
            have single := List.cons.inj (Outcome.failed.inj same)
            rw [Fault.runtime.inj single.1]

end Session

/-- **The depth is exact.** Whenever a session is given an input, whatever it was given before, the
moments of the run account for the depth (`Account`): at each of them the depth is the number of
function bodies that have begun and not ended, and at most the limit; a call that runs a body begins
it at once if fewer bodies are running than the limit, and otherwise fails with an overflow at the
line of the call, after which the run is only left; and the run of an input fails with an overflow
only in this way. The moments are noted by the evaluator as it runs, each expression and statement
that it enters among them, and without the notes it gives what it gives (`Traced.Same`).

At the limit no statement of the body runs: whatever computation a call would carry out one level
deeper, the overflow is all there is of it, and a function that is run there leaves the machine as it
was, but for the frame of the call. Calls of functions of the host, and of classes without an
initializer in their lineage, run no body; they never overflow, and leave the depth as it was. -/
theorem depth_is_exact :
    (∀ policy maxDepth clock inputs input, ∃ stop,
      Account [] maxDepth (fun _ => False)
        (((Session.fresh policy maxDepth clock).after inputs).moments input) stop
        (((Session.fresh policy maxDepth clock).after inputs).receive input).2.machine ∧
      ∀ line, stop = overflow line ↔
        (((Session.fresh policy maxDepth clock).after inputs).receive input).1
          = .failed [.runtime ⟨.stackOverflow, line⟩]) ∧
    (∀ bound, Traced.Same bound) ∧
    (∀ (m : Machine), m.maxDepth ≤ m.depth → ∀ line,
      (∀ (α : Type) (body : Eval α), inCall line body m = fail .stackOverflow line m) ∧
      ∀ bound f arguments, ∃ bindings, invoke (bound + 1) f arguments line m
        = fail .stackOverflow line
            { m with heap := (m.heap.allocateFrame (some f.frame) bindings).2 }) ∧
    (∀ callee : Value, callee.body? = none →
      ∀ bound arguments line, Calm (call bound callee arguments line)) ∧
    (∀ f, (Value.native f).body? = none) ∧
    (∀ c, (Value.class c).body? = none ↔
      ∀ above ∈ c.lineage, above.own? initializerName = none) := by
  refine ⟨fun policy maxDepth clock inputs input => ?_, Traced.same, fun m full line =>
    ⟨fun α body => inCall_full line body full, fun bound f arguments =>
      invoke_full full bound f arguments line⟩, fun _ => calm_call, fun _ => rfl, body?_class⟩
  have rest := Session.after_induction (Session.atRest_fresh policy maxDepth clock)
    Session.atRest_receive inputs
  have account := Session.account rest input
  rwa [Session.maxDepth_after] at account

end Lox
