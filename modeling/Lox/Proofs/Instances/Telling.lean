import Lox.Proofs.Instances.Passing
import Lox.Proofs.Origin.Runs

/-!
# Runs are told by their acts

The acts of every run make a chain from the heap that it starts with to the heap that it leaves, and
whatever initializers it comes across were bound by one of them. The induction is on the bound, with
one lemma for each function of the evaluator. That the code of what is called comes from the sources
is known from where values come from (`tracing`): so bodies declare and assign identifiers alone, and
no `this` is ever replaced.
-/

set_option autoImplicit false

namespace Lox

open Eval

variable {o : Origin} {bound n : Nat} {past : List Act}

/-! ## Where traced code comes from -/

theorem Traced.traces_evaluate {e : Expr} (from_ : e.From o) :
    Traces o none nothing (Value.From o) (Traced.evaluate n e).plain := by
  rw [(Traced.same n).evaluate]
  exact (tracing o n).evaluate e from_

theorem Traced.traces_evaluateAll {es : List Expr} (from_ : ∀ e ∈ es, e.From o) :
    Traces o none nothing (fun values => ∀ value ∈ values, value.From o)
      (Traced.evaluateAll n es).plain := by
  rw [(Traced.same n).evaluateAll]
  exact (tracing o n).evaluateAll es from_

theorem Traced.traces_execute {s : Stmt} (from_ : s.From o) :
    Traces o none s.declares (Completion.From o) (Traced.execute n s).plain := by
  rw [(Traced.same n).execute]
  exact (tracing o n).execute s from_

/-! ## The traced evaluator -/

/-- All functions of the evaluator are told by their acts, within a bound. -/
structure Telling (o : Origin) (bound : Nat) : Prop where
  evaluate (past : List Act) (e : Expr) : e.From o →
    Follows o past Value.KnownTo (Traced.evaluate bound e)
  evaluateAll (past : List Act) (es : List Expr) : (∀ e ∈ es, e.From o) →
    Follows o past (fun acts values => ∀ value ∈ values, value.KnownTo acts)
      (Traced.evaluateAll bound es)
  call (past : List Act) (site : CallSite) (callee : Value) (arguments : List Value) :
    callee.From o → callee.KnownTo past → (∀ value ∈ arguments, value.From o) →
    (∀ value ∈ arguments, value.KnownTo past) → o.HasLine site.line →
    Follows o past Value.KnownTo (Traced.call bound site callee arguments)
  invoke (past : List Act) (site : CallSite) (callee : Value) (f : Closure)
    (arguments : List Value) :
    f.declaration.From o → (Value.closure f).KnownTo past → (∀ value ∈ arguments, value.From o) →
    (∀ value ∈ arguments, value.KnownTo past) → o.HasLine site.line →
    Follows o past Value.KnownTo (Traced.invoke bound site callee f arguments)
  execute (past : List Act) (s : Stmt) : s.From o →
    Follows o past Completion.KnownTo (Traced.execute bound s)
  executeWhile (past : List Act) (condition : Expr) (body : Stmt) : condition.From o →
    body.From o → body.isPlain = true →
    Follows o past Completion.KnownTo (Traced.executeWhile bound condition body)
  executeAll (past : List Act) (ss : List Stmt) : (∀ s ∈ ss, s.From o) →
    Follows o past Completion.KnownTo (Traced.executeAll bound ss)

theorem Completion.knownTo_normal : Completion.normal.KnownTo past := nofun

theorem Completion.knownTo_returned {value : Value} (known : value.KnownTo past) :
    (Completion.returned value).KnownTo past := by
  rintro _ ⟨⟩
  exact known

theorem idle_normal : Idle past (Completion.KnownTo past) (pure .normal) :=
  idle_pure Completion.knownTo_normal

theorem idle_exhausted {α : Type} {fine : α → Prop} :
    Idle past fine (Told.lift (throw .exhausted)) :=
  steady_exhausted.idle

namespace Telling

/-- The call of a function is told before what is done in it. -/
theorem invoked {site : CallSite} {f : Closure} {arguments : List Value} {x : Traced Value}
    (good : f.declaration.From o) (new : (Value.closure f).KnownTo past)
    (given : ∀ value ∈ arguments, value.From o) (here : o.HasLine site.line)
    (inside : ∀ act : Act, Follows o (past ++ [act]) Value.KnownTo x) :
    Follows o past Value.KnownTo
      (Told.note (.invokes bound f arguments site.line) >>= fun _ => x) := by
  intro m code known
  let act : Act := .invokes bound f arguments site.line m
  have founded : act.Founded o past := ⟨⟨code, good, given, here⟩, new⟩
  exact .noted act rfl (.refl m.heap) founded (inside act m code (known.append _))

theorem zero : Telling o 0 where
  evaluate _ _ _ := idle_exhausted.follows
  evaluateAll _ _ _ := idle_exhausted.follows
  call _ _ _ _ _ _ _ _ _ := idle_exhausted.follows
  invoke _ _ _ _ _ good new given _ here := invoked good new given here fun _ =>
    idle_exhausted.follows
  execute _ _ _ := idle_exhausted.follows
  executeWhile _ _ _ _ _ _ := idle_exhausted.follows
  executeAll _ _ _ := idle_exhausted.follows

theorem evaluate_succ (inner : Telling o n) (past : List Act) (e : Expr) (from_ : e.From o) :
    Follows o past Value.KnownTo (Traced.evaluate (n + 1) e) := by
  refine Follows.within ?_ (fun _ => rfl) fun _ _ => rfl
  -- Each part leaves code of the same origin, which the next part assumes.
  cases e with
  | literal value =>
    exact (idle_pure (Value.knownTo_of_isData (Value.isData_ofLiteral value))).follows
  | grouping e => exact inner.evaluate past e from_
  | unary op right line =>
    exact (inner.evaluate past right from_.2).followed fun _ _ _ => (steady_orFail line fun _ ok =>
      Value.knownTo_of_isData (UnaryOp.isData_apply ok)).idle
  | binary left op right line =>
    exact (inner.evaluate past left from_.2.1).bind (Traced.traces_evaluate from_.2.1)
      fun more _ _ _ => (inner.evaluate _ right from_.2.2).followed fun _ _ _ =>
        (steady_orFail line fun _ ok => Value.knownTo_of_isData (BinaryOp.isData_apply ok)).idle
  | logical left op right =>
    refine (inner.evaluate past left from_.1).bind (Traced.traces_evaluate from_.1)
      fun more value _ known => ?_
    cases op.stopsAt value with
    | true => exact (idle_pure known).follows
    | false => exact inner.evaluate _ right from_.2
  | «variable» id name => exact ((steady_lookUp _ _ _).idle.after_note fun _ => rfl).follows
  | assign id name value =>
    exact (inner.evaluate past value from_.2).followed fun _ _ known =>
      ((steady_assign id from_.1.isIdentifier known).idle.bind fun _ _ =>
        idle_pure known).after_note fun _ => rfl
  | call callee arguments line =>
    have all := Expr.allFrom_iff.mp from_.2.2
    refine (inner.evaluate past callee from_.2.1).bind (Traced.traces_evaluate from_.2.1)
      fun more value good known => ?_
    refine (inner.evaluateAll _ arguments all).bind (Traced.traces_evaluateAll all)
      fun more' values given knownAll => ?_
    have checked : Traces o none nothing (fun _ => True) (checkCall value values.length line) :=
      traces_checkCall value values.length from_.1
    have ready : Follows o (past ++ more ++ more') (fun _ _ => True)
        (Told.lift (checkCall value values.length line)) := (steady_checkCall _ _ _).idle.follows
    refine ready.bind checked fun more'' _ _ _ => ?_
    exact inner.call _ ⟨callee, arguments, line⟩ value values good
      ((known.append more').append more'') given
      (fun argument member => (knownAll argument member).append more'') from_.1
  | get object name =>
    exact (inner.evaluate past object from_.2).bind (Traced.traces_evaluate from_.2)
      fun _ _ _ receiver => follows_property receiver name
  | set object name value =>
    refine (inner.evaluate past object from_.2.1).bind (Traced.traces_evaluate from_.2.1)
      fun more receiver _ _ => ?_
    cases receiver with
    | «instance» i =>
      exact (inner.evaluate _ value from_.2.2).followed fun _ _ known =>
        ((steady_setField i _ known).idle.bind fun _ _ => idle_pure known).after_note fun _ => rfl
    | nil | bool | number | string | native | closure | «class» =>
      exact (steady_fail .setsFieldOfNonInstance name.line).idle.follows
  | this id line => exact ((steady_lookUp _ _ _).idle.after_note fun _ => rfl).follows
  | super id line method =>
    exact (follows_superMethod id line method.lexeme).after_note fun _ => rfl

theorem evaluateAll_succ (inner : Telling o n) (past : List Act) (es : List Expr)
    (from_ : ∀ e ∈ es, e.From o) :
    Follows o past (fun acts values => ∀ value ∈ values, value.KnownTo acts)
      (Traced.evaluateAll (n + 1) es) := by
  cases es with
  | nil => exact (idle_pure fun _ member => absurd member List.not_mem_nil).follows
  | cons e es =>
    obtain ⟨first, rest⟩ := List.forall_mem_cons.mp from_
    exact (inner.evaluate past e first).bind (Traced.traces_evaluate first)
      fun _ _ _ known => (inner.evaluateAll _ es rest).followed fun more _ knownAll =>
        idle_pure (List.forall_mem_cons.mpr ⟨known.append more, knownAll⟩)

/-- An initializer is bound to an instance, and called. -/
theorem construct (inner : Telling o n) (past : List Act) (site : CallSite) (callee : Value)
    {method : Method} (good : method.declaration.From o) {i : Instance} (receiver : i.of.From o)
    (made : MadeIn past i) (arguments : List Value) (given : ∀ value ∈ arguments, value.From o)
    (knownAll : ∀ value ∈ arguments, value.KnownTo past) (here : o.HasLine site.line) :
    Follows o past Value.KnownTo
      (do
        let init ← Traced.bindMethod method i
        let _ ← Traced.invoke n site callee init arguments
        return .instance i) := by
  have binding : Traces o none nothing (fun f : Closure => f.declaration.From o)
      (Traced.bindMethod method i).plain := by
    rw [Traced.plain_bindMethod]
    exact traces_bindMethod good receiver
  refine (follows_bindMethod method made).bind binding fun more init good' bound => ?_
  have called := inner.invoke (past ++ more) site callee init arguments good' (fun _ => bound) given
    (fun value member => (knownAll value member).append _) here
  exact called.followed fun more' _ _ => idle_pure ((made.append more).append more')

theorem call_succ (inner : Telling o n) (past : List Act) (site : CallSite) (callee : Value)
    (arguments : List Value) (good : callee.From o) (new : callee.KnownTo past)
    (given : ∀ value ∈ arguments, value.From o)
    (knownAll : ∀ value ∈ arguments, value.KnownTo past) (here : o.HasLine site.line) :
    Follows o past Value.KnownTo (Traced.call (n + 1) site callee arguments) := by
  cases callee with
  | native f =>
    exact ((steady_callNative f knownAll site.line).idle.after_note fun _ => rfl).follows
  | closure f => exact inner.invoke past site _ f arguments good new given knownAll here
  | «class» c =>
    intro m code known
    -- The call is told before what is done in it, so its own instance is known there already.
    let act : Act := .constructs n c arguments site.line m
    let made : Machine := { m with heap := (m.heap.newInstance c).2 }
    have receiver : (m.heap.newInstance c).1.of.From o := good
    have code' : made.heap.From o := code.allocate nofun
    have fields : (Cell.fields .empty).All (Value.KnownTo past) := nofun
    have known' : made.heap.KnownTo past := known.allocate fields
    have new : MadeIn (past ++ [act]) (m.heap.newInstance c).1 :=
      ⟨n, c, arguments, site.line, m, List.mem_append_right past List.mem_cons_self, rfl⟩
    have founded : act.Founded o past := ⟨⟨code, good, given, here⟩, known, knownAll⟩
    refine .noted act rfl (.refl m.heap) founded ?_
    have made? : (Traced.newInstance c).Silent Note.act? := Told.silent_telling fun _ _ => rfl
    rw [made?.heard_bind, Told.plain_bind, bind_eq, Traced.plain_newInstance]
    unfold create
    dsimp only
    cases found : c.method? initializerName with
    | none =>
      have ended : Follows o (past ++ [act]) Value.KnownTo
          (Told.note (.calls site (.class c)) >>= fun _ =>
            pure (.instance (m.heap.newInstance c).1)) :=
        ((idle_pure new).after_note fun _ => rfl).follows
      exact ended made code' (known'.append _)
    | some method =>
      exact inner.construct (past ++ [act]) site (.class c) (Class.From.method? good found) receiver
        new arguments given (fun value member => (knownAll value member).append _) here made code'
        (known'.append _)
  | nil | bool | number | string | «instance» =>
    exact (steady_fail .notCallable site.line).idle.follows

theorem invoke_succ (inner : Telling o n) (past : List Act) (site : CallSite) (callee : Value)
    (f : Closure) (arguments : List Value) (good : f.declaration.From o)
    (new : (Value.closure f).KnownTo past) (given : ∀ value ∈ arguments, value.From o)
    (knownAll : ∀ value ∈ arguments, value.KnownTo past) (here : o.HasLine site.line) :
    Follows o past Value.KnownTo (Traced.invoke (n + 1) site callee f arguments) := by
  refine invoked good new given here fun act => ?_
  refine .opened (Traced.silent_enterFunction (fun _ _ _ => rfl) (fun _ _ _ _ => rfl) f arguments)
    (fun m => ?_) fun frame => ?_
  · rw [Traced.plain_enterFunction]
    exact ⟨⟨_, some f.frame⟩,
      Bindings.forall_parameters f.declaration.params arguments given .empty nofun,
      Bindings.forall_parameters f.declaration.params arguments
        (fun value member => (knownAll value member).append [act]) .empty nofun, rfl⟩
  · have body := (inner.executeAll (past ++ [act]) f.declaration.body
      (Stmt.allFrom_iff.mp good.body)).inFrame frame
    exact (body.carryOut site callee f.declaration).followed fun more completion returned =>
      (steady_result f site.line returned).idle

theorem execute_succ (inner : Telling o n) (past : List Act) (s : Stmt) (from_ : s.From o) :
    Follows o past Completion.KnownTo (Traced.execute (n + 1) s) := by
  refine Follows.within ?_ (fun _ => rfl) fun _ _ => rfl
  cases s with
  | expression e =>
    exact (inner.evaluate past e from_).followed fun _ _ _ => idle_normal
  | print e =>
    exact (inner.evaluate past e from_.1).followed fun _ value _ =>
      (steady_print value e.line).idle.bind fun _ _ => idle_normal
  | var name initializer =>
    cases initializer with
    | none =>
      have defined : Steady past (fun _ => True) (define name.lexeme .nil) :=
        steady_define from_.1.isIdentifier trivial
      exact (defined.idle.bind fun _ _ => idle_normal).follows
    | some e =>
      exact (inner.evaluate past e from_.2).followed fun _ value known =>
        (steady_define from_.1.isIdentifier known).idle.bind fun _ _ => idle_normal
  | block body =>
    refine .opened (Traced.silent_openBlock (fun _ _ => rfl) (fun _ _ _ _ => rfl) body)
      (fun m => ?_) fun frame =>
        (inner.executeAll past body (Stmt.allFrom_iff.mp from_)).inFrame frame
    rw [Traced.plain_openBlock]
    exact ⟨⟨.empty, some m.current⟩, nofun, nofun, rfl⟩
  | «if» condition thenBranch elseBranch =>
    refine (inner.evaluate past condition from_.1).bind (Traced.traces_evaluate from_.1)
      fun more value _ _ => ?_
    cases value.isTruthy with
    | true => exact inner.execute _ thenBranch from_.2.1.1
    | false =>
      cases elseBranch with
      | none => exact idle_normal.follows
      | some s => exact inner.execute _ s from_.2.2.1
  | «while» condition body =>
    exact inner.executeWhile past condition body from_.1 from_.2.1 from_.2.2
  | function declaration =>
    have declared : Idle past (fun _ => True) (Traced.declareFunction declaration) := by
      refine idle_of_silent (Traced.silent_declareFunction (fun _ _ => rfl) declaration) ?_
      rw [Traced.plain_declareFunction]
      exact steady_declareFunction from_.name.isIdentifier
    exact (declared.bind fun _ _ => idle_normal).follows
  | «return» line value =>
    cases value with
    | none =>
      have none : Value.nil.KnownTo past := trivial
      exact (idle_pure (Completion.knownTo_returned none)).follows
    | some e =>
      exact (inner.evaluate past e from_).followed fun _ _ known =>
        idle_pure (Completion.knownTo_returned known)
  | «class» name parent methods =>
    have declared : Idle past (fun _ => True) (Traced.declareClass name parent methods) := by
      refine idle_of_silent (Traced.silent_declareClass (fun _ _ => rfl) (fun _ _ _ => rfl)
        (fun _ _ _ _ => rfl) (fun _ _ => rfl) name parent methods) ?_
      rw [Traced.plain_declareClass]
      exact steady_declareClass from_.1.isIdentifier parent methods
    exact (declared.bind fun _ _ => idle_normal).follows

theorem executeWhile_succ (inner : Telling o n) (past : List Act) (condition : Expr)
    (body : Stmt) (test : condition.From o) (from_ : body.From o) (plain : body.isPlain = true) :
    Follows o past Completion.KnownTo (Traced.executeWhile (n + 1) condition body) := by
  refine (inner.evaluate past condition test).bind (Traced.traces_evaluate test)
    fun more value _ _ => ?_
  cases value.isTruthy with
  | false => exact idle_normal.follows
  | true =>
    refine (inner.execute _ body from_).bind (Traced.traces_execute from_)
      fun more completion _ returned => ?_
    cases completion with
    | normal => exact inner.executeWhile _ condition body test from_ plain
    | returned value => exact (idle_pure returned).follows

theorem executeAll_succ (inner : Telling o n) (past : List Act) (ss : List Stmt)
    (from_ : ∀ s ∈ ss, s.From o) :
    Follows o past Completion.KnownTo (Traced.executeAll (n + 1) ss) := by
  cases ss with
  | nil => exact idle_normal.follows
  | cons s ss =>
    obtain ⟨first, rest⟩ := List.forall_mem_cons.mp from_
    refine (inner.execute past s first).bind (Traced.traces_execute first)
      fun more completion _ returned => ?_
    cases completion with
    | normal => exact inner.executeAll _ ss rest
    | returned value => exact (idle_pure returned).follows

theorem succ (inner : Telling o n) : Telling o (n + 1) :=
  ⟨inner.evaluate_succ, inner.evaluateAll_succ, inner.call_succ, inner.invoke_succ,
    inner.execute_succ, inner.executeWhile_succ, inner.executeAll_succ⟩

end Telling

/-- **Every run is told by its acts**, within any bound. -/
theorem telling (o : Origin) (bound : Nat) : Telling o bound := by
  induction bound with
  | zero => exact .zero
  | succ n ih => exact ih.succ

theorem follows_executeProgram (past : List Act) (bound : Nat) {program : List Stmt}
    (from_ : ∀ s ∈ program, s.From o) :
    Follows o past (fun _ _ => True) (Traced.executeProgram bound program) := by
  induction program generalizing past with
  | nil => exact (idle_pure trivial).follows
  | cons s ss ih =>
    obtain ⟨first, rest⟩ := List.forall_mem_cons.mp from_
    exact ((telling o bound).execute past s first).bind (Traced.traces_execute first)
      fun _ _ _ _ => ih _ rest

end Lox
