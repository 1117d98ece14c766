import Lox.Proofs.Restoration

/-!
# What every run is made of

Of all the steps of the evaluator only three look at the depth, its limit or the sink: a piece of
text is written, a function body runs one level deeper, and a block runs in a frame of its own, which
hands all three on. Every other operation is oblivious of them, and cannot overflow.

So a relation between computations holds between the runs of a program within two bounds as soon as
it is closed under sequencing and under these three steps (`Congruence`), and holds of oblivious
operations and where the smaller bound is used up. The induction over the evaluator is made here
once (`Congruence.related`), for relations and for properties of a single run alike.
-/

set_option autoImplicit false

namespace Lox

/-- A machine with another depth, another limit and another sink. -/
def Machine.counting (m : Machine) (depth maxDepth : Nat) (sink : Sink) : Machine :=
  { m with depth := depth, maxDepth := maxDepth, sink := sink }

namespace Machine

variable (m : Machine) (depth maxDepth : Nat) (sink : Sink)

@[simp]
theorem counting_heap : (m.counting depth maxDepth sink).heap = m.heap := rfl

@[simp]
theorem counting_current : (m.counting depth maxDepth sink).current = m.current := rfl

@[simp]
theorem counting_distances : (m.counting depth maxDepth sink).distances = m.distances := rfl

@[simp]
theorem counting_place? (id : NodeId) (name : String) :
    (m.counting depth maxDepth sink).place? id name = m.place? id name := rfl

@[simp]
theorem counting_lookUp? (id : NodeId) (name : String) :
    (m.counting depth maxDepth sink).lookUp? id name = m.lookUp? id name := rfl

end Machine

namespace Eval

variable {α β : Type}

/-- The ending of a computation because calls were nested too deeply. -/
def Overflows (result : EStateM.Result Stop Machine α) (line : Nat) : Prop :=
  ∃ m, result = .error (.error ⟨.stackOverflow, line⟩) m

/-- An operation is oblivious if it goes the same way whatever the depth, its limit and the sink
are, leaves them as they are, and never overflows. -/
structure Oblivious (x : Eval α) : Prop where
  commutes (m : Machine) (depth maxDepth : Nat) (sink : Sink) :
    x (m.counting depth maxDepth sink) = onMachine (·.counting depth maxDepth sink) (x m)
  stays (m : Machine) (line : Nat) : ¬Overflows (x m) line

/-! ## Oblivious operations -/

theorem not_overflows_ok {a : α} {m : Machine} {line : Nat} : ¬Overflows (.ok a m) line := nofun

/-- What is left of the depth, its limit and the sink is what was there. -/
theorem Oblivious.counting_leaves {x : Eval α} (oblivious : x.Oblivious) (m : Machine) :
    x.leaves m = (x.leaves m).counting m.depth m.maxDepth m.sink := by
  -- A machine is itself with its own depth, limit and sink.
  have same : x m = onMachine (·.counting m.depth m.maxDepth m.sink) (x m) :=
    oblivious.commutes m m.depth m.maxDepth m.sink
  unfold leaves
  cases ends : x m with
  | ok a m' =>
    rw [ends] at same
    exact (EStateM.Result.ok.inj same).2
  | error stop m' =>
    rw [ends] at same
    exact (EStateM.Result.error.inj same).2

theorem oblivious_pure (a : α) : Oblivious (pure a) :=
  ⟨fun _ _ _ _ => rfl, fun _ _ => not_overflows_ok⟩

theorem oblivious_fail (cause : RuntimeError.Cause) (line : Nat) (other : cause ≠ .stackOverflow) :
    Oblivious (fail cause line : Eval α) := by
  refine ⟨fun _ _ _ _ => rfl, fun m line' overflows => ?_⟩
  obtain ⟨m', same⟩ := overflows
  unfold fail at same
  injection same with stop
  injection stop with e
  injection e with cause'
  exact other cause'

theorem oblivious_create (f : Heap → α × Heap) : Oblivious (create f) :=
  ⟨fun _ _ _ _ => rfl, fun _ _ => not_overflows_ok⟩

theorem Oblivious.bind {x : Eval α} {f : α → Eval β} (first : x.Oblivious)
    (second : ∀ a, (f a).Oblivious) : (x >>= f).Oblivious := by
  constructor
  · intro m depth maxDepth sink
    rw [bind_eq, bind_eq, first.commutes]
    cases x m with
    | ok a m' => exact (second a).commutes m' depth maxDepth sink
    | error stop m' => rfl
  · intro m line overflows
    rw [bind_eq] at overflows
    cases ends : x m with
    | ok a m' =>
      rw [ends] at overflows
      exact (second a).stays m' line overflows
    | error stop m' =>
      rw [ends] at overflows
      obtain ⟨m'', same⟩ := overflows
      obtain ⟨rfl, rfl⟩ := EStateM.Result.error.inj same
      exact first.stays m line ⟨_, ends⟩

/-- An operation is oblivious if on every machine, whatever its depth, its limit and its sink, it
does what some oblivious operation does. -/
theorem oblivious_of_agrees {x : Eval α}
    (agrees : ∀ m : Machine, ∃ y : Eval α, y.Oblivious ∧ ∀ depth maxDepth sink,
      x (m.counting depth maxDepth sink) = y (m.counting depth maxDepth sink)) :
    x.Oblivious := by
  constructor
  · intro m depth maxDepth sink
    obtain ⟨y, oblivious, same⟩ := agrees m
    have here : x m = y m := same m.depth m.maxDepth m.sink
    rw [same, here, oblivious.commutes]
  · intro m line overflows
    obtain ⟨y, oblivious, same⟩ := agrees m
    have here : x m = y m := same m.depth m.maxDepth m.sink
    rw [here] at overflows
    exact oblivious.stays m line overflows

theorem oblivious_orFail (line : Nat) {result : Except RuntimeError.Cause α}
    (other : result ≠ .error .stackOverflow) : Oblivious (orFail line result) := by
  cases result with
  | ok a => exact oblivious_pure a
  | error cause => exact oblivious_fail cause line fun same => other (congrArg _ same)

theorem oblivious_lookUp (id : NodeId) (name : String) (line : Nat) :
    Oblivious (lookUp id name line) := by
  refine oblivious_of_agrees fun m => ?_
  cases found : m.lookUp? id name with
  | none =>
    refine ⟨fail (.undefinedVariable name) line, oblivious_fail _ line nofun, fun _ _ _ => ?_⟩
    simp only [lookUp, Machine.counting_lookUp?, found, fail]
  | some value =>
    refine ⟨pure value, oblivious_pure value, fun _ _ _ => ?_⟩
    simp only [lookUp, Machine.counting_lookUp?, found, pure, EStateM.pure]

theorem oblivious_assign (id : NodeId) (name : Name) (value : Value) :
    Oblivious (assign id name value) := by
  refine oblivious_of_agrees fun m => ?_
  cases found : m.place? id name.lexeme with
  | none =>
    refine ⟨fail (.undefinedVariable name.lexeme) name.line, oblivious_fail _ _ nofun, ?_⟩
    intro _ _ _
    simp only [assign, Machine.counting_place?, found, fail]
  | some frame =>
    refine ⟨create fun h => ((), h.define frame name.lexeme value), oblivious_create _,
      fun _ _ _ => ?_⟩
    simp only [assign, Machine.counting_place?, found, create]

theorem oblivious_define (name : String) (value : Value) : Oblivious (define name value) :=
  ⟨fun _ _ _ _ => rfl, fun _ _ => not_overflows_ok⟩

theorem oblivious_bound (method? : Option Method) (i : Instance) (property : String) (line : Nat) :
    Oblivious (bound method? i property line) := by
  cases method? with
  | none => exact oblivious_fail (.undefinedProperty property) line nofun
  | some method => exact (oblivious_create _).bind fun f => oblivious_pure (Value.closure f)

theorem oblivious_property (object : Value) (name : Name) : Oblivious (property object name) := by
  have refused : Oblivious (fail .readsPropertyOfNonInstance name.line : Eval Value) :=
    oblivious_fail _ _ fun same => by cases same
  cases object with
  | «instance» i =>
    refine oblivious_of_agrees fun m => ?_
    cases found : m.heap.field? i name.lexeme with
    | none =>
      refine ⟨bound (i.of.method? name.lexeme) i name.lexeme name.line, oblivious_bound _ _ _ _,
        fun _ _ _ => ?_⟩
      simp only [property, Machine.counting_heap, found]
    | some value =>
      refine ⟨pure value, oblivious_pure value, fun _ _ _ => ?_⟩
      simp only [property, Machine.counting_heap, found, pure, EStateM.pure]
  | nil | bool | number | string | native | closure | «class» => exact refused

theorem oblivious_setField (i : Instance) (name : String) (value : Value) :
    Oblivious (setField i name value) :=
  ⟨fun _ _ _ _ => rfl, fun _ _ => not_overflows_ok⟩

theorem oblivious_superMethod (id : NodeId) (line : Nat) (method : String) :
    Oblivious (superMethod id line method) := by
  refine oblivious_of_agrees fun m => ?_
  simp only [superMethod, Machine.counting_heap, Machine.counting_current,
    Machine.counting_distances]
  cases m.distances[id]? with
  | none => exact ⟨_, oblivious_fail .superOutsideClass line nofun, fun _ _ _ => rfl⟩
  | some distance =>
    dsimp only
    cases m.heap.getAt? m.current distance "super" with
    | none => exact ⟨_, oblivious_fail (.undefinedVariable "super") line nofun, fun _ _ _ => rfl⟩
    | some above =>
      cases above with
      | «class» parent =>
        dsimp only
        cases m.heap.getAt? m.current (distance - 1) "this" with
        | none => exact ⟨_, oblivious_fail (.undefinedVariable "this") line nofun, fun _ _ _ => rfl⟩
        | some receiver =>
          cases receiver with
          | «instance» i => exact ⟨_, oblivious_bound _ i method line, fun _ _ _ => rfl⟩
          | nil | bool | number | string | native | closure | «class» =>
            exact ⟨_, oblivious_fail .readsPropertyOfNonInstance line nofun, fun _ _ _ => rfl⟩
      | nil | bool | number | string | native | closure | «instance» =>
        exact ⟨_, oblivious_fail .superclassNotClass line nofun, fun _ _ _ => rfl⟩

theorem oblivious_enterFunction (f : Closure) (arguments : List Value) :
    Oblivious (enterFunction f arguments) := by
  unfold enterFunction
  exact oblivious_create _

theorem oblivious_result (f : Closure) (line : Nat) (completion : Completion) :
    Oblivious (result f line completion) := by
  refine oblivious_of_agrees fun m => ?_
  simp only [result, Machine.counting_heap]
  cases f.isInitializer with
  | true =>
    cases m.heap.read? f.frame "this" with
    | none => exact ⟨_, oblivious_fail (.undefinedVariable "this") line nofun, fun _ _ _ => rfl⟩
    | some value => exact ⟨pure value, oblivious_pure value, fun _ _ _ => rfl⟩
  | false =>
    cases completion with
    | normal => exact ⟨pure .nil, oblivious_pure _, fun _ _ _ => rfl⟩
    | returned value => exact ⟨pure value, oblivious_pure value, fun _ _ _ => rfl⟩

theorem oblivious_checkCall (callee : Value) (count line : Nat) :
    Oblivious (checkCall callee count line) := by
  unfold checkCall
  cases callee.arity? with
  | none => exact oblivious_fail .notCallable line nofun
  | some arity =>
    show Oblivious (if count = arity then pure () else fail _ _)
    split
    · exact oblivious_pure ()
    · exact oblivious_fail (.wrongArity arity count) line nofun

theorem oblivious_superclass? (parent : Option Superclass) : Oblivious (superclass? parent) := by
  cases parent with
  | none => exact oblivious_pure none
  | some parent =>
    refine (oblivious_lookUp _ _ _).bind fun value => ?_
    cases value with
    | «class» c => exact oblivious_pure (some c)
    | nil | bool | number | string | native | closure | «instance» =>
      exact oblivious_fail .superclassNotClass parent.name.line nofun

theorem oblivious_methodFrame (parent : Option Class) : Oblivious (methodFrame parent) := by
  cases parent with
  | none => exact ⟨fun _ _ _ _ => rfl, fun _ _ => not_overflows_ok⟩
  | some c => exact ⟨fun _ _ _ _ => rfl, fun _ _ => not_overflows_ok⟩

theorem oblivious_declareClass (name : Name) (parent : Option Superclass)
    (methods : List FunctionDecl) : Oblivious (declareClass name parent methods) :=
  (oblivious_superclass? parent).bind fun parent =>
    (oblivious_methodFrame parent).bind fun _ =>
      (oblivious_create _).bind fun _ => oblivious_define _ _

theorem oblivious_declareFunction (declaration : FunctionDecl) :
    Oblivious (declareFunction declaration) :=
  ⟨fun _ _ _ _ => rfl, fun _ _ => not_overflows_ok⟩

theorem oblivious_openBlock : Oblivious openBlock :=
  ⟨fun _ _ _ _ => rfl, fun _ _ => not_overflows_ok⟩

theorem oblivious_readClock (f : Native) : Oblivious (readClock f) :=
  ⟨fun _ _ _ _ => rfl, fun _ _ => not_overflows_ok⟩

/-- A function of the host sees the clock and its arguments only. -/
theorem oblivious_callNative (f : Native) (arguments : List Value) (line : Nat) :
    Oblivious (callNative f arguments line) := by
  refine (oblivious_readClock f).bind fun reading => oblivious_orFail line ?_
  unfold Native.call
  cases f.action <;> exact nofun

theorem oblivious_unary (op : UnaryOp) (right : Value) (line : Nat) :
    Oblivious (orFail line (op.apply right)) := by
  refine oblivious_orFail line ?_
  unfold UnaryOp.apply
  split <;> exact nofun

theorem oblivious_binary (op : BinaryOp) (left right : Value) (line : Nat) :
    Oblivious (orFail line (op.apply left right)) := by
  refine oblivious_orFail line ?_
  have numbers : ∀ f, op.applyNumbers left right f ≠ .error .stackOverflow := by
    intro f
    unfold BinaryOp.applyNumbers
    split <;> exact nofun
  cases op with
  | equal | notEqual => exact nofun
  | add =>
    unfold BinaryOp.apply
    dsimp only
    split <;> exact nofun
  | subtract | multiply | divide | less | lessEqual | greater | greaterEqual => exact numbers _

/-! ## The steps that look at the depth or the frame -/

theorem leaves_of_onMachine {x y : Eval α} {m m' : Machine} {change : Machine → Machine}
    (same : x m = onMachine change (y m')) : x.leaves m = change (y.leaves m') := by
  unfold leaves
  rw [same]
  cases y m' <;> rfl

theorem overflows_onMachine {result : EStateM.Result Stop Machine α}
    {change : Machine → Machine} {line : Nat} :
    Overflows (onMachine change result) line ↔ Overflows result line := by
  constructor
  · rintro ⟨m, same⟩
    cases result with
    | ok a m' => cases same
    | error stop m' =>
      obtain ⟨rfl, -⟩ := EStateM.Result.error.inj same
      exact ⟨m', rfl⟩
  · rintro ⟨m, rfl⟩
    exact ⟨_, rfl⟩

end Eval

open Eval

/-! ## Relations between runs -/

/-- A relation between computations that the evaluator respects. -/
structure Congruence (P : (α : Type) → Eval α → Eval α → Prop) : Prop where
  /-- A computation that has used up its bound is related to all. -/
  exhausted {α : Type} (y : Eval α) : P α (throw .exhausted) y
  oblivious {α : Type} {x : Eval α} (same : x.Oblivious) : P α x x
  bind {α β : Type} {x y : Eval α} {f g : α → Eval β} (first : P α x y)
    (second : ∀ a, P β (f a) (g a)) : P β (x >>= f) (y >>= g)
  write (text : String) (line : Nat) : P Unit (write text line) (write text line)
  inFrame {α : Type} {x y : Eval α} (frame : Address) (inside : P α x y) :
    P α (inFrame frame x) (inFrame frame y)
  inCall {α : Type} {x y : Eval α} (line : Nat) (inside : P α x y) :
    P α (inCall line x) (inCall line y)

/-- All functions of the evaluator are related within two bounds. -/
structure Related (P : (α : Type) → Eval α → Eval α → Prop) (bound bound' : Nat) : Prop where
  evaluate (e : Expr) : P Value (evaluate bound e) (evaluate bound' e)
  evaluateAll (es : List Expr) : P (List Value) (evaluateAll bound es) (evaluateAll bound' es)
  call (callee : Value) (arguments : List Value) (line : Nat) :
    P Value (call bound callee arguments line) (call bound' callee arguments line)
  invoke (f : Closure) (arguments : List Value) (line : Nat) :
    P Value (invoke bound f arguments line) (invoke bound' f arguments line)
  execute (s : Stmt) : P Completion (execute bound s) (execute bound' s)
  executeWhile (condition : Expr) (body : Stmt) :
    P Completion (executeWhile bound condition body) (executeWhile bound' condition body)
  executeAll (ss : List Stmt) : P Completion (executeAll bound ss) (executeAll bound' ss)

namespace Congruence

variable {P : (α : Type) → Eval α → Eval α → Prop} {n k : Nat}

theorem pure (closed : Congruence P) {α : Type} (a : α) : P α (Pure.pure a) (Pure.pure a) :=
  closed.oblivious (oblivious_pure a)

theorem print (closed : Congruence P) (value : Value) (line : Nat) :
    P Unit (print value line) (print value line) := by
  have all : ∀ texts, P Unit (writeAll line texts) (writeAll line texts) := by
    intro texts
    induction texts with
    | nil => exact closed.pure ()
    | cons text texts ih => exact closed.bind (closed.write text line) fun _ => ih
  exact all _

theorem evaluate_succ (closed : Congruence P) (inner : Related P n k) (e : Expr) :
    P Value (Lox.evaluate (n + 1) e) (Lox.evaluate (k + 1) e) := by
  cases e with
  | literal value => exact closed.pure _
  | grouping e => exact inner.evaluate e
  | unary op right line =>
    exact closed.bind (inner.evaluate right) fun _ => closed.oblivious (oblivious_unary _ _ _)
  | binary left op right line =>
    exact closed.bind (inner.evaluate left) fun _ =>
      closed.bind (inner.evaluate right) fun _ => closed.oblivious (oblivious_binary _ _ _ _)
  | logical left op right =>
    refine closed.bind (inner.evaluate left) fun value => ?_
    split
    · exact closed.pure value
    · exact inner.evaluate right
  | «variable» id name => exact closed.oblivious (oblivious_lookUp _ _ _)
  | assign id name value =>
    exact closed.bind (inner.evaluate value) fun _ =>
      closed.oblivious ((oblivious_assign _ _ _).bind fun _ => oblivious_pure _)
  | call callee arguments line =>
    exact closed.bind (inner.evaluate callee) fun _ =>
      closed.bind (inner.evaluateAll arguments) fun _ =>
        closed.bind (closed.oblivious (oblivious_checkCall _ _ _)) fun _ => inner.call _ _ _
  | get object name =>
    exact closed.bind (inner.evaluate object) fun _ => closed.oblivious (oblivious_property _ _)
  | set object name value =>
    refine closed.bind (inner.evaluate object) fun receiver => ?_
    cases receiver with
    | «instance» i =>
      exact closed.bind (inner.evaluate value) fun _ =>
        closed.oblivious ((oblivious_setField _ _ _).bind fun _ => oblivious_pure _)
    | nil | bool | number | string | native | closure | «class» =>
      exact closed.oblivious (oblivious_fail .setsFieldOfNonInstance name.line nofun)
  | this id line => exact closed.oblivious (oblivious_lookUp _ _ _)
  | super id line method => exact closed.oblivious (oblivious_superMethod _ _ _)

theorem evaluateAll_succ (closed : Congruence P) (inner : Related P n k) (es : List Expr) :
    P (List Value) (Lox.evaluateAll (n + 1) es) (Lox.evaluateAll (k + 1) es) := by
  cases es with
  | nil => exact closed.pure _
  | cons e es =>
    exact closed.bind (inner.evaluate e) fun _ =>
      closed.bind (inner.evaluateAll es) fun _ => closed.pure _

theorem call_succ (closed : Congruence P) (inner : Related P n k) (callee : Value)
    (arguments : List Value) (line : Nat) :
    P Value (Lox.call (n + 1) callee arguments line) (Lox.call (k + 1) callee arguments line) := by
  cases callee with
  | native f => exact closed.oblivious (oblivious_callNative f arguments line)
  | closure f => exact inner.invoke f arguments line
  | «class» c =>
    refine closed.bind (closed.oblivious (oblivious_create _)) fun i => ?_
    cases c.method? initializerName with
    | none => exact closed.pure _
    | some method =>
      exact closed.bind (closed.oblivious (oblivious_create _)) fun _ =>
        closed.bind (inner.invoke _ _ _) fun _ => closed.pure _
  | nil | bool | number | string | «instance» =>
    exact closed.oblivious (oblivious_fail .notCallable line nofun)

theorem invoke_succ (closed : Congruence P) (inner : Related P n k) (f : Closure)
    (arguments : List Value) (line : Nat) :
    P Value (Lox.invoke (n + 1) f arguments line) (Lox.invoke (k + 1) f arguments line) :=
  closed.bind (closed.oblivious (oblivious_enterFunction f arguments)) fun frame =>
    closed.bind (closed.inCall line (closed.inFrame frame (inner.executeAll _))) fun completion =>
      closed.oblivious (oblivious_result f line completion)

theorem execute_succ (closed : Congruence P) (inner : Related P n k) (s : Stmt) :
    P Completion (Lox.execute (n + 1) s) (Lox.execute (k + 1) s) := by
  cases s with
  | expression e => exact closed.bind (inner.evaluate e) fun _ => closed.pure _
  | print e =>
    exact closed.bind (inner.evaluate e) fun _ =>
      closed.bind (closed.print _ _) fun _ => closed.pure _
  | var name initializer =>
    cases initializer with
    | none => exact closed.oblivious ((oblivious_define _ _).bind fun _ => oblivious_pure _)
    | some e =>
      exact closed.bind (inner.evaluate e) fun _ =>
        closed.oblivious ((oblivious_define _ _).bind fun _ => oblivious_pure _)
  | block body =>
    exact closed.bind (closed.oblivious oblivious_openBlock) fun frame =>
      closed.inFrame frame (inner.executeAll body)
  | «if» condition thenBranch elseBranch =>
    refine closed.bind (inner.evaluate condition) fun value => ?_
    split
    · exact inner.execute thenBranch
    · cases elseBranch with
      | none => exact closed.pure _
      | some s => exact inner.execute s
  | «while» condition body => exact inner.executeWhile condition body
  | function declaration =>
    exact closed.oblivious ((oblivious_declareFunction _).bind fun _ => oblivious_pure _)
  | «return» line value =>
    cases value with
    | none => exact closed.pure _
    | some e => exact closed.bind (inner.evaluate e) fun _ => closed.pure _
  | «class» name parent methods =>
    exact closed.oblivious ((oblivious_declareClass _ _ _).bind fun _ => oblivious_pure _)

theorem executeWhile_succ (closed : Congruence P) (inner : Related P n k) (condition : Expr)
    (body : Stmt) :
    P Completion (Lox.executeWhile (n + 1) condition body)
      (Lox.executeWhile (k + 1) condition body) := by
  refine closed.bind (inner.evaluate condition) fun value => ?_
  split
  · refine closed.bind (inner.execute body) fun completion => ?_
    cases completion with
    | normal => exact inner.executeWhile condition body
    | returned value => exact closed.pure _
  · exact closed.pure _

theorem executeAll_succ (closed : Congruence P) (inner : Related P n k) (ss : List Stmt) :
    P Completion (Lox.executeAll (n + 1) ss) (Lox.executeAll (k + 1) ss) := by
  cases ss with
  | nil => exact closed.pure _
  | cons s ss =>
    refine closed.bind (inner.execute s) fun completion => ?_
    cases completion with
    | normal => exact inner.executeAll ss
    | returned value => exact closed.pure _

/-- **The evaluator respects every congruence**: a run is related to the run within any larger
bound. -/
theorem related (closed : Congruence P) {bound bound' : Nat} (le : bound ≤ bound') :
    Related P bound bound' := by
  induction bound generalizing bound' with
  | zero => constructor <;> intros <;> exact closed.exhausted _
  | succ n ih =>
    obtain ⟨k, rfl⟩ : ∃ k, bound' = k + 1 := ⟨bound' - 1, by omega⟩
    have inner : Related P n k := ih (by omega)
    exact ⟨closed.evaluate_succ inner, closed.evaluateAll_succ inner, closed.call_succ inner,
      closed.invoke_succ inner, closed.execute_succ inner, closed.executeWhile_succ inner,
      closed.executeAll_succ inner⟩

theorem executeProgram (closed : Congruence P) {bound bound' : Nat} (le : bound ≤ bound')
    (program : List Stmt) :
    P Unit (executeProgram bound program) (executeProgram bound' program) := by
  induction program with
  | nil => exact closed.pure ()
  | cons s ss ih => exact closed.bind ((closed.related le).execute s) fun _ => ih

end Congruence

end Lox
