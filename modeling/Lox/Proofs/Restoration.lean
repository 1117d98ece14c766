import Lox.Session
import Lox.Proofs.Operations

/-!
# Every way out restores the machine

A block and a call put a frame of their own in the place of the current one, and a call counts
itself in the depth. Both put back what they found, and nothing else in the evaluation touches
either field, the globals, the distances, the limit on the depth or the policy of the sink. So the
machine that a computation leaves behind agrees with the one it was given in all of them, whether it
ends with a value, with an error or because the bound was used up.

`Eval.Restores` says this of a computation. It is closed under sequencing, and the two places where
fields are saved and put back (`restores_inFrame`, `restores_inCall`) are the only ones that need
an argument of their own; the evaluator follows by induction on its bound (`restoring`).
-/

set_option autoImplicit false

namespace Lox

/-- Two machines agree in everything but what a program creates, what it writes and how often it
looks at the clock. -/
structure Machine.SameControl (m m' : Machine) : Prop where
  globals : m'.globals = m.globals
  current : m'.current = m.current
  distances : m'.distances = m.distances
  depth : m'.depth = m.depth
  maxDepth : m'.maxDepth = m.maxDepth
  policy : m'.sink.policy = m.sink.policy

namespace Machine.SameControl

theorem refl (m : Machine) : m.SameControl m := ⟨rfl, rfl, rfl, rfl, rfl, rfl⟩

theorem trans {m₁ m₂ m₃ : Machine} (first : m₁.SameControl m₂) (second : m₂.SameControl m₃) :
    m₁.SameControl m₃ :=
  ⟨second.globals.trans first.globals, second.current.trans first.current,
    second.distances.trans first.distances, second.depth.trans first.depth,
    second.maxDepth.trans first.maxDepth, second.policy.trans first.policy⟩

end Machine.SameControl

namespace Eval

/-- The machine that a computation leaves behind, however it ends. -/
def leaves {α : Type} (x : Eval α) (m : Machine) : Machine :=
  match x m with
  | .ok _ m' => m'
  | .error _ m' => m'

/-- Whatever the machine and however it ends, a computation changes only what it creates and
writes. -/
def Restores {α : Type} (x : Eval α) : Prop :=
  ∀ m : Machine, m.SameControl (x.leaves m)

/-! ## Sequencing -/

variable {α β : Type}

theorem restores_pure (a : α) : Restores (pure a) := fun m => .refl m

theorem restores_throw (stop : Stop) : Restores (throw stop : Eval α) := fun m => .refl m

theorem leaves_bind (x : Eval α) (f : α → Eval β) (m : Machine) :
    (x >>= f).leaves m =
      match x m with
      | .ok a m' => (f a).leaves m'
      | .error _ m' => m' := by
  unfold leaves
  rw [bind_eq]
  cases x m <;> rfl

theorem Restores.of_ok {x : Eval α} (restores : x.Restores) {m r : Machine} {a : α}
    (ends : x m = .ok a r) : m.SameControl r := by
  have kept := restores m
  unfold leaves at kept
  rwa [ends] at kept

/-- Where two computations agree on a machine, one leaves what the other leaves. -/
theorem leaves_congr {x y : Eval α} {m : Machine} (same : x m = y m) :
    x.leaves m = y.leaves m := by
  unfold leaves
  rw [same]

/-- A sequence restores what its parts restore. -/
theorem Restores.bind {x : Eval α} {f : α → Eval β} (first : x.Restores)
    (second : ∀ a, (f a).Restores) : (x >>= f).Restores := by
  intro m
  have before := first m
  rw [leaves_bind]
  unfold leaves at before
  cases ends : x m with
  | ok a m' =>
    rw [ends] at before
    exact before.trans (second a m')
  | error stop m' =>
    rw [ends] at before
    exact before

/-! ## The operations of the machine -/

theorem restores_fail (cause : RuntimeError.Cause) (line : Nat) :
    Restores (fail cause line : Eval α) := fun m => .refl m

theorem restores_orFail (line : Nat) (result : Except RuntimeError.Cause α) :
    Restores (orFail line result) := by
  cases result with
  | ok a => exact restores_pure a
  | error cause => exact restores_fail cause line

theorem restores_create (f : Heap → α × Heap) : Restores (create f) :=
  fun _ => ⟨rfl, rfl, rfl, rfl, rfl, rfl⟩

theorem restores_lookUp (id : NodeId) (name : String) (line : Nat) :
    Restores (lookUp id name line) := by
  intro m
  rcases lookUp_cases id name line m with ⟨_, _, _, _, same⟩ | same
  · exact leaves_congr same ▸ .refl m
  · exact leaves_congr same ▸ .refl m

theorem restores_assign (id : NodeId) (name : Name) (value : Value) :
    Restores (assign id name value) := by
  intro m
  rcases assign_cases id name value m with ⟨_, _, same⟩ | ⟨_, same⟩
  · unfold leaves
    rw [same]
    exact ⟨rfl, rfl, rfl, rfl, rfl, rfl⟩
  · exact leaves_congr same ▸ .refl m

theorem restores_define (name : String) (value : Value) : Restores (define name value) :=
  fun _ => ⟨rfl, rfl, rfl, rfl, rfl, rfl⟩

theorem restores_bound (method? : Option Method) (i : Instance) (property : String) (line : Nat) :
    Restores (bound method? i property line) := by
  cases method? with
  | none => exact restores_fail _ _
  | some method => exact (restores_create _).bind fun f => restores_pure _

theorem restores_property (object : Value) (name : Name) : Restores (property object name) := by
  intro m
  rcases property_cases object name m with ⟨_, _, _, _, same⟩ | ⟨i, _, _, same⟩ | same
  · exact leaves_congr same ▸ .refl m
  · exact leaves_congr same ▸ restores_bound _ i _ _ m
  · exact leaves_congr same ▸ .refl m

theorem restores_setField (i : Instance) (name : String) (value : Value) :
    Restores (setField i name value) :=
  fun _ => ⟨rfl, rfl, rfl, rfl, rfl, rfl⟩

theorem restores_superMethod (id : NodeId) (line : Nat) (method : String) :
    Restores (superMethod id line method) := by
  intro m
  rcases superMethod_cases id line method m with ⟨_, _, i, _, _, _, same⟩ | ⟨_, same⟩
  · exact leaves_congr same ▸ restores_bound _ i _ _ m
  · exact leaves_congr same ▸ .refl m

theorem restores_write (text : String) (line : Nat) : Restores (write text line) := by
  intro m
  have policy := Sink.policy_write m.sink text
  unfold leaves write
  cases written : m.sink.write text with
  | mk refusal sink =>
    rw [written] at policy
    cases refusal <;> exact ⟨rfl, rfl, rfl, rfl, rfl, policy⟩

theorem restores_writeAll (line : Nat) (texts : List String) : Restores (writeAll line texts) := by
  induction texts with
  | nil => exact restores_pure ()
  | cons text texts ih => exact (restores_write text line).bind fun _ => ih

theorem restores_print (value : Value) (line : Nat) : Restores (print value line) :=
  restores_writeAll line _

/-- The frame that was current before a block is current after it, if the block restores its own. -/
theorem restores_inFrame (frame : Address) {body : Eval α} (inside : body.Restores) :
    Restores (inFrame frame body) := by
  intro m
  have same := inside { m with current := frame }
  unfold leaves at same ⊢
  unfold inFrame
  cases ends : body { m with current := frame } with
  | ok a m' =>
    rw [ends] at same
    exact ⟨same.globals, rfl, same.distances, same.depth, same.maxDepth, same.policy⟩
  | error stop m' =>
    rw [ends] at same
    exact ⟨same.globals, rfl, same.distances, same.depth, same.maxDepth, same.policy⟩

/-- The depth before a call is the depth after it, also where the limit refuses the call. -/
theorem restores_inCall (line : Nat) {body : Eval α} (inside : body.Restores) :
    Restores (inCall line body) := by
  intro m
  have same := inside { m with depth := m.depth + 1 }
  unfold leaves at same ⊢
  unfold inCall
  by_cases full : m.maxDepth ≤ m.depth
  · rw [if_pos full]
    exact .refl m
  · rw [if_neg full]
    dsimp only
    cases ends : body { m with depth := m.depth + 1 } with
    | ok a m' =>
      rw [ends] at same
      exact ⟨same.globals, same.current, same.distances, rfl, same.maxDepth, same.policy⟩
    | error stop m' =>
      rw [ends] at same
      exact ⟨same.globals, same.current, same.distances, rfl, same.maxDepth, same.policy⟩

/-! ## The parts of calls and declarations -/

theorem restores_enterFunction (f : Closure) (arguments : List Value) :
    Restores (enterFunction f arguments) := by
  unfold enterFunction
  exact restores_create _

theorem restores_result (f : Closure) (line : Nat) (completion : Completion) :
    Restores (result f line completion) := by
  intro m
  rcases result_cases f line completion m with
    ⟨_, _, _, same⟩ | ⟨_, _, same⟩ | ⟨_, _, _, same⟩ | ⟨_, _, same⟩
  all_goals exact leaves_congr same ▸ .refl m

theorem restores_callNative (f : Native) (arguments : List Value) (line : Nat) :
    Restores (callNative f arguments line) :=
  Restores.bind (fun _ => ⟨rfl, rfl, rfl, rfl, rfl, rfl⟩) fun _ => restores_orFail line _

theorem restores_checkCall (callee : Value) (count line : Nat) :
    Restores (checkCall callee count line) := by
  unfold checkCall
  cases callee.arity? with
  | none => exact restores_fail _ _
  | some arity =>
    show Restores (if count = arity then pure () else fail _ _)
    split
    · exact restores_pure ()
    · exact restores_fail _ _

theorem restores_superclass? (parent : Option Superclass) : Restores (superclass? parent) := by
  cases parent with
  | none => exact restores_pure none
  | some parent =>
    refine (restores_lookUp _ _ _).bind fun value => ?_
    cases value with
    | «class» c => exact restores_pure (some c)
    | nil | bool | number | string | native | closure | «instance» => exact restores_fail _ _

theorem restores_methodFrame (parent : Option Class) : Restores (methodFrame parent) := by
  intro m
  cases parent with
  | none => exact .refl m
  | some c =>
    exact restores_create (·.allocateFrame (some m.current) (Bindings.empty.set "super" (.class c)))
      m

theorem restores_declareClass (name : Name) (parent : Option Superclass)
    (methods : List FunctionDecl) : Restores (declareClass name parent methods) :=
  (restores_superclass? parent).bind fun parent =>
    (restores_methodFrame parent).bind fun _ =>
      (restores_create _).bind fun _ => restores_define _ _

theorem restores_declareFunction (declaration : FunctionDecl) :
    Restores (declareFunction declaration) := by
  intro m
  have steps : Restores (do
      let f ← create (·.newClosure declaration m.current false)
      define declaration.name.lexeme (.closure f)) :=
    (restores_create _).bind fun f => restores_define _ (.closure f)
  exact steps m

theorem restores_openBlock : Restores openBlock :=
  fun m => restores_create (·.allocateFrame (some m.current) .empty) m

end Eval

open Eval

/-! ## The evaluator -/

/-- All functions of the evaluator restore the machine within a bound. -/
structure Restoring (bound : Nat) : Prop where
  evaluate (e : Expr) : Restores (evaluate bound e)
  evaluateAll (es : List Expr) : Restores (evaluateAll bound es)
  call (callee : Value) (arguments : List Value) (line : Nat) :
    Restores (call bound callee arguments line)
  invoke (f : Closure) (arguments : List Value) (line : Nat) :
    Restores (invoke bound f arguments line)
  execute (s : Stmt) : Restores (execute bound s)
  executeWhile (condition : Expr) (body : Stmt) : Restores (executeWhile bound condition body)
  executeAll (ss : List Stmt) : Restores (executeAll bound ss)

namespace Restoring

variable {n : Nat}

theorem zero : Restoring 0 := by
  constructor <;> intros <;> exact restores_throw _

theorem evaluate_succ (inner : Restoring n) (e : Expr) : Restores (Lox.evaluate (n + 1) e) := by
  cases e with
  | literal value => exact restores_pure _
  | grouping e => exact inner.evaluate e
  | unary op right line => exact (inner.evaluate right).bind fun _ => restores_orFail _ _
  | binary left op right line =>
    exact (inner.evaluate left).bind fun _ =>
      (inner.evaluate right).bind fun _ => restores_orFail _ _
  | logical left op right =>
    refine (inner.evaluate left).bind fun value => ?_
    split
    · exact restores_pure value
    · exact inner.evaluate right
  | «variable» id name => exact restores_lookUp _ _ _
  | assign id name value =>
    exact (inner.evaluate value).bind fun _ => (restores_assign _ _ _).bind fun _ => restores_pure _
  | call callee arguments line =>
    exact (inner.evaluate callee).bind fun _ =>
      (inner.evaluateAll arguments).bind fun _ =>
        (restores_checkCall _ _ _).bind fun _ => inner.call _ _ _
  | get object name => exact (inner.evaluate object).bind fun _ => restores_property _ _
  | set object name value =>
    refine (inner.evaluate object).bind fun receiver => ?_
    cases receiver with
    | «instance» i =>
      exact (inner.evaluate value).bind fun _ =>
        (restores_setField _ _ _).bind fun _ => restores_pure _
    | nil | bool | number | string | native | closure | «class» => exact restores_fail _ _
  | this id line => exact restores_lookUp _ _ _
  | super id line method => exact restores_superMethod _ _ _

theorem evaluateAll_succ (inner : Restoring n) (es : List Expr) :
    Restores (Lox.evaluateAll (n + 1) es) := by
  cases es with
  | nil => exact restores_pure _
  | cons e es =>
    exact (inner.evaluate e).bind fun _ => (inner.evaluateAll es).bind fun _ => restores_pure _

theorem call_succ (inner : Restoring n) (callee : Value) (arguments : List Value) (line : Nat) :
    Restores (Lox.call (n + 1) callee arguments line) := by
  cases callee with
  | native f => exact restores_callNative f arguments line
  | closure f => exact inner.invoke f arguments line
  | «class» c =>
    refine (restores_create _).bind fun i => ?_
    cases c.method? initializerName with
    | none => exact restores_pure _
    | some method =>
      exact (restores_create _).bind fun _ => (inner.invoke _ _ _).bind fun _ => restores_pure _
  | nil | bool | number | string | «instance» => exact restores_fail _ _

theorem invoke_succ (inner : Restoring n) (f : Closure) (arguments : List Value) (line : Nat) :
    Restores (Lox.invoke (n + 1) f arguments line) :=
  (restores_enterFunction f arguments).bind fun frame =>
    (restores_inCall line (restores_inFrame frame (inner.executeAll _))).bind fun completion =>
      restores_result f line completion

theorem execute_succ (inner : Restoring n) (s : Stmt) : Restores (Lox.execute (n + 1) s) := by
  cases s with
  | expression e => exact (inner.evaluate e).bind fun _ => restores_pure _
  | print e =>
    exact (inner.evaluate e).bind fun _ => (restores_print _ _).bind fun _ => restores_pure _
  | var name initializer =>
    cases initializer with
    | none => exact (restores_define _ _).bind fun _ => restores_pure _
    | some e =>
      exact (inner.evaluate e).bind fun _ => (restores_define _ _).bind fun _ => restores_pure _
  | block body =>
    exact restores_openBlock.bind fun frame => restores_inFrame frame (inner.executeAll body)
  | «if» condition thenBranch elseBranch =>
    refine (inner.evaluate condition).bind fun value => ?_
    split
    · exact inner.execute thenBranch
    · cases elseBranch with
      | none => exact restores_pure _
      | some s => exact inner.execute s
  | «while» condition body => exact inner.executeWhile condition body
  | function declaration => exact (restores_declareFunction _).bind fun _ => restores_pure _
  | «return» line value =>
    cases value with
    | none => exact restores_pure _
    | some e => exact (inner.evaluate e).bind fun _ => restores_pure _
  | «class» name parent methods =>
    exact (restores_declareClass _ _ _).bind fun _ => restores_pure _

theorem executeWhile_succ (inner : Restoring n) (condition : Expr) (body : Stmt) :
    Restores (Lox.executeWhile (n + 1) condition body) := by
  refine (inner.evaluate condition).bind fun value => ?_
  split
  · refine (inner.execute body).bind fun completion => ?_
    cases completion with
    | normal => exact inner.executeWhile condition body
    | returned value => exact restores_pure _
  · exact restores_pure _

theorem executeAll_succ (inner : Restoring n) (ss : List Stmt) :
    Restores (Lox.executeAll (n + 1) ss) := by
  cases ss with
  | nil => exact restores_pure _
  | cons s ss =>
    refine (inner.execute s).bind fun completion => ?_
    cases completion with
    | normal => exact inner.executeAll ss
    | returned value => exact restores_pure _

theorem succ (inner : Restoring n) : Restoring (n + 1) :=
  ⟨inner.evaluate_succ, inner.evaluateAll_succ, inner.call_succ, inner.invoke_succ,
    inner.execute_succ, inner.executeWhile_succ, inner.executeAll_succ⟩

end Restoring

/-- **The evaluator restores the machine**, within any bound. -/
theorem restoring (bound : Nat) : Restoring bound := by
  induction bound with
  | zero => exact .zero
  | succ n ih => exact ih.succ

theorem restores_executeBlock (bound : Nat) (body : List Stmt) (frame : Address) :
    Restores (executeBlock bound body frame) :=
  restores_inFrame frame ((restoring bound).executeAll body)

theorem restores_executeProgram (bound : Nat) (program : List Stmt) :
    Restores (executeProgram bound program) := by
  induction program with
  | nil => exact restores_pure ()
  | cons s ss ih => exact ((restoring bound).execute s).bind fun _ => ih

theorem restores_interpret (bound : Nat) (program : List Stmt) :
    Restores (interpret bound program) := by
  intro m
  have same := restores_executeProgram bound program m
  unfold leaves at same ⊢
  unfold interpret
  cases ends : executeProgram bound program m with
  | ok a m' =>
    rw [ends] at same
    unfold Sink.flush
    dsimp only
    cases m'.sink.policy.refusesFlush m'.sink.tally <;>
      exact ⟨same.globals, same.current, same.distances, same.depth, same.maxDepth,
        same.policy⟩
  | error stop m' =>
    rw [ends] at same
    cases stop with
    | error e =>
      exact ⟨same.globals, same.current, same.distances, same.depth, same.maxDepth,
        same.policy⟩
    | exhausted => exact same

end Lox
