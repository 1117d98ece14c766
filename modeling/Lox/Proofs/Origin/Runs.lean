import Lox.Proofs.Origin.Machines

/-!
# What a run traces back to the source

Each function of the evaluator, run on code that is made of certain tokens, traces back to them what
it leaves, what it gives and what it blames (`Eval.Traces`). Expressions, calls and loops declare
nothing; a statement declares its own name, if it has one, in the frame that is current, and a list
of statements declares those of its members. The induction is on the bound.
-/

set_option autoImplicit false

namespace Lox

open Eval

/-- The names that a statement declares in the frame in which it is executed: that of a variable, a
function or a class. -/
def Stmt.declares (s : Stmt) (name : String) : Prop :=
  ∃ own ∈ s.declared?, own.lexeme = name

/-- Whether a value that a statement returns is made of the tokens. -/
def Completion.From (o : Origin) (completion : Completion) : Prop :=
  ∀ value, completion = .returned value → value.From o

variable {o : Origin} {names : String → Prop}

theorem Completion.from_normal : Completion.normal.From o := nofun

theorem Completion.from_returned {value : Value} (good : value.From o) :
    (Completion.returned value).From o := by
  rintro _ ⟨⟩
  exact good

theorem Stmt.not_declares_of_plain {s : Stmt} (plain : s.isPlain = true) {name : String} :
    ¬s.declares name := by
  rintro ⟨own, declared, -⟩
  rw [Stmt.isPlain, declared] at plain
  cases plain

/-- All functions of the evaluator trace back what they do, within a bound. -/
structure Tracing (o : Origin) (bound : Nat) : Prop where
  evaluate (e : Expr) : e.From o → Traces o none nothing (Value.From o) (evaluate bound e)
  evaluateAll (es : List Expr) : (∀ e ∈ es, e.From o) →
    Traces o none nothing (fun values => ∀ value ∈ values, value.From o) (evaluateAll bound es)
  call (callee : Value) (arguments : List Value) (line : Nat) : callee.From o →
    (∀ value ∈ arguments, value.From o) → o.HasLine line →
    Traces o none nothing (Value.From o) (call bound callee arguments line)
  invoke (f : Closure) (arguments : List Value) (line : Nat) : f.declaration.From o →
    (∀ value ∈ arguments, value.From o) → o.HasLine line →
    Traces o none nothing (Value.From o) (invoke bound f arguments line)
  execute (s : Stmt) : s.From o →
    Traces o none s.declares (Completion.From o) (execute bound s)
  executeWhile (condition : Expr) (body : Stmt) : condition.From o → body.From o →
    body.isPlain = true →
    Traces o none nothing (Completion.From o) (executeWhile bound condition body)
  executeAll (ss : List Stmt) (names : String → Prop) : (∀ s ∈ ss, s.From o) →
    (∀ s ∈ ss, ∀ name, s.declares name → names name) →
    Traces o none names (Completion.From o) (executeAll bound ss)

namespace Tracing

variable {n : Nat}

theorem zero : Tracing o 0 := by
  constructor <;> intros <;> exact traces_exhausted

/-- A statement that declares nothing is traced as one. -/
theorem execute_plain (inner : Tracing o n) {s : Stmt} (from_ : s.From o)
    (plain : s.isPlain = true) :
    Traces o none names (Completion.From o) (Lox.execute n s) :=
  (inner.execute s from_).weaken fun _ declared => (Stmt.not_declares_of_plain plain declared).elim

theorem evaluate_succ (inner : Tracing o n) (e : Expr) (from_ : e.From o) :
    Traces o none nothing (Value.From o) (Lox.evaluate (n + 1) e) := by
  cases e with
  | literal value => exact traces_pure (Value.from_of_isData (Value.isData_ofLiteral value))
  | grouping e => exact inner.evaluate e from_
  | unary op right line =>
    exact (inner.evaluate right from_.2).bind fun _ _ =>
      traces_orFail from_.1 fun _ ok => Value.from_of_isData (UnaryOp.isData_apply ok)
  | binary left op right line =>
    exact (inner.evaluate left from_.2.1).bind fun _ _ =>
      (inner.evaluate right from_.2.2).bind fun _ _ =>
        traces_orFail from_.1 fun _ ok => Value.from_of_isData (BinaryOp.isData_apply ok)
  | logical left op right =>
    refine (inner.evaluate left from_.1).bind fun value good => ?_
    split
    · exact traces_pure good
    · exact inner.evaluate right from_.2
  | «variable» id name => exact traces_lookUp _ _ (Name.From.hasLine from_)
  | assign id name value =>
    exact (inner.evaluate value from_.2).bind fun _ good =>
      (traces_assign id from_.1 good).bind fun _ _ => traces_pure good
  | call callee arguments line =>
    exact (inner.evaluate callee from_.2.1).bind fun _ good =>
      (inner.evaluateAll arguments (Expr.allFrom_iff.mp from_.2.2)).bind fun _ given =>
        (traces_checkCall _ _ from_.1).bind fun _ _ => inner.call _ _ _ good given from_.1
  | get object name =>
    exact (inner.evaluate object from_.2).bind fun _ good => traces_property good from_.1
  | set object name value =>
    refine (inner.evaluate object from_.2.1).bind fun receiver good => ?_
    cases receiver with
    | «instance» i =>
      exact (inner.evaluate value from_.2.2).bind fun _ good' =>
        (traces_setField i _ good').bind fun _ _ => traces_pure good'
    | nil | bool | number | string | native | closure | «class» =>
      exact traces_fail _ from_.1.hasLine
  | this id line => exact traces_lookUp _ _ from_
  | super id line method => exact traces_superMethod _ _ from_.1

theorem evaluateAll_succ (inner : Tracing o n) (es : List Expr) (from_ : ∀ e ∈ es, e.From o) :
    Traces o none nothing (fun values => ∀ value ∈ values, value.From o)
      (Lox.evaluateAll (n + 1) es) := by
  cases es with
  | nil => exact traces_pure fun _ member => absurd member List.not_mem_nil
  | cons e es =>
    obtain ⟨first, rest⟩ := List.forall_mem_cons.mp from_
    exact (inner.evaluate e first).bind fun _ good =>
      (inner.evaluateAll es rest).bind fun _ given =>
        traces_pure (List.forall_mem_cons.mpr ⟨good, given⟩)

theorem call_succ (inner : Tracing o n) (callee : Value) (arguments : List Value) (line : Nat)
    (good : callee.From o) (given : ∀ value ∈ arguments, value.From o) (here : o.HasLine line) :
    Traces o none nothing (Value.From o) (Lox.call (n + 1) callee arguments line) := by
  cases callee with
  | native f => exact traces_callNative f given here
  | closure f => exact inner.invoke f arguments line good given here
  | «class» c =>
    have created : Traces o none nothing (fun i : Instance => i.of.From o)
        (create (·.newInstance c)) :=
      traces_create fun h code => ⟨good, code.allocate nofun, fun a => .allocate h _ a _⟩
    refine created.bind fun i receiver => ?_
    cases found : c.method? initializerName with
    | none => exact traces_pure receiver
    | some method =>
      exact (traces_bindMethod (Class.From.method? good found) receiver).bind fun init code =>
        (inner.invoke init arguments line code given here).bind fun _ _ => traces_pure receiver
  | nil | bool | number | string | «instance» => exact traces_fail _ here

/-- A call runs in a frame of its own. -/
theorem invoke_succ (inner : Tracing o n) (f : Closure) (arguments : List Value) (line : Nat)
    (code : f.declaration.From o) (given : ∀ value ∈ arguments, value.From o)
    (here : o.HasLine line) :
    Traces o none nothing (Value.From o) (Lox.invoke (n + 1) f arguments line) := by
  -- Whatever names the body declares, they are declared in the frame of the call.
  have body (frame : Address) := (inner.executeAll f.declaration.body (fun _ => True)
    (Stmt.allFrom_iff.mp code.body) fun _ _ _ _ => trivial).inFrame frame
  exact traces_opened (opens_function f given) fun frame =>
    ((body frame).inCall here).bind fun _ good => traces_result f here good

theorem execute_succ (inner : Tracing o n) (s : Stmt) (from_ : s.From o) :
    Traces o none s.declares (Completion.From o) (Lox.execute (n + 1) s) := by
  cases s with
  | expression e =>
    exact (inner.evaluate e from_).still.bind fun _ _ => traces_pure Completion.from_normal
  | print e =>
    refine (inner.evaluate e from_.1).still.bind fun value _ => ?_
    refine (traces_print value ?_).bind fun _ _ => traces_pure Completion.from_normal
    -- A bare constant has no line, so a refused output is reported at line 0 there.
    cases bare : e.isBare with
    | true => exact .inr ⟨from_.2 bare, e.line_of_isBare bare⟩
    | false => exact .inl (Expr.From.hasLine e from_.1 bare)
  | var name initializer =>
    have own : ∀ key, key = name.lexeme → (Stmt.var name initializer).declares key :=
      fun _ same => ⟨name, rfl, same.symm⟩
    cases initializer with
    | none =>
      exact ((traces_define from_.1 .nil trivial).weaken own).bind fun _ _ =>
        traces_pure Completion.from_normal
    | some e =>
      exact (inner.evaluate e from_.2).still.bind fun value good =>
        ((traces_define from_.1 value good).weaken own).bind fun _ _ =>
          traces_pure Completion.from_normal
  | block body =>
    have inside (frame : Address) := (inner.executeAll body (fun _ => True)
      (Stmt.allFrom_iff.mp from_) fun _ _ _ _ => trivial).inFrame frame
    exact traces_opened opens_block inside
  | «if» condition thenBranch elseBranch =>
    refine (inner.evaluate condition from_.1).still.bind fun value _ => ?_
    split
    · exact inner.execute_plain from_.2.1.1 from_.2.1.2
    · cases elseBranch with
      | none => exact traces_pure Completion.from_normal
      | some s => exact inner.execute_plain from_.2.2.1 from_.2.2.2
  | «while» condition body =>
    exact (inner.executeWhile condition body from_.1 from_.2.1 from_.2.2).still
  | function declaration =>
    have own : ∀ key, key = declaration.name.lexeme → (Stmt.function declaration).declares key :=
      fun _ same => ⟨declaration.name, rfl, same.symm⟩
    exact ((traces_declareFunction from_).weaken own).bind fun _ _ =>
      traces_pure Completion.from_normal
  | «return» line value =>
    cases value with
    | none => exact traces_pure (Completion.from_returned trivial)
    | some e =>
      exact (inner.evaluate e from_).still.bind fun _ good =>
        traces_pure (Completion.from_returned good)
  | «class» name parent methods =>
    have own : ∀ key, key = name.lexeme → (Stmt.class name parent methods).declares key :=
      fun _ same => ⟨name, rfl, same.symm⟩
    exact ((traces_declareClass from_.1 from_.2.1
      (FunctionDecl.allFrom_iff.mp from_.2.2)).weaken own).bind fun _ _ =>
        traces_pure Completion.from_normal

theorem executeWhile_succ (inner : Tracing o n) (condition : Expr) (body : Stmt)
    (test : condition.From o) (from_ : body.From o) (plain : body.isPlain = true) :
    Traces o none nothing (Completion.From o) (Lox.executeWhile (n + 1) condition body) := by
  refine (inner.evaluate condition test).bind fun value _ => ?_
  split
  · refine (inner.execute_plain from_ plain).bind fun completion good => ?_
    cases completion with
    | normal => exact inner.executeWhile condition body test from_ plain
    | returned value => exact traces_pure good
  · exact traces_pure Completion.from_normal

theorem executeAll_succ (inner : Tracing o n) (ss : List Stmt) (names : String → Prop)
    (from_ : ∀ s ∈ ss, s.From o) (declared : ∀ s ∈ ss, ∀ name, s.declares name → names name) :
    Traces o none names (Completion.From o) (Lox.executeAll (n + 1) ss) := by
  cases ss with
  | nil => exact traces_pure Completion.from_normal
  | cons s ss =>
    obtain ⟨first, rest⟩ := List.forall_mem_cons.mp from_
    obtain ⟨own, others⟩ := List.forall_mem_cons.mp declared
    refine ((inner.execute s first).weaken own).bind fun completion good => ?_
    cases completion with
    | normal => exact inner.executeAll ss names rest others
    | returned value => exact traces_pure good

theorem succ (inner : Tracing o n) : Tracing o (n + 1) :=
  ⟨inner.evaluate_succ, inner.evaluateAll_succ, inner.call_succ, inner.invoke_succ,
    inner.execute_succ, inner.executeWhile_succ, inner.executeAll_succ⟩

end Tracing

/-- **Every run traces back what it does**, within any bound. -/
theorem tracing (o : Origin) (bound : Nat) : Tracing o bound := by
  induction bound with
  | zero => exact .zero
  | succ n ih => exact ih.succ

theorem traces_executeProgram (bound : Nat) {program : List Stmt}
    (from_ : ∀ s ∈ program, s.From o) :
    Traces o none (fun _ => True) (fun _ => True) (executeProgram bound program) := by
  induction program with
  | nil => exact traces_pure trivial
  | cons s ss ih =>
    obtain ⟨first, rest⟩ := List.forall_mem_cons.mp from_
    exact (((tracing o bound).execute s first).weaken fun _ _ => trivial).bind fun _ _ => ih rest

/-- An error of a whole program is that of a flush at its end, or blamed on the source. -/
theorem blamed_of_interpret (bound : Nat) {program : List Stmt} (from_ : ∀ s ∈ program, s.From o)
    {m m' : Machine} (code : m.heap.From o) {e : RuntimeError}
    (ends : interpret bound program m = .error (.error e) m') :
    (∃ reason m₁, executeProgram bound program m = .ok () m₁ ∧
      m₁.sink.policy.refusesFlush m₁.sink.tally = some reason ∧ e = ⟨.output reason, 0⟩) ∨
    e.Blamed o := by
  unfold interpret at ends
  cases ended : executeProgram bound program m with
  | ok _ m₁ =>
    rw [ended] at ends
    unfold Sink.flush at ends
    dsimp only at ends
    cases refuses : m₁.sink.policy.refusesFlush m₁.sink.tally with
    | none => rw [refuses] at ends; cases ends
    | some reason =>
      rw [refuses] at ends
      cases ends
      exact .inl ⟨reason, m₁, rfl, refuses, rfl⟩
  | error stop m₁ =>
    rw [ended] at ends
    cases stop with
    | exhausted => cases ends
    | error e₁ =>
      cases ends
      exact .inr ((traces_executeProgram bound from_).blamed code ended)

end Lox
