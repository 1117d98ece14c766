import Lox.Proofs.Relabelling.Machines

/-!
# Mirrored runs

The evaluator on a relabelled tree and a mirrored machine does what it does on the tree and the
machine: within any bound it ends in the same way, with the relabelled value or the same error at
the relabelled line, and leaves the mirrored machine.
-/

set_option autoImplicit false

namespace Lox

open Eval

/-- All functions of the evaluator are seen in a mirror, within a bound. -/
structure Mirroring (μ : Mirror) (ids : NodeId → Prop) (bound : Nat) : Prop where
  evaluate (e : Expr) : e.Within ids →
    Mirrors μ ids (evaluate bound e) (evaluate bound (e.relabel μ.toRelabelling))
  evaluateAll (es : List Expr) : (∀ e ∈ es, e.Within ids) →
    Mirrors μ ids (evaluateAll bound es)
      (evaluateAll bound (es.map (Expr.relabel μ.toRelabelling)))
  call (callee : Value) (arguments : List Value) (line : Nat) : callee.Within ids →
    (∀ value ∈ arguments, value.Within ids) →
    Mirrors μ ids (call bound callee arguments line)
      (call bound (callee.relabel μ.toRelabelling)
        (arguments.map (Value.relabel μ.toRelabelling)) (μ.line line))
  invoke (f : Closure) (arguments : List Value) (line : Nat) : f.declaration.Within ids →
    (∀ value ∈ arguments, value.Within ids) →
    Mirrors μ ids (invoke bound f arguments line)
      (invoke bound (f.relabel μ.toRelabelling)
        (arguments.map (Value.relabel μ.toRelabelling)) (μ.line line))
  execute (s : Stmt) : s.Within ids →
    Mirrors μ ids (execute bound s) (execute bound (s.relabel μ.toRelabelling))
  executeWhile (condition : Expr) (body : Stmt) : condition.Within ids → body.Within ids →
    Mirrors μ ids (executeWhile bound condition body)
      (executeWhile bound (condition.relabel μ.toRelabelling) (body.relabel μ.toRelabelling))
  executeAll (ss : List Stmt) : (∀ s ∈ ss, s.Within ids) →
    Mirrors μ ids (executeAll bound ss)
      (executeAll bound (ss.map (Stmt.relabel μ.toRelabelling)))

namespace Mirroring

variable {μ : Mirror} {ids : NodeId → Prop} {n : Nat}

theorem zero : Mirroring μ ids 0 := by
  constructor <;> intros <;> exact mirrors_exhausted

theorem evaluate_succ (inner : Mirroring μ ids n) (e : Expr) (within : e.Within ids) :
    Mirrors μ ids (Lox.evaluate (n + 1) e)
      (Lox.evaluate (n + 1) (e.relabel μ.toRelabelling)) := by
  cases e with
  | literal value =>
    have given : (Value.ofLiteral value).Within ids :=
      Value.within_of_isData (Value.isData_ofLiteral value)
    have literal := mirrors_pure (μ := μ) (a := Value.ofLiteral value) given
    rw [show Relabels.relabel μ.toRelabelling (Value.ofLiteral value) = Value.ofLiteral value from
      Value.relabel_ofLiteral value] at literal
    exact literal
  | grouping e => exact inner.evaluate e within
  | unary op right line =>
    refine (inner.evaluate right within).bind fun value _ => ?_
    -- An operator gives the same for relabelled operands: it reads no code.
    have result : Mirrors μ ids (Eval.orFail line (op.apply value)) _ :=
      mirrors_orFail line _ fun _ ok => Value.within_of_isData (UnaryOp.isData_apply ok)
    exact (UnaryOp.apply_relabel op value).symm ▸ result
  | binary left op right line =>
    obtain ⟨first, second⟩ := List.forall_mem_append.mp within
    refine (inner.evaluate left first).bind fun value _ => ?_
    refine (inner.evaluate right second).bind fun other _ => ?_
    have result : Mirrors μ ids (Eval.orFail line (op.apply value other)) _ :=
      mirrors_orFail line _ fun _ ok => Value.within_of_isData (BinaryOp.isData_apply ok)
    exact (BinaryOp.apply_relabel op value other).symm ▸ result
  | logical left op right =>
    obtain ⟨first, second⟩ := List.forall_mem_append.mp within
    refine (inner.evaluate left first).bind fun value known => ?_
    show Mirrors μ ids _ (if op.stopsAt (value.relabel μ.toRelabelling) then _ else _)
    rw [LogicalOp.stopsAt_relabel]
    split
    · exact mirrors_pure (a := value) known
    · exact inner.evaluate right second
  | «variable» id name =>
    exact mirrors_lookUp (within _ List.mem_cons_self) name.lexeme name.line
  | assign id name value =>
    obtain ⟨inside, own⟩ := List.forall_mem_append.mp within
    refine (inner.evaluate value inside).bind fun result known => ?_
    refine (mirrors_assign (own _ List.mem_cons_self) name known).bind fun _ _ => ?_
    exact mirrors_pure (a := result) known
  | call callee arguments line =>
    obtain ⟨first, second⟩ := List.forall_mem_append.mp within
    refine (inner.evaluate callee first).bind fun f code => ?_
    have values := inner.evaluateAll arguments (Expr.within_of_all second)
    rw [← Expr.relabelAll_eq_map] at values
    refine values.bind fun values given => ?_
    have count : Mirrors μ ids (checkCall f values.length line)
        (checkCall (f.relabel μ.toRelabelling)
          (values.map (Value.relabel μ.toRelabelling)).length (μ.line line)) := by
      rw [List.length_map]
      exact mirrors_checkCall f values.length line
    exact count.bind fun _ _ => inner.call f values line code given
  | get object name =>
    exact (inner.evaluate object within).bind fun value known => mirrors_property known name
  | set object name value =>
    obtain ⟨second, first⟩ := List.forall_mem_append.mp within
    refine (inner.evaluate object first).bind fun receiver _ => ?_
    cases receiver with
    | «instance» i =>
      refine (inner.evaluate value second).bind fun result known => ?_
      refine (mirrors_setField name.lexeme known).bind fun _ _ => ?_
      exact mirrors_pure (a := result) known
    | nil | bool | number | string | native | closure | «class» => exact mirrors_fail _ _
  | this id line => exact mirrors_lookUp (within _ List.mem_cons_self) "this" line
  | super id line method =>
    exact mirrors_superMethod (within _ List.mem_cons_self) line method.lexeme

theorem evaluateAll_succ (inner : Mirroring μ ids n) (es : List Expr)
    (within : ∀ e ∈ es, e.Within ids) :
    Mirrors μ ids (Lox.evaluateAll (n + 1) es)
      (Lox.evaluateAll (n + 1) (es.map (Expr.relabel μ.toRelabelling))) := by
  cases es with
  | nil => exact mirrors_pure (a := ([] : List Value)) fun _ member => absurd member List.not_mem_nil
  | cons e es =>
    obtain ⟨first, rest⟩ := List.forall_mem_cons.mp within
    refine (inner.evaluate e first).bind fun value known => ?_
    refine (inner.evaluateAll es rest).bind fun values given => ?_
    exact mirrors_pure (a := value :: values) (List.forall_mem_cons.mpr ⟨known, given⟩)

theorem call_succ (inner : Mirroring μ ids n) (callee : Value) (arguments : List Value)
    (line : Nat) (code : callee.Within ids) (given : ∀ value ∈ arguments, value.Within ids) :
    Mirrors μ ids (Lox.call (n + 1) callee arguments line)
      (Lox.call (n + 1) (callee.relabel μ.toRelabelling)
        (arguments.map (Value.relabel μ.toRelabelling)) (μ.line line)) := by
  cases callee with
  | native f =>
    refine (mirrors_readClock f).bind fun reading _ => ?_
    have result : Mirrors μ ids (orFail line (f.call reading arguments)) _ :=
      mirrors_orFail line _ fun value ok =>
        (Native.call_cases ok).elim Value.within_of_isData (given value)
    rwa [show Except.map (relabel μ.toRelabelling) (f.call reading arguments) = _ from
      (Native.call_relabel f reading arguments).symm] at result
  | closure f => exact inner.invoke f arguments line code given
  | «class» c =>
    refine (mirrors_newInstance code).bind fun i receiver => ?_
    have init : (c.relabel μ.toRelabelling).method? initializerName
        = (c.method? initializerName).map (Method.relabel μ.toRelabelling) :=
      Class.method?_relabel c initializerName
    rw [init]
    cases found : c.method? initializerName with
    | none => exact mirrors_pure (a := Value.instance i) receiver
    | some method =>
      refine (mirrors_bindMethod (Class.Within.method? code found) receiver).bind fun f body => ?_
      refine (inner.invoke f arguments line body given).bind fun _ _ => ?_
      exact mirrors_pure (a := Value.instance i) receiver
  | nil | bool | number | string | «instance» => exact mirrors_fail _ _

theorem invoke_succ (inner : Mirroring μ ids n) (f : Closure) (arguments : List Value)
    (line : Nat) (code : f.declaration.Within ids)
    (given : ∀ value ∈ arguments, value.Within ids) :
    Mirrors μ ids (Lox.invoke (n + 1) f arguments line)
      (Lox.invoke (n + 1) (f.relabel μ.toRelabelling)
        (arguments.map (Value.relabel μ.toRelabelling)) (μ.line line)) := by
  refine (mirrors_enterFunction f given).bind fun frame _ => ?_
  have body := inner.executeAll f.declaration.body code.body
  rw [← FunctionDecl.body_relabel] at body
  exact ((body.inFrame frame).inCall line).bind fun _ within => mirrors_result f line within

theorem execute_succ (inner : Mirroring μ ids n) (s : Stmt) (within : s.Within ids) :
    Mirrors μ ids (Lox.execute (n + 1) s)
      (Lox.execute (n + 1) (s.relabel μ.toRelabelling)) := by
  have normal : Mirrors μ ids (pure Completion.normal) (pure .normal) :=
    mirrors_pure (a := Completion.normal) trivial
  cases s with
  | expression e => exact (inner.evaluate e within).bind fun _ _ => normal
  | print e =>
    refine (inner.evaluate e within).bind fun value _ => ?_
    have printed : Mirrors μ ids (Eval.print value e.line) _ := mirrors_print value e.line
    rw [← Expr.line_relabel] at printed
    exact printed.bind fun _ _ => normal
  | var name initializer =>
    cases initializer with
    | none => exact (mirrors_define name.lexeme .nil trivial).bind fun _ _ => normal
    | some e =>
      refine (inner.evaluate e within).bind fun value known => ?_
      exact (mirrors_define name.lexeme value known).bind fun _ _ => normal
  | block body =>
    refine mirrors_openBlock.bind fun frame _ => ?_
    rw [Stmt.relabelAll_eq_map]
    exact (inner.executeAll body (Stmt.within_of_all within)).inFrame frame
  | «if» condition thenBranch elseBranch =>
    obtain ⟨first, other⟩ := List.forall_mem_append.mp within
    obtain ⟨head, first⟩ := List.forall_mem_append.mp first
    refine (inner.evaluate condition head).bind fun value _ => ?_
    show Mirrors μ ids _ (if (value.relabel μ.toRelabelling).isTruthy then _ else _)
    rw [Value.isTruthy_relabel]
    split
    · exact inner.execute thenBranch first
    · cases elseBranch with
      | none => exact normal
      | some s => exact inner.execute s other
  | «while» condition body =>
    obtain ⟨head, inside⟩ := List.forall_mem_append.mp within
    exact inner.executeWhile condition body head inside
  | function declaration =>
    exact (mirrors_declareFunction within).bind fun _ _ => normal
  | «return» line value =>
    cases value with
    | none => exact mirrors_pure (a := Completion.returned .nil) trivial
    | some e =>
      refine (inner.evaluate e within).bind fun value known => ?_
      exact mirrors_pure (a := Completion.returned value) known
  | «class» name parent methods =>
    obtain ⟨head, code⟩ := List.forall_mem_append.mp within
    have above : ∀ other, parent = some other → ids other.id := by
      rintro other rfl
      exact head _ List.mem_cons_self
    rw [Stmt.relabel, FunctionDecl.relabelAll_eq_map]
    exact (mirrors_declareClass name above (FunctionDecl.within_of_all code)).bind
      fun _ _ => normal

theorem executeWhile_succ (inner : Mirroring μ ids n) (condition : Expr) (body : Stmt)
    (head : condition.Within ids) (inside : body.Within ids) :
    Mirrors μ ids (Lox.executeWhile (n + 1) condition body)
      (Lox.executeWhile (n + 1) (condition.relabel μ.toRelabelling)
        (body.relabel μ.toRelabelling)) := by
  refine (inner.evaluate condition head).bind fun value _ => ?_
  show Mirrors μ ids _ (if (value.relabel μ.toRelabelling).isTruthy then _ else _)
  rw [Value.isTruthy_relabel]
  split
  · refine (inner.execute body inside).bind fun completion known => ?_
    cases completion with
    | normal => exact inner.executeWhile condition body head inside
    | returned value => exact mirrors_pure (a := Completion.returned value) known
  · exact mirrors_pure (a := Completion.normal) trivial

theorem executeAll_succ (inner : Mirroring μ ids n) (ss : List Stmt)
    (within : ∀ s ∈ ss, s.Within ids) :
    Mirrors μ ids (Lox.executeAll (n + 1) ss)
      (Lox.executeAll (n + 1) (ss.map (Stmt.relabel μ.toRelabelling))) := by
  cases ss with
  | nil => exact mirrors_pure (a := Completion.normal) trivial
  | cons s ss =>
    obtain ⟨first, rest⟩ := List.forall_mem_cons.mp within
    refine (inner.execute s first).bind fun completion known => ?_
    cases completion with
    | normal => exact inner.executeAll ss rest
    | returned value => exact mirrors_pure (a := Completion.returned value) known

theorem succ (inner : Mirroring μ ids n) : Mirroring μ ids (n + 1) :=
  ⟨inner.evaluate_succ, inner.evaluateAll_succ, inner.call_succ, inner.invoke_succ,
    inner.execute_succ, inner.executeWhile_succ, inner.executeAll_succ⟩

end Mirroring

/-- **Runs are seen in a mirror**, within any bound. -/
theorem mirroring (μ : Mirror) (ids : NodeId → Prop) (bound : Nat) : Mirroring μ ids bound := by
  induction bound with
  | zero => exact .zero
  | succ n ih => exact ih.succ

theorem mirrors_executeProgram {μ : Mirror} {ids : NodeId → Prop} (bound : Nat)
    {program : List Stmt} (within : ∀ s ∈ program, s.Within ids) :
    Mirrors μ ids (executeProgram bound program)
      (executeProgram bound (program.map (Stmt.relabel μ.toRelabelling))) := by
  induction program with
  | nil => exact mirrors_pure trivial
  | cons s ss ih =>
    obtain ⟨first, rest⟩ := List.forall_mem_cons.mp within
    exact ((mirroring μ ids bound).execute s first).bind fun _ _ => ih rest

end Lox
