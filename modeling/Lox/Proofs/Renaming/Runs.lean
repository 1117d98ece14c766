import Lox.Proofs.Scoping.Sessions
import Lox.Proofs.Renaming.Analysis
import Lox.Proofs.Renaming.Machines

/-!
# Runs of renamed programs

Whatever runs in a frame, the renamed code does the same there, within any bound. The induction is
on the bound, and each construct is put together from the operations of the machine.
-/

set_option autoImplicit false

namespace Lox

open Eval

/-- What runs within a bound, and the renamed code, end alike. -/
structure Renaming.Runs (ρ : Renaming) (bound : Nat) : Prop where
  evaluate : ∀ (world : World) (marks : List Bool) (e : Expr),
    (∀ a ∈ e.accesses, a.name ≠ ρ.new) →
    Renames ρ world marks (Value.Renamed ρ) (evaluate bound e) (evaluate bound (e.rename ρ marks))
  evaluateAll : ∀ (world : World) (marks : List Bool) (es : List Expr),
    (∀ a ∈ Expr.accessesOfAll es, a.name ≠ ρ.new) →
    Renames ρ world marks (fun world => List.Forall₂ (Value.Renamed ρ world))
      (evaluateAll bound es) (evaluateAll bound (Expr.renameAll ρ marks es))
  call : ∀ (world : World) (marks : List Bool) (callee callee' : Value)
    (arguments arguments' : List Value) (line : Nat), callee.Renamed ρ world callee' →
    List.Forall₂ (Value.Renamed ρ world) arguments arguments' →
    Renames ρ world marks (Value.Renamed ρ) (call bound callee arguments line)
      (call bound callee' arguments' line)
  invoke : ∀ (world : World) (marks : List Bool) (f f' : Closure)
    (arguments arguments' : List Value) (line : Nat), f.Renamed ρ world f' →
    List.Forall₂ (Value.Renamed ρ world) arguments arguments' →
    Renames ρ world marks (Value.Renamed ρ) (invoke bound f arguments line)
      (invoke bound f' arguments' line)
  execute : ∀ (world : World) (marks : List Bool) (s s' : Stmt), s.Renamed ρ marks s' →
    Renames ρ world marks (Completion.Renamed ρ) (execute bound s) (execute bound s')
  executeWhile : ∀ (world : World) (marks : List Bool) (condition : Expr) (body body' : Stmt),
    (∀ a ∈ condition.accesses, a.name ≠ ρ.new) → body.Renamed ρ marks body' →
    Renames ρ world marks (Completion.Renamed ρ) (executeWhile bound condition body)
      (executeWhile bound (condition.rename ρ marks) body')
  executeAll : ∀ (world : World) (marks : List Bool) (ss ss' : List Stmt),
    Stmt.AllRenamed ρ marks ss ss' →
    Renames ρ world marks (Completion.Renamed ρ) (executeAll bound ss) (executeAll bound ss')

namespace Renaming.Runs

variable {ρ : Renaming} {n : Nat}

theorem zero : ρ.Runs 0 := by
  constructor <;> intros <;> exact renames_stop (.same _)

theorem evaluate_succ (inner : ρ.Runs n) (world : World) (marks : List Bool) (e : Expr)
    (fresh : ∀ a ∈ e.accesses, a.name ≠ ρ.new) :
    Renames ρ world marks (Value.Renamed ρ) (Lox.evaluate (n + 1) e)
      (Lox.evaluate (n + 1) (e.rename ρ marks)) := by
  cases e with
  | literal value => exact renames_pure (.data (Value.isData_ofLiteral value))
  | grouping e => exact inner.evaluate world marks e fresh
  | unary op right line =>
    refine (inner.evaluate world marks right fresh).bind fun more v v' _ value => ?_
    rw [op.apply_renamed value]
    exact renames_orFail line fun _ ok => UnaryOp.isData_apply ok
  | binary left op right line =>
    obtain ⟨first, second⟩ := List.forall_mem_append.mp fresh
    refine (inner.evaluate world marks left first).bind fun more v v' _ value => ?_
    refine (inner.evaluate more marks right second).bind fun more w w' grown other => ?_
    -- The left operand was computed before the right one made the world grow.
    rw [op.apply_renamed (value.mono grown) other]
    exact renames_orFail line fun _ ok => BinaryOp.isData_apply ok
  | logical left op right =>
    obtain ⟨first, second⟩ := List.forall_mem_append.mp fresh
    refine (inner.evaluate world marks left first).bind fun more v v' _ value => ?_
    rw [op.stopsAt_renamed value]
    split
    · exact renames_pure value
    · exact inner.evaluate more marks right second
  | «variable» id name => exact renames_lookUp id (fresh _ List.mem_cons_self) name.line
  | assign id name value =>
    obtain ⟨inside, own⟩ := List.forall_mem_append.mp fresh
    refine (inner.evaluate world marks value inside).bind fun more v v' _ result => ?_
    refine (renames_assign id (own _ List.mem_cons_self) result).bind fun more _ _ grown _ => ?_
    exact renames_pure (result.mono grown)
  | call callee arguments line =>
    obtain ⟨first, second⟩ := List.forall_mem_append.mp fresh
    refine (inner.evaluate world marks callee first).bind fun more f f' _ code => ?_
    refine (inner.evaluateAll more marks arguments second).bind fun more vs vs' grown given => ?_
    rw [← given.length_eq]
    refine (renames_checkCall (code.mono grown) vs.length line).bind fun later _ _ grown' _ => ?_
    exact inner.call later marks f f' vs vs' line (code.mono (grown.trans grown'))
      (given.imp fun _ _ value => value.mono grown')
  | get object name =>
    exact (inner.evaluate world marks object fresh).bind
      fun _ _ _ _ value => renames_property value name
  | set object name value =>
    obtain ⟨second, first⟩ := List.forall_mem_append.mp fresh
    refine (inner.evaluate world marks object first).bind fun more o o' _ receiver => ?_
    cases receiver with
    | «instance» receiver =>
      refine (inner.evaluate more marks value second).bind fun more v v' grown result => ?_
      refine (renames_setField (receiver.mono grown) name.lexeme result).bind
        fun more _ _ grown _ => ?_
      exact renames_pure (result.mono grown)
    | data plain =>
      cases o with
      | nil | bool | number | string | native => exact renames_fail _ _
      | closure | «class» | «instance» => cases plain
    | closure | «class» => exact renames_fail _ _
  | this id line =>
    -- No mark renames `this`, which is not the old name.
    have receiver : Renames ρ world marks (Value.Renamed ρ) (lookUp id "this" line)
        (lookUp id (ρ.apply (ρ.reaches marks id) "this") line) :=
      renames_lookUp id Renaming.this_ne_new line
    rwa [Renaming.apply_this] at receiver
  | super id line method => exact renames_superMethod id line method.lexeme

theorem evaluateAll_succ (inner : ρ.Runs n) (world : World) (marks : List Bool) (es : List Expr)
    (fresh : ∀ a ∈ Expr.accessesOfAll es, a.name ≠ ρ.new) :
    Renames ρ world marks (fun world => List.Forall₂ (Value.Renamed ρ world))
      (Lox.evaluateAll (n + 1) es) (Lox.evaluateAll (n + 1) (Expr.renameAll ρ marks es)) := by
  cases es with
  | nil => exact renames_pure .nil
  | cons e es =>
    obtain ⟨first, rest⟩ := List.forall_mem_append.mp fresh
    refine (inner.evaluate world marks e first).bind fun more v v' _ value => ?_
    refine (inner.evaluateAll more marks es rest).bind fun more vs vs' grown values => ?_
    exact renames_pure (.cons (value.mono grown) values)

theorem call_succ (inner : ρ.Runs n) (world : World) (marks : List Bool) (callee callee' : Value)
    (arguments arguments' : List Value) (line : Nat) (code : callee.Renamed ρ world callee')
    (given : List.Forall₂ (Value.Renamed ρ world) arguments arguments') :
    Renames ρ world marks (Value.Renamed ρ) (Lox.call (n + 1) callee arguments line)
      (Lox.call (n + 1) callee' arguments' line) := by
  cases code with
  | closure code => exact inner.invoke world marks _ _ arguments arguments' line code given
  | @«class» c c' code =>
    refine (renames_newInstance code).bind fun more i i' grown receiver => ?_
    have init := (code.mono grown).method? initializerName
    generalize c.method? initializerName = method, c'.method? initializerName = method' at init
    cases init with
    | none => exact renames_pure (.instance receiver)
    | some init =>
      refine (renames_bindMethod init receiver).bind fun more' f f' grown' body => ?_
      have given := given.imp fun _ _ value => value.mono (grown.trans grown')
      refine (inner.invoke more' marks f f' arguments arguments' line body given).bind
        fun more'' _ _ grown'' _ => ?_
      exact renames_pure (.instance (receiver.mono (grown'.trans grown'')))
  | data plain =>
    cases callee with
    | native f =>
      refine (renames_readClock f).bind fun more reading reading' grown same => ?_
      obtain rfl : reading = reading' := same.symm
      have given := given.imp fun _ _ value => value.mono grown
      rcases f.call_renamed reading given with ⟨v, v', ok, ok', value⟩ | ⟨cause, failed, failed'⟩
      · rw [ok, ok']
        exact renames_pure value
      · rw [failed, failed']
        exact renames_fail cause line
    | nil | bool | number | string => exact renames_fail _ _
    | closure | «class» | «instance» => cases plain
  | «instance» => exact renames_fail _ _

theorem invoke_succ (inner : ρ.Runs n) (world : World) (marks : List Bool) (f f' : Closure)
    (arguments arguments' : List Value) (line : Nat) (code : f.Renamed ρ world f')
    (given : List.Forall₂ (Value.Renamed ρ world) arguments arguments') :
    Renames ρ world marks (Value.Renamed ρ) (Lox.invoke (n + 1) f arguments line)
      (Lox.invoke (n + 1) f' arguments' line) := by
  have same := code
  obtain ⟨id, f, frame, isInitializer⟩ := f
  obtain ⟨id', f', frame', isInitializer'⟩ := f'
  obtain ⟨rfl, rfl, rfl, around, found, body⟩ := code
  cases body with
  | mk marked others inside =>
    -- The frame of the call is marked where the scope of the parameters is.
    refine (renames_enterFunction marked others found given).bind fun more a a' grown place => ?_
    have body := inner.executeAll more (marked :: around) _ _ inside
    refine ((body.inFrame place).inCall line).bind fun more' _ _ grown' ended => ?_
    exact renames_result (same.mono (grown.trans grown')) line ended

theorem execute_succ (inner : ρ.Runs n) (world : World) (marks : List Bool) (s s' : Stmt)
    (code : s.Renamed ρ marks s') :
    Renames ρ world marks (Completion.Renamed ρ) (Lox.execute (n + 1) s)
      (Lox.execute (n + 1) s') := by
  have normal (world : World) :
      Renames ρ world marks (Completion.Renamed ρ) (pure .normal) (pure .normal) :=
    renames_pure .normal
  cases code with
  | @expression _ e fresh =>
    exact (inner.evaluate world marks e fresh).bind fun more _ _ _ _ => normal more
  | @print _ e fresh =>
    refine (inner.evaluate world marks e fresh).bind fun more v v' _ value => ?_
    rw [Expr.line_rename]
    exact (renames_print value e.line).bind fun more _ _ _ _ => normal more
  | @var _ name initializer other fresh =>
    cases initializer with
    | none =>
      have nil : Value.Renamed ρ world .nil .nil := .data trivial
      exact (renames_define other nil).bind fun more _ _ _ _ => normal more
    | some e =>
      refine (inner.evaluate world marks e fresh).bind fun more v v' _ value => ?_
      exact (renames_define other value).bind fun more _ _ _ _ => normal more
  | @block _ body body' marked inside =>
    refine (renames_openBlock marked).bind fun more a a' _ place => ?_
    exact (inner.executeAll more (marked :: marks) body body' inside).inFrame place
  | @«if» _ condition thenBranch thenBranch' _ _ fresh first second =>
    refine (inner.evaluate world marks condition fresh).bind fun more v v' _ value => ?_
    rw [value.isTruthy]
    split
    · exact inner.execute more marks thenBranch thenBranch' first
    · cases second with
      | none => exact normal more
      | some branch => exact inner.execute more marks _ _ branch
  | «while» fresh inside => exact inner.executeWhile world marks _ _ _ fresh inside
  | function other kept code =>
    exact (renames_declareFunction other kept code).bind fun more _ _ _ _ => normal more
  | @«return» _ line value fresh =>
    cases value with
    | none => exact renames_pure (.returned (.data trivial))
    | some e =>
      refine (inner.evaluate world marks e fresh).bind fun more v v' _ value => ?_
      exact renames_pure (.returned value)
  | «class» other kept fresh code =>
    exact (renames_declareClass other kept fresh code).bind fun more _ _ _ _ => normal more

theorem executeWhile_succ (inner : ρ.Runs n) (world : World) (marks : List Bool) (condition : Expr)
    (body body' : Stmt) (fresh : ∀ a ∈ condition.accesses, a.name ≠ ρ.new)
    (code : body.Renamed ρ marks body') :
    Renames ρ world marks (Completion.Renamed ρ) (Lox.executeWhile (n + 1) condition body)
      (Lox.executeWhile (n + 1) (condition.rename ρ marks) body') := by
  refine (inner.evaluate world marks condition fresh).bind fun more v v' _ value => ?_
  rw [value.isTruthy]
  split
  · refine (inner.execute more marks body body' code).bind fun more completion _ _ ended => ?_
    cases ended with
    | normal => exact inner.executeWhile more marks condition body body' fresh code
    | returned value => exact renames_pure (.returned value)
  · exact renames_pure .normal

theorem executeAll_succ (inner : ρ.Runs n) (world : World) (marks : List Bool) (ss ss' : List Stmt)
    (code : Stmt.AllRenamed ρ marks ss ss') :
    Renames ρ world marks (Completion.Renamed ρ) (Lox.executeAll (n + 1) ss)
      (Lox.executeAll (n + 1) ss') := by
  cases code with
  | nil => exact renames_pure .normal
  | cons first rest =>
    refine (inner.execute world marks _ _ first).bind fun more completion _ _ ended => ?_
    cases ended with
    | normal => exact inner.executeAll more marks _ _ rest
    | returned value => exact renames_pure (.returned value)

theorem succ (inner : ρ.Runs n) : ρ.Runs (n + 1) :=
  ⟨inner.evaluate_succ, inner.evaluateAll_succ, inner.call_succ, inner.invoke_succ,
    inner.execute_succ, inner.executeWhile_succ, inner.executeAll_succ⟩

end Renaming.Runs

/-- **Renamed code runs as the code does**, within any bound. -/
theorem Renaming.runs (ρ : Renaming) (bound : Nat) : ρ.Runs bound := by
  induction bound with
  | zero => exact .zero
  | succ n ih => exact ih.succ

namespace Eval

variable {ρ : Renaming}

theorem renames_executeProgram (bound : Nat) (world : World) {marks : List Bool}
    {program renamed : List Stmt} (code : Stmt.AllRenamed ρ marks program renamed) :
    Renames ρ world marks Same (executeProgram bound program) (executeProgram bound renamed) := by
  induction program generalizing world renamed with
  | nil =>
    cases code with
    | nil => exact renames_pure rfl
  | cons s ss ih =>
    cases code with
    | cons first rest =>
      exact ((ρ.runs bound).execute world marks _ _ first).bind fun more _ _ _ _ => ih more rest

theorem renames_interpret (bound : Nat) (world : World) {marks : List Bool}
    {program renamed : List Stmt} (code : Stmt.AllRenamed ρ marks program renamed) :
    Renames ρ world marks Same (interpret bound program) (interpret bound renamed) := by
  intro m m' same
  have ends := renames_executeProgram bound world code m m' same
  unfold interpret
  generalize executeProgram bound program m = here, executeProgram bound renamed m' = there at ends
  cases ends with
  | @ok _ _ m m' more grown machine _ =>
    have sink : m'.sink = m.sink := by rw [machine.rest]
    dsimp only
    rw [sink]
    rcases m.sink.flush with ⟨refusal, sink⟩
    cases refusal with
    | none => exact .ok grown (machine.withSink sink) rfl
    | some reason => exact .error grown (machine.withSink sink) (.same _)
  | @error stop _ m m' more grown machine why =>
    have sink : m'.sink = m.sink := by rw [machine.rest]
    cases why with
    | undefined line =>
      dsimp only
      rw [sink]
      exact .error grown (machine.withSink _) (.undefined line)
    | same =>
      cases stop with
      | error e =>
        dsimp only
        rw [sink]
        exact .error grown (machine.withSink _) (.same _)
      | exhausted => exact .error grown machine (.same _)

end Eval

end Lox
