import Lox.Proofs.Heaps.Creations
import Lox.Proofs.Origin.Runs

/-!
# Runs are told by their happenings

The happenings of every run make a chain from the heap that it starts with to the heap that it
leaves, with a value at its end that may be found there. The induction is on the bound, with one lemma
for each function of the evaluator. A value that an expression gives is sound from then on, and so are
the frames that were opened, whatever else happens before they are used.
-/

set_option autoImplicit false

namespace Lox

namespace Traced

open Told (lift)

variable {o : Origin} {h : Heap}

theorem returnable_normal : Returnable o h .normal := nofun

theorem returnable_returned {value : Value} (sound : value.Sound o h) :
    Returnable o h (.returned value) := by
  rintro _ ⟨⟩
  exact sound

theorem chronicled_normal : Chronicled o h (Returnable o) (pure .normal) :=
  chronicled_pure fun _ _ => returnable_normal

theorem chronicled_returned {value : Value} (sound : value.Sound o h) :
    Chronicled o h (Returnable o) (pure (.returned value)) :=
  chronicled_pure fun _ keeps => returnable_returned (sound.mono keeps)

/-- All functions of the traced evaluator are told by their happenings, within a bound. -/
structure Chronicling (o : Origin) (bound : Nat) : Prop where
  evaluate (h : Heap) (e : Expr) : e.From o → Chronicled o h (Value.Sound o) (evaluate bound e)
  evaluateAll (h : Heap) (es : List Expr) : (∀ e ∈ es, e.From o) →
    Chronicled o h (fun h' values => ∀ value ∈ values, value.Sound o h') (evaluateAll bound es)
  call (h : Heap) (site : CallSite) (callee : Value) (arguments : List Value) :
    callee.Sound o h → (∀ value ∈ arguments, value.Sound o h) →
    Chronicled o h (Value.Sound o) (call bound site callee arguments)
  invoke (h : Heap) (site : CallSite) (callee : Value) (f : Closure) (arguments : List Value) :
    (Value.closure f).Sound o h → (∀ value ∈ arguments, value.Sound o h) →
    Chronicled o h (Value.Sound o) (invoke bound site callee f arguments)
  execute (h : Heap) (s : Stmt) : s.From o → Chronicled o h (Returnable o) (execute bound s)
  executeWhile (h : Heap) (condition : Expr) (body : Stmt) : condition.From o → body.From o →
    Chronicled o h (Returnable o) (executeWhile bound condition body)
  executeAll (h : Heap) (ss : List Stmt) : (∀ s ∈ ss, s.From o) →
    Chronicled o h (Returnable o) (executeAll bound ss)

namespace Chronicling

variable {n : Nat}

theorem zero : Chronicling o 0 := by
  constructor <;> intros
  case invoke => exact chronicled_exhausted.after_note fun _ => rfl
  all_goals exact chronicled_exhausted

theorem evaluate_succ (inner : Chronicling o n) (h : Heap) (e : Expr) (from_ : e.From o) :
    Chronicled o h (Value.Sound o) (Traced.evaluate (n + 1) e) := by
  refine .within (fun _ => rfl) (fun _ _ => rfl) rfl
    (fun _ _ sound _ same => Option.some.inj same ▸ sound) ?_
  -- What operators compute refers to no object.
  have plain {value : Value} (plain : value.IsPlain) (h' : Heap) : value.Sound o h' :=
    Value.sound_of_isPlain plain
  cases e with
  | literal value => exact chronicled_value (plain (Value.isPlain_ofLiteral value) h)
  | grouping e => exact inner.evaluate h e from_
  | unary op right line =>
    exact (inner.evaluate h right from_.2).bind fun _ _ _ _ =>
      chronicled_orFail line fun _ ok h' _ => plain (UnaryOp.isPlain_apply ok) h'
  | binary left op right line =>
    exact (inner.evaluate h left from_.2.1).bind fun h' _ _ _ =>
      (inner.evaluate h' right from_.2.2).bind fun _ _ _ _ =>
        chronicled_orFail line fun _ ok h' _ => plain (BinaryOp.isPlain_apply ok) h'
  | logical left op right =>
    refine (inner.evaluate h left from_.1).bind fun h' value _ sound => ?_
    split
    · exact chronicled_value sound
    · exact inner.evaluate h' right from_.2
  | «variable» id name => exact .after_note (fun _ => rfl) (chronicled_lookUp _ _ _)
  | assign id name value =>
    exact (inner.evaluate h value from_.2).bind fun _ _ _ sound =>
      .after_note (fun _ => rfl) ((chronicled_assign id from_.1.isIdentifier sound).bind
        fun _ _ keeps _ => chronicled_value (sound.mono keeps))
  | call callee arguments line =>
    have all := Expr.allFrom_iff.mp from_.2.2
    refine (inner.evaluate h callee from_.2.1).bind fun h₁ value _ sound => ?_
    refine (inner.evaluateAll h₁ arguments all).bind fun h₂ values keeps given => ?_
    refine (chronicled_checkCall value values.length line).bind fun h₃ _ keeps' _ => ?_
    exact inner.call h₃ ⟨callee, arguments, line⟩ value values (sound.mono (keeps.trans keeps'))
      fun value member => (given value member).mono keeps'
  | get object name =>
    exact (inner.evaluate h object from_.2).bind fun _ _ _ sound =>
      chronicled_property sound name
  | set object name value =>
    refine (inner.evaluate h object from_.2.1).bind fun h' receiver _ _ => ?_
    cases receiver with
    | «instance» i =>
      exact (inner.evaluate h' value from_.2.2).bind fun _ _ _ sound =>
        .after_note (fun _ => rfl) ((chronicled_setField i _ sound).bind
          fun _ _ keeps _ => chronicled_value (sound.mono keeps))
    | nil | bool | number | string | native | closure | «class» => exact chronicled_fail _ _
  | this id line => exact .after_note (fun _ => rfl) (chronicled_lookUp _ _ _)
  | super id line method =>
    exact .after_note (fun _ => rfl) (chronicled_superMethod id line method.lexeme)

theorem evaluateAll_succ (inner : Chronicling o n) (h : Heap) (es : List Expr)
    (from_ : ∀ e ∈ es, e.From o) :
    Chronicled o h (fun h' values => ∀ value ∈ values, value.Sound o h')
      (Traced.evaluateAll (n + 1) es) := by
  cases es with
  | nil => exact chronicled_pure fun _ _ _ member => absurd member List.not_mem_nil
  | cons e es =>
    obtain ⟨first, rest⟩ := List.forall_mem_cons.mp from_
    exact (inner.evaluate h e first).bind fun h' _ _ sound =>
      (inner.evaluateAll h' es rest).bind fun _ _ keeps given =>
        chronicled_pure fun _ keeps' => List.forall_mem_cons.mpr
          ⟨sound.mono (keeps.trans keeps'), fun value member => (given value member).mono keeps'⟩

theorem call_succ (inner : Chronicling o n) (h : Heap) (site : CallSite) (callee : Value)
    (arguments : List Value) (sound : callee.Sound o h)
    (given : ∀ value ∈ arguments, value.Sound o h) :
    Chronicled o h (Value.Sound o) (Traced.call (n + 1) site callee arguments) := by
  cases callee with
  | native f => exact .after_note (fun _ => rfl) (chronicled_callNative f given site.line)
  | closure f => exact inner.invoke h site _ f arguments sound given
  | «class» c =>
    refine .after_note (fun _ => rfl) ?_
    refine (Chronicled.creating (Eval.creates_instance sound)).bind fun h₁ i keeps new => ?_
    cases found : c.method? initializerName with
    | none => exact .after_note (fun _ => rfl) (chronicled_value new)
    | some method =>
      refine (Chronicled.creating (Eval.creates_binding (sound.mono keeps) found new)).bind
        fun h₂ init keeps' bound => ?_
      have given' : ∀ value ∈ arguments, value.Sound o h₂ := fun value member =>
        (given value member).mono (keeps.trans keeps')
      exact (inner.invoke h₂ site (.class c) init arguments bound given').bind fun _ _ later _ =>
        chronicled_value (new.mono (keeps'.trans later))
  | nil | bool | number | string | «instance» => exact chronicled_fail _ _

/-- A call runs in a frame of its own. -/
theorem invoke_succ (inner : Chronicling o n) (h : Heap) (site : CallSite) (callee : Value)
    (f : Closure) (arguments : List Value) (sound : (Value.closure f).Sound o h)
    (given : ∀ value ∈ arguments, value.Sound o h) :
    Chronicled o h (Value.Sound o) (Traced.invoke (n + 1) site callee f arguments) := by
  have code : f.declaration.From o := sound.code
  refine .after_note (fun _ => rfl) ?_
  have entered : Chronicled o h (fun h' frame => h'.kind? frame = some .frame)
      (enterFunction f arguments) :=
    chronicled_opened (Eval.creates_call sound given) fun _ => f.frame
  refine entered.bind fun h' frame _ taken => ?_
  have body := inner.executeAll h' f.declaration.body (Stmt.allFrom_iff.mp code.body)
  exact ((body.inFrame taken).carryOut site callee f.declaration).bind fun _ _ _ returned =>
    chronicled_result f site.line returned

theorem execute_succ (inner : Chronicling o n) (h : Heap) (s : Stmt) (from_ : s.From o) :
    Chronicled o h (Returnable o) (Traced.execute (n + 1) s) := by
  refine .within (fun _ => rfl) (fun _ _ => rfl) rfl (fun _ _ returnable => returnable) ?_
  cases s with
  | expression e => exact (inner.evaluate h e from_).bind fun _ _ _ _ => chronicled_normal
  | print e =>
    exact (inner.evaluate h e from_.1).bind fun _ value _ _ =>
      (chronicled_print value e.line).bind fun _ _ _ _ => chronicled_normal
  | var name initializer =>
    cases initializer with
    | none =>
      have none : Value.nil.Sound o h := Value.sound_of_isPlain trivial
      exact (chronicled_define from_.1.isIdentifier none).bind fun _ _ _ _ => chronicled_normal
    | some e =>
      exact (inner.evaluate h e from_.2).bind fun _ _ _ sound =>
        (chronicled_define from_.1.isIdentifier sound).bind fun _ _ _ _ => chronicled_normal
  | block body =>
    have opened : Chronicled o h (fun h' frame => h'.kind? frame = some .frame) (openBlock body) :=
      chronicled_opened Eval.creates_block (·.current)
    exact opened.bind fun h' _ _ taken =>
      (inner.executeAll h' body (Stmt.allFrom_iff.mp from_)).inFrame taken
  | «if» condition thenBranch elseBranch =>
    refine (inner.evaluate h condition from_.1).bind fun h' value _ _ => ?_
    split
    · exact inner.execute h' thenBranch from_.2.1.1
    · cases elseBranch with
      | none => exact chronicled_normal
      | some s => exact inner.execute h' s from_.2.2.1
  | «while» condition body => exact inner.executeWhile h condition body from_.1 from_.2.1
  | function declaration =>
    exact (chronicled_declareFunction from_).bind fun _ _ _ _ => chronicled_normal
  | «return» line value =>
    cases value with
    | none => exact chronicled_returned (Value.sound_of_isPlain trivial)
    | some e =>
      exact (inner.evaluate h e from_).bind fun _ _ _ sound => chronicled_returned sound
  | «class» name parent methods =>
    exact (chronicled_declareClass from_.1.isIdentifier parent
      (FunctionDecl.allFrom_iff.mp from_.2.2)).bind fun _ _ _ _ => chronicled_normal

theorem executeWhile_succ (inner : Chronicling o n) (h : Heap) (condition : Expr) (body : Stmt)
    (test : condition.From o) (from_ : body.From o) :
    Chronicled o h (Returnable o) (Traced.executeWhile (n + 1) condition body) := by
  refine (inner.evaluate h condition test).bind fun h₁ value _ _ => ?_
  split
  · refine (inner.execute h₁ body from_).bind fun h₂ completion _ returned => ?_
    cases completion with
    | normal => exact inner.executeWhile h₂ condition body test from_
    | returned value => exact chronicled_returned (returned value rfl)
  · exact chronicled_normal

theorem executeAll_succ (inner : Chronicling o n) (h : Heap) (ss : List Stmt)
    (from_ : ∀ s ∈ ss, s.From o) :
    Chronicled o h (Returnable o) (Traced.executeAll (n + 1) ss) := by
  cases ss with
  | nil => exact chronicled_normal
  | cons s ss =>
    obtain ⟨first, rest⟩ := List.forall_mem_cons.mp from_
    refine (inner.execute h s first).bind fun h' completion _ returned => ?_
    cases completion with
    | normal => exact inner.executeAll h' ss rest
    | returned value => exact chronicled_returned (returned value rfl)

theorem succ (inner : Chronicling o n) : Chronicling o (n + 1) :=
  ⟨inner.evaluate_succ, inner.evaluateAll_succ, inner.call_succ, inner.invoke_succ,
    inner.execute_succ, inner.executeWhile_succ, inner.executeAll_succ⟩

end Chronicling

/-- **Every run is told by its happenings**, within any bound. -/
theorem chronicling (o : Origin) (bound : Nat) : Chronicling o bound := by
  induction bound with
  | zero => exact .zero
  | succ n ih => exact ih.succ

theorem chronicled_executeProgram (h : Heap) (bound : Nat) {program : List Stmt}
    (from_ : ∀ s ∈ program, s.From o) :
    Chronicled o h (fun _ _ => True) (executeProgram bound program) := by
  induction program generalizing h with
  | nil => exact chronicled_pure fun _ _ => trivial
  | cons s ss ih =>
    obtain ⟨first, rest⟩ := List.forall_mem_cons.mp from_
    exact ((chronicling o bound).execute h s first).bind fun h' _ _ _ => ih h' rest

end Traced

end Lox
