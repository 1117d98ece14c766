import Lox.Proofs.Loops.Frames
import Lox.Proofs.Renaming.Choices

/-!
# What the body of a loop declares

The code of a statement gets to its own statements through blocks, branches and loops (`Stmt.Gets`),
and each of these only opens frames inside those that are there. So whatever function or class the
body of a loop declares, in whichever round and however deep in the body, the frame of the loop is
among the frames around its code, and stays there (`ForLoop.Passes.declares`).
-/

set_option autoImplicit false

namespace Lox

open Eval
open Heap (nowhere)

/-- Where a list of statements gets to: any of them, once those before it have ended normally. -/
inductive Stmt.Follows : List Stmt → Machine → Stmt → Machine → Prop
  | head {s : Stmt} {ss : List Stmt} {m : Machine} : Follows (s :: ss) m s m
  | next {s s' : Stmt} {ss : List Stmt} {m m₁ m' : Machine}
      (ran : Gives (execute · s) m (.ok .normal m₁)) (rest : Follows ss m₁ s' m') :
      Follows (s :: ss) m s' m'

/-- Where a statement gets to next: a statement of its block, a branch, or the body of a loop, and
after that the loop again. -/
inductive Stmt.Enters : Stmt → Machine → Stmt → Machine → Prop
  | block {body : List Stmt} {s : Stmt} {m m' : Machine} (follows : Follows body m.opened s m') :
      Enters (.block body) m s m'
  | thenBranch {condition : Expr} {thenBranch : Stmt} {elseBranch : Option Stmt} {value : Value}
      {m m' : Machine} (tested : Gives (evaluate · condition) m (.ok value m'))
      (holds : value.isTruthy = true) :
      Enters (.if condition thenBranch elseBranch) m thenBranch m'
  | elseBranch {condition : Expr} {thenBranch elseBranch : Stmt} {value : Value} {m m' : Machine}
      (tested : Gives (evaluate · condition) m (.ok value m')) (fails : value.isTruthy = false) :
      Enters (.if condition thenBranch (some elseBranch)) m elseBranch m'
  | body {condition : Expr} {body : Stmt} {value : Value} {m m' : Machine}
      (tested : Gives (evaluate · condition) m (.ok value m')) (holds : value.isTruthy = true) :
      Enters (.while condition body) m body m'
  | again {condition : Expr} {body : Stmt} {value : Value} {m m₁ m' : Machine}
      (tested : Gives (evaluate · condition) m (.ok value m₁)) (holds : value.isTruthy = true)
      (ran : Gives (execute · body) m₁ (.ok .normal m')) :
      Enters (.while condition body) m (.while condition body) m'

/-- Where the code of a statement gets to. The functions that it calls are not its own code. -/
inductive Stmt.Gets (s : Stmt) (m : Machine) : Stmt → Machine → Prop
  | here : Gets s m s m
  | deeper {s₁ s₂ : Stmt} {m₁ m₂ : Machine} (gets : Gets s m s₁ m₁) (enters : s₁.Enters m₁ s₂ m₂) :
      Gets s m s₂ m₂

section

variable {o : Origin} {s s' : Stmt} {ss : List Stmt} {m m' : Machine}

/-- Statements of a list are reached in their frame, in which those before have declared names. -/
theorem Stmt.Follows.leads (follows : Follows ss m s m') (from_ : ∀ s ∈ ss, s.From o)
    (code : m.heap.From o) :
    s.From o ∧ m.Leads o none (fun _ => True) m' ∧ m'.distances = m.distances := by
  induction follows with
  | head => exact ⟨from_ _ List.mem_cons_self, .refl code, rfl⟩
  | next ran rest ih =>
    obtain ⟨first, others⟩ := List.forall_mem_cons.mp from_
    obtain ⟨-, bound, runs⟩ := ran
    have led := (tracing o bound).execute _ first _ code
    have kept := ((restoring bound).execute _).of_ok runs
    rw [show execute bound _ _ = _ from runs] at led
    obtain ⟨from_, onwards, distances⟩ := ih others led.1.code
    exact ⟨from_, (led.1.weaken fun _ _ => trivial).trans onwards, distances.trans kept.distances⟩

/-- Each statement is reached in a frame inside that of the one around it. -/
theorem Stmt.Enters.inside (enters : s.Enters m s' m') (from_ : s.From o) (code : m.heap.From o) :
    s'.From o ∧ ∃ depth, m.Inside o depth m' := by
  cases enters with
  | block follows =>
    have opened := Machine.Inside.opened code
    obtain ⟨from_, leads, distances⟩ := follows.leads (Stmt.allFrom_iff.mp from_) opened.code
    refine ⟨from_, 1, leads.code, ?_, distances, ?_⟩
    · exact opened.grows.fresh leads.declares.grows (Heap.frame?_size m.heap)
    · rw [leads.current]
      exact leads.declares.grows.outer? opened.outer
  | thenBranch tested holds =>
    obtain ⟨condition, ⟨thenBranch, -⟩, -⟩ := from_
    exact ⟨thenBranch, 0, condition.inside code tested⟩
  | elseBranch tested fails =>
    obtain ⟨condition, -, elseBranch, -⟩ := from_
    exact ⟨elseBranch, 0, condition.inside code tested⟩
  | body tested holds =>
    obtain ⟨condition, body, -⟩ := from_
    exact ⟨body, 0, condition.inside code tested⟩
  | again tested holds ran =>
    obtain ⟨condition, body, plain⟩ := from_
    have inside := condition.inside code tested
    exact ⟨⟨condition, body, plain⟩, 0, inside.trans (body.inside plain inside.code ran)⟩

/-- **Code runs inside.** Whatever statement the code of a statement gets to, it is executed in a
frame inside that of the statement. -/
theorem Stmt.Gets.inside (gets : s.Gets m s' m') (from_ : s.From o) (code : m.heap.From o) :
    s'.From o ∧ ∃ depth, m.Inside o depth m' := by
  induction gets with
  | here => exact ⟨from_, 0, .refl code⟩
  | deeper gets enters ih =>
    obtain ⟨from_, depth, inside⟩ := ih
    obtain ⟨from_, further, inside'⟩ := enters.inside from_ inside.code
    exact ⟨from_, further + depth, inside.trans inside'⟩

end

/-! ## Functions and classes -/

/-- Whether a value is a function or a class around whose code a frame lies. -/
def Value.LiesIn (h : Heap) (frame : Address) : Value → Prop
  | .closure f => ∃ distance, h.outer? f.frame distance = some frame
  | .class c => ∃ distance, h.outer? c.frame distance = some frame
  | .nil | .bool _ | .number _ | .string _ | .native _ | .instance _ => False

/-- The frames around code stay. -/
theorem Value.LiesIn.mono {h h' : Heap} {growing : Address → Prop} {frame : Address} {value : Value}
    (lies : value.LiesIn h frame) (grows : h.Grows growing h') : value.LiesIn h' frame := by
  cases value with
  | closure f | «class» c =>
    obtain ⟨distance, reached⟩ := lies
    exact ⟨distance, grows.outer? reached⟩
  | nil | bool | number | string | native | «instance» => exact lies.elim

theorem Value.LiesIn.outwards {h : Heap} {frame around : Address} {value : Value}
    (lies : value.LiesIn h frame) {distance : Nat} (outer : h.outer? frame distance = some around) :
    value.LiesIn h around := by
  cases value with
  | closure f | «class» c =>
    obtain ⟨inner, reached⟩ := lies
    exact ⟨inner + distance, Heap.outer?_add reached outer⟩
  | nil | bool | number | string | native | «instance» => exact lies.elim

section

variable {m m' : Machine}

/-- A name that was just defined is found in its frame. -/
theorem Heap.read?_defined {h : Heap} {a : Address} {frame : Frame} (found : h.frame? a = some frame)
    (name : String) (value : Value) : (h.define a name value).read? a name = some value := by
  rw [read?_define, if_pos ⟨rfl, rfl⟩, found]
  rfl

/-- The methods of a class stand in the current frame, or in a frame for `super` inside it. -/
theorem Eval.declareClass_ok {name : Name} {parent : Option Superclass}
    {methods : List FunctionDecl} {a : Unit}
    (runs : declareClass name parent methods m = .ok a m') :
    ∃ (c : Class) (h : Heap), m.heap.Grows nowhere h ∧
      (c.frame = m.current ∨ h.enclosing? c.frame = some m.current) ∧
      m' = { m with heap := h.define m.current name.lexeme (.class c) } := by
  -- With no superclass the methods stand in the frame that is current.
  have declared (above : Option Class) {frame : Address} {h : Heap} (grows : m.heap.Grows nowhere h)
      (stands : frame = m.current ∨ h.enclosing? frame = some m.current)
      (runs : (do
        let c ← create (·.newClass name.lexeme above frame methods)
        define name.lexeme (.class c)) { m with heap := h } = .ok a m') :
      ∃ (c : Class) (h : Heap), m.heap.Grows nowhere h ∧
        (c.frame = m.current ∨ h.enclosing? c.frame = some m.current) ∧
        m' = { m with heap := h.define m.current name.lexeme (.class c) } := by
    cases runs
    have created : h.Grows nowhere (h.allocate .identity).2 := .allocate h .identity
    refine ⟨⟨h.cells.size, name.lexeme, above, frame, methods⟩, (h.allocate .identity).2,
      grows.trans created, ?_, rfl⟩
    exact stands.imp_right fun link => created.enclosing? link
  unfold declareClass at runs
  cases parent with
  | none => exact declared none (.refl nowhere m.heap) (.inl rfl) runs
  | some above =>
    rw [bind_eq] at runs
    rcases superclass?_cases above m with
      ⟨_, c, -, -, same⟩ | ⟨_, same⟩
    · rw [same] at runs
      refine declared (some c) (.allocate m.heap _) (.inr ?_) runs
      exact Heap.enclosing?_of_frame? (Heap.frame?_allocateFrame m.heap _ _)
    · rw [same] at runs
      cases runs

/-- A function or class lies in the frame in which it is declared. -/
theorem Stmt.callable_lies {s : Stmt} {name : Name} (callable : s.callable? = some name)
    {frame : Frame} (found : m.heap.frame? m.current = some frame)
    (gives : Gives (execute · s) m (.ok .normal m')) :
    ∃ value, m'.heap.read? m.current name.lexeme = some value ∧
      value.LiesIn m'.heap m.current := by
  obtain ⟨-, bound, runs⟩ := gives
  have runs : execute bound s m = .ok .normal m' := runs
  cases bound with
  | zero => cases runs
  | succ n =>
    cases s with
    | function declaration =>
      cases callable
      cases runs
      have created : m.heap.Grows nowhere (m.heap.allocate .identity).2 := .allocate m.heap .identity
      obtain ⟨frame', found', -⟩ := created _ _ found
      exact ⟨_, Heap.read?_defined found' _ _, 0, rfl⟩
    | «class» name parent methods =>
      cases callable
      have runs : (declareClass name parent methods >>= fun _ => pure Completion.normal) m
          = .ok .normal m' := runs
      rw [bind_eq] at runs
      cases declared : declareClass name parent methods m with
      | error stop m₁ =>
        rw [declared] at runs
        cases runs
      | ok a m₁ =>
        rw [declared] at runs
        cases runs
        obtain ⟨c, h, grows, stands, rfl⟩ := declareClass_ok declared
        obtain ⟨frame', found', -⟩ := grows _ _ found
        refine ⟨_, Heap.read?_defined found' _ _, ?_⟩
        -- Without a superclass the methods lie in the frame itself, and else in a frame inside it.
        rcases stands with here | link
        · exact ⟨0, congrArg some here⟩
        · refine ⟨1, ?_⟩
          have link := (Heap.Grows.define h m.current name.lexeme (.class c)).enclosing? link
          rw [Heap.outer?, link]
          rfl
    | expression | print | var | block | «if» | «while» | «return» => cases callable

end

/-! ## Every round in the same frame -/

namespace ForLoop

variable {o : Origin} {l : ForLoop} {start m m' m'' : Machine}

/-- **Rounds share the frame of the loop.** Whatever function or class the body declares in a round,
the frame in which the loop began is among the frames around its code, then and later. -/
theorem Passes.declares (from_ : l.From o) (code : start.heap.From o) {frame : Frame}
    (found : start.heap.frame? start.current = some frame) (passes : l.Passes start .body m)
    {s : Stmt} {name : Name} (gets : l.body.Gets m s m') (callable : s.callable? = some name)
    (gives : Gives (execute · s) m' (.ok .normal m'')) :
    ∃ value, m''.heap.read? m'.current name.lexeme = some value ∧
      ∀ (growing : Address → Prop) (h : Heap), m''.heap.Grows growing h →
        value.LiesIn h start.current := by
  have body := passes.inside from_ code
  obtain ⟨from_, depth, inner⟩ := gets.inside from_.body body.code
  have inside := body.trans inner
  obtain ⟨here, found⟩ := inside.exists_frame found
  obtain ⟨value, read, lies⟩ := Stmt.callable_lies callable found gives
  obtain ⟨-, bound, runs⟩ := gives
  have runs : execute bound s m' = .ok .normal m'' := runs
  have led := (tracing o bound).execute s from_ m' inside.code
  rw [runs] at led
  have outer := led.1.declares.grows.outer? inside.outer
  exact ⟨value, read, fun _ _ later => (lies.mono later).outwards (later.outer? outer)⟩

end ForLoop

end Lox
