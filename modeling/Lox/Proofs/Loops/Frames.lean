import Lox.Proofs.Loops.Rounds
import Lox.Proofs.Origin.Runs

/-!
# The frames of a loop

The initializer of a loop binds its variable in a frame of its own, and the rounds of the loop run in
that frame or one block further in. Whatever the body declares, it declares still further in: a loop
body is no declaration. So at every moment of every round the same frame lies as many links out
(`ForLoop.Passes.inside`), and it binds the variable of the initializer alone.

The code of the body reaches its own statements through blocks, branches and inner loops
(`Stmt.Gets`). Each of them only opens frames inside those that are there, so functions and classes
that are declared by the body keep the frame of the loop around them.
-/

set_option autoImplicit false

namespace Lox

open Eval
open Heap (nowhere)

/-! ## Frames inside a frame -/

namespace Heap

variable {growing : Address → Prop} {h h' : Heap} {a b c : Address}

theorem Grows.enclosing? (grows : h.Grows growing h') (link : h.enclosing? a = some b) :
    h'.enclosing? a = some b := by
  obtain ⟨frame, found, link⟩ := Option.bind_eq_some_iff.mp link
  obtain ⟨frame', found', same, -⟩ := grows a frame found
  rw [Heap.enclosing?, found', Option.bind_some, same, link]

/-- Links stay, so what lies outside a frame goes on to lie there. -/
theorem Grows.outer? (grows : h.Grows growing h') {distance : Nat}
    (reached : h.outer? a distance = some b) : h'.outer? a distance = some b := by
  induction distance generalizing a with
  | zero => exact reached
  | succ distance ih =>
    obtain ⟨around, link, further⟩ := Option.bind_eq_some_iff.mp reached
    rw [Heap.outer?, grows.enclosing? link]
    exact ih further

theorem outer?_add {n k : Nat} (first : h.outer? a n = some b) (second : h.outer? b k = some c) :
    h.outer? a (n + k) = some c := by
  induction n generalizing a with
  | zero =>
    obtain rfl := Option.some.inj first
    rwa [Nat.zero_add]
  | succ n ih =>
    obtain ⟨around, link, further⟩ := Option.bind_eq_some_iff.mp first
    rw [Nat.succ_add, Heap.outer?, link]
    exact ih further

/-- A frame that binds a name goes on to bind it. -/
theorem Grows.binds (grows : h.Grows growing h') {name : String} (bound : h.binds a name = true) :
    h'.binds a name = true := by
  obtain ⟨frame, found, binds⟩ := binds_eq_true.mp bound
  obtain ⟨frame', found', -, kept, -⟩ := grows a frame found
  exact binds_eq_true.mpr ⟨frame', found', kept name binds⟩

theorem binds_of_frame? {frame : Frame} (found : h.frame? a = some frame) (name : String) :
    h.binds a name = frame.bindings.binds name := by
  unfold Heap.binds
  rw [found]

theorem enclosing?_of_frame? {frame : Frame} (found : h.frame? a = some frame) :
    h.enclosing? a = frame.enclosing := by
  rw [Heap.enclosing?, found, Option.bind_some]

/-- Where no frame takes names, those that are there bind what they bound. -/
theorem Grows.binds_eq (grows : h.Grows nowhere h') {frame : Frame} (found : h.frame? a = some frame)
    (name : String) : h'.binds a name = h.binds a name := by
  obtain ⟨frame', found', -, -, same⟩ := grows a frame found
  rw [binds_of_frame? found, binds_of_frame? found']
  exact same id name

/-- A definition adds its name to those that its frame binds. -/
theorem binds_define {frame : Frame} (found : h.frame? a = some frame) (name key : String)
    (value : Value) : (h.define a name value).binds a key = (key == name || h.binds a key) := by
  have found' : (h.define a name value).frame? a
      = some { frame with bindings := frame.bindings.set name value } := by
    rw [frame?_define, if_pos rfl, found]
    rfl
  rw [binds_of_frame? found, binds_of_frame? found']
  exact Bindings.binds_set frame.bindings name key value

end Heap

/-- A new block binds nothing yet. -/
theorem Machine.frame?_opened (m : Machine) :
    m.opened.heap.frame? m.opened.current = some ⟨.empty, some m.current⟩ :=
  Heap.frame?_allocateFrame m.heap _ _

/-- A machine that a run comes to from another one, in a frame that lies some links inside its
frame. No frame that was there has taken a name. -/
structure Machine.Inside (o : Origin) (start : Machine) (depth : Nat) (m : Machine) : Prop where
  code : m.heap.From o
  grows : start.heap.Grows nowhere m.heap
  distances : m.distances = start.distances
  outer : m.heap.outer? m.current depth = some start.current

namespace Machine.Inside

variable {o : Origin} {start m m' : Machine} {depth further : Nat}

theorem refl (code : m.heap.From o) : m.Inside o 0 m :=
  ⟨code, .refl nowhere m.heap, rfl, rfl⟩

theorem trans (first : start.Inside o depth m) (second : m.Inside o further m') :
    start.Inside o (further + depth) m' :=
  ⟨second.code, first.grows.trans second.grows, second.distances.trans first.distances,
    Heap.outer?_add second.outer (second.grows.outer? first.outer)⟩

theorem current (inside : start.Inside o 0 m) : m.current = start.current :=
  Option.some.inj inside.outer

/-- What leads on in the frame that is current, and declares nothing. -/
theorem of_leads (leads : m.Leads o none nothing m') (control : m.SameControl m') :
    m.Inside o 0 m' :=
  ⟨leads.code, leads.declares.still, control.distances, congrArg some control.current⟩

theorem opened (code : m.heap.From o) : m.Inside o 1 m.opened where
  code := code.allocate nofun
  grows := .allocate m.heap _
  distances := rfl
  outer := by
    rw [Heap.outer?, Heap.enclosing?_of_frame? m.frame?_opened]
    rfl

/-- Going back to the frame from which the run came. -/
theorem back (inside : start.Inside o depth m) :
    start.Inside o 0 { m with current := start.current } :=
  ⟨inside.code, inside.grows, inside.distances, rfl⟩

/-- The frame of the run is there if the one from which it came was. -/
theorem exists_frame (inside : start.Inside o depth m) {frame : Frame}
    (found : start.heap.frame? start.current = some frame) :
    ∃ frame', m.heap.frame? m.current = some frame' := by
  cases depth with
  | zero =>
    obtain ⟨frame', found', -⟩ := inside.grows _ _ found
    exact ⟨frame', inside.current ▸ found'⟩
  | succ depth =>
    obtain ⟨around, link, -⟩ := Option.bind_eq_some_iff.mp inside.outer
    obtain ⟨frame', found', -⟩ := Option.bind_eq_some_iff.mp link
    exact ⟨frame', found'⟩

/-- A use as many links out as the frame lies finds its name there. -/
theorem place? (inside : start.Inside o depth m) {name : String}
    (bound : start.heap.binds start.current name = true) {id : NodeId}
    (known : m.distances[id]? = some depth) : m.place? id name = some start.current := by
  unfold Machine.place?
  rw [known]
  dsimp only
  rw [Heap.ownerAt?_eq name inside.outer, if_pos (inside.grows.binds bound)]

end Machine.Inside

/-! ## What is evaluated and executed there -/

section

variable {o : Origin} {m m' : Machine}

theorem Eval.Traces.inside {α : Type} {x : Nat → Eval α} {fine : α → Prop} {a : α}
    (traces : ∀ bound, (x bound).Traces o none nothing fine) (restores : ∀ bound, (x bound).Restores)
    (code : m.heap.From o) (gives : Gives x m (.ok a m')) : m.Inside o 0 m' := by
  obtain ⟨-, bound, runs⟩ := gives
  have led := traces bound m code
  rw [runs] at led
  exact .of_leads led.1 ((restores bound).of_ok runs)

theorem Expr.From.inside {e : Expr} (from_ : e.From o) (code : m.heap.From o) {value : Value}
    (gives : Gives (evaluate · e) m (.ok value m')) : m.Inside o 0 m' :=
  Traces.inside (fun bound => (tracing o bound).evaluate e from_)
    (fun bound => (restoring bound).evaluate e) code gives

/-- A statement that is no declaration leads on in its frame. -/
theorem Stmt.From.inside {s : Stmt} (from_ : s.From o) (plain : s.isPlain = true)
    (code : m.heap.From o) {completion : Completion}
    (gives : Gives (execute · s) m (.ok completion m')) : m.Inside o 0 m' :=
  Traces.inside (fun bound => (tracing o bound).execute_plain from_ plain)
    (fun bound => (restoring bound).execute s) code gives

end

/-! ## The rounds of a loop -/

namespace ForLoop

/-- Whether the parts of a loop are made of certain tokens. -/
structure From (o : Origin) (l : ForLoop) : Prop where
  initializer : ∀ s ∈ l.initializer, s.From o
  test : l.test.From o
  increment : ∀ e ∈ l.increment, e.From o
  body : l.body.From o

/-- How many frames a round has opened. -/
def depth (l : ForLoop) : Moment → Nat
  | .test => 0
  | .body | .increment => if l.increment.isSome then 1 else 0

variable {o : Origin} {l : ForLoop} {start m m' : Machine}

theorem From.of_statement (from_ : l.statement.From o) : l.From o := by
  have ofRound (inner : l.round.From o) : (∀ e ∈ l.increment, e.From o) ∧ l.body.From o := by
    unfold round at inner
    split at inner
    · next e present =>
      rw [present]
      obtain ⟨body, increment, -⟩ := inner
      exact ⟨by rintro _ ⟨⟩; exact increment, body⟩
    · next absent =>
      rw [absent]
      exact ⟨by rintro _ ⟨⟩, inner⟩
  rw [statement_eq] at from_
  split at from_
  · next s present =>
    obtain ⟨initializer, ⟨test, round, -⟩, -⟩ := from_
    obtain ⟨increment, body⟩ := ofRound round
    exact ⟨by rw [present]; rintro _ ⟨⟩; exact initializer, test, increment, body⟩
  · next absent =>
    obtain ⟨test, round, -⟩ := from_
    obtain ⟨increment, body⟩ := ofRound round
    exact ⟨by rw [absent]; rintro _ ⟨⟩, test, increment, body⟩

theorem enter_of_none (absent : l.increment = none) : l.enter m = m := by
  unfold enter
  rw [absent]

theorem enter_of_some {e : Expr} (present : l.increment = some e) : l.enter m = m.opened := by
  unfold enter
  rw [present]

theorem inside_enter (code : m.heap.From o) : m.Inside o (l.depth .body) (l.enter m) := by
  unfold depth
  cases inc : l.increment with
  | none =>
    rw [enter_of_none inc]
    exact .refl code
  | some e =>
    rw [enter_of_some inc]
    exact .opened code

theorem inside_step (from_ : l.From o) (code : m.heap.From o) {completion : Completion}
    (gives : Gives l.step m (.ok completion m')) : m.Inside o 0 m' := by
  cases inc : l.increment with
  | none =>
    rw [step_of_none inc, gives_pure] at gives
    cases gives
    exact .refl code
  | some e =>
    rw [gives_step_of_some inc] at gives
    exact Stmt.From.inside (s := .expression e) (from_.increment e inc) rfl code gives

/-- **The frame of a loop.** At every moment of every round the frame in which the loop began lies as
many links out as the round has opened frames. -/
theorem Passes.inside (from_ : l.From o) (code : start.heap.From o) {moment : Moment}
    (passes : l.Passes start moment m) : start.Inside o (l.depth moment) m := by
  induction passes with
  | first => exact .refl code
  | body here tested holds ih =>
    have inside := ih.trans (from_.test.inside ih.code tested)
    exact inside.trans (inside_enter inside.code)
  | increment here ran ih =>
    have ran := from_.body.inside l.plain ih.code ran
    exact (Nat.zero_add (l.depth .body)) ▸ ih.trans ran
  | again here stepped ih => exact (ih.trans (inside_step from_ ih.code stepped)).back

/-- What a round declares is declared further in: the block of the body and the increment binds
nothing. -/
theorem Passes.blank (from_ : l.From o) (code : start.heap.From o) {moment : Moment}
    (passes : l.Passes start moment m) (opened : l.depth moment = 1) :
    ∃ around, m.heap.enclosing? m.current = some around ∧
      ∀ name, m.heap.binds m.current name = false := by
  have fresh (m : Machine) (opened : l.depth .body = 1) :
      (l.enter m).heap.frame? (l.enter m).current = some ⟨.empty, some m.current⟩ := by
    unfold depth at opened
    cases inc : l.increment with
    | none =>
      rw [inc] at opened
      cases opened
    | some e =>
      rw [enter_of_some inc]
      exact m.frame?_opened
  cases passes with
  | first | again => cases opened
  | @body _ m' _ here tested holds =>
    exact ⟨_, Heap.enclosing?_of_frame? (fresh m' opened), Heap.binds_of_frame? (fresh m' opened)⟩
  | increment before ran =>
    have inside := from_.body.inside l.plain (before.inside from_ code).code ran
    cases before with
    | @body _ m' _ here tested holds =>
      have found := fresh m' opened
      rw [inside.current]
      refine ⟨_, inside.grows.enclosing? (Heap.enclosing?_of_frame? found), fun name => ?_⟩
      rw [inside.grows.binds_eq found]
      exact Heap.binds_of_frame? found name

end ForLoop

/-! ## The initializer -/

namespace Eval

variable {m : Machine} {result : EStateM.Result Stop Machine Completion}

/-- A machine in which a variable was defined in the current frame. -/
abbrev defined (m : Machine) (name : String) (value : Value) : Machine :=
  { m with heap := m.heap.define m.current name value }

/-- A variable that is defined is defined at once. -/
theorem of_gives_define {name : String} {value : Value} {m' : Machine}
    (gives : Gives (fun _ => define name value >>= fun _ => pure Completion.normal) m
      (.ok .normal m')) : m' = defined m name value := by
  obtain ⟨-, bound, same⟩ := gives
  have same : EStateM.Result.ok Completion.normal (defined m name value) = .ok .normal m' := same
  cases same
  rfl

/-- A variable is defined once its initializer has a value. -/
theorem gives_var {name : Name} {initializer : Option Expr} {m' : Machine}
    (gives : Gives (execute · (.var name initializer)) m (.ok .normal m')) :
    ∃ value m₁, (match initializer with
      | some e => Gives (evaluate · e) m (.ok value m₁)
      | none => m₁ = m) ∧ m' = defined m₁ name.lexeme value := by
  cases initializer with
  | none =>
    have step (n : Nat) : execute (n + 1) (.var name none)
        = define name.lexeme .nil >>= fun _ => pure .normal := rfl
    exact ⟨.nil, m, rfl, of_gives_define ((gives_succ rfl step).mp gives)⟩
  | some e =>
    have step (n : Nat) : execute (n + 1) (.var name (some e))
        = evaluate n e >>= fun value => define name.lexeme value >>= fun _ => pure .normal := rfl
    have rest (value : Value) : Bounded fun _ =>
        define name.lexeme value >>= fun _ => pure Completion.normal := bounded_const _
    rcases (gives_bind (bounded_evaluate e) rest).mp ((gives_succ rfl step).mp gives) with
      ⟨value, m₁, evaluated, defines⟩ | ⟨stop, m₁, -, same⟩
    · exact ⟨value, m₁, evaluated, of_gives_define defines⟩
    · cases same

end Eval

namespace ForLoop

variable {o : Origin} {m start : Machine}

/-- **The frame of the initializer.** A loop whose initializer declares a variable runs its rounds in
a new frame inside the one around, and that frame binds the variable and nothing else. -/
theorem initialized {name : Name} {initializer : Option Expr}
    (from_ : (Stmt.var name initializer).From o) (code : m.heap.From o)
    (ran : Gives (execute · (.var name initializer)) m.opened (.ok .normal start)) :
    m.Inside o 1 start ∧ start.current = m.heap.cells.size ∧
      ∀ key, start.heap.binds start.current key = (key == name.lexeme) := by
  have opened := Machine.Inside.opened code
  obtain ⟨value, m₁, before, rfl⟩ := gives_var ran
  have inner : m.opened.Inside o 0 m₁ := by
    cases initializer with
    | none =>
      obtain rfl : m₁ = m.opened := before
      exact .refl opened.code
    | some e => exact Expr.From.inside from_.2 opened.code before
  have grows : m₁.heap.Grows (· = m₁.current) (m₁.heap.define m₁.current name.lexeme value) :=
    .define m₁.heap m₁.current name.lexeme value
  obtain ⟨frame, found, -, -, same⟩ := inner.grows _ _ m.frame?_opened
  rw [← inner.current] at found
  have binds (key : String) : (m₁.heap.define m₁.current name.lexeme value).binds m₁.current key
      = (key == name.lexeme) := by
    have blank : frame.bindings.binds key = false := same id key
    rw [Heap.binds_define found, Heap.binds_of_frame? found, blank, Bool.or_false]
  obtain ⟨-, bound, runs⟩ := ran
  have runs : execute bound (.var name initializer) m.opened
    = .ok .normal (defined m₁ name.lexeme value) := runs
  have led := (tracing o bound).execute _ from_ m.opened opened.code
  rw [runs] at led
  have outer : m₁.heap.outer? m₁.current 1 = some m.current := inner.current ▸
    inner.grows.outer? opened.outer
  refine ⟨⟨led.1.code, ?_, inner.distances, grows.outer? outer⟩, inner.current, binds⟩
  -- The frame that takes the name was not there before the loop.
  exact opened.grows.fresh led.1.declares.grows (Heap.frame?_size m.heap)

end ForLoop

end Lox
