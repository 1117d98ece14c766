import Lox.Proofs.Instances.Initializers
import Lox.Proofs.Instances.Recounting
import Lox.Proofs.Scoping.Dispatch

/-!
# Properties and their receivers

A field of an instance holds what was last set there (`Session.field?_comes`), so a property is the
value that was last set, or else a method: the first of its name from the class of the instance
upwards, bound to the instance (`Machine.Answers`).

A `this` stands in the body of a method or in functions inside it. The analysis leads it to the scope
around the nearest method (`Nested.receives`), and the frame of that scope is one in which this method
was bound, which holds what it was bound to from then on. So whatever becomes of a bound method, and
wherever it is called, `this` is its receiver. As with all uses, the distance of a `this` can be
relied on until all ids have been given out.
-/

set_option autoImplicit false

namespace Lox

open Eval

/-! ## The method around a use -/

/-- Whether a place is in a method, which is the nearest one around, and `this` is declared around
it. -/
structure Surroundings.Receives (around : Surroundings) (distance : Nat) (f : FunctionDecl) :
    Prop where
  nearest : around.sites.findIdx? Site.isReceiver = some (distance + 1)
  method : around.sites[distance + 1]? = some (.receiver f)
  body : around.sites[distance]? = some (.function f)
  this : around.scopes.findIdx? (fun scope => scope.declares "this") = some (distance + 1)

/-- **In a class `this` leads to the nearest method.** -/
theorem Nested.receives {sites : List Site} {scopes : List Scope} {context : ClassContext}
    (nested : Nested sites scopes context) (inside : context ≠ .outside)
    (declaring : Option String) :
    ∃ distance f, Surroundings.Receives ⟨sites, scopes, declaring⟩ distance f := by
  induction nested with
  | outside => exact absurd rfl inside
  | block spares outer ih | function spares outer ih =>
    -- The scope does not declare `this`, so it is found one scope further out.
    obtain ⟨distance, f, around⟩ := ih inside
    refine ⟨distance + 1, f, ?_, around.method, around.body, ?_⟩
    · rw [List.findIdx?_cons, around.nearest]
      rfl
    · rw [List.findIdx?_cons, spares.declares_this, around.this]
      rfl
  | @base f scope sites scopes context spares outer
  | @derived f name parent methods scope sites scopes context spares member outer =>
    refine ⟨0, f, rfl, rfl, rfl, ?_⟩
    rw [List.findIdx?_cons, spares.declares_this]
    rfl

/-- A use of `this` in an accepted program is in a method. -/
theorem UsedIn.receives {session : Session} {inputs : List Input} {u : Use}
    (used : UsedIn (session.programs inputs) u) {id : NodeId} {line : Nat}
    (same : u.access = .this id line) :
    ∃ distance f, u.around.Receives distance f ∧ u.distance = some (distance + 1) := by
  obtain ⟨program, member, mem⟩ := used
  obtain ⟨lo, hi, accepted⟩ := Session.accepted_of_mem member
  obtain ⟨context, nested, inside⟩ := Resolver.accepted_statements program.statements
    (accepted.declared.formed trivial) .outside accepted.silent u mem
  rw [same] at inside
  obtain ⟨distance, f, around⟩ := nested.receives inside u.around.declaring
  refine ⟨distance, f, around, ?_⟩
  unfold Use.distance
  rw [same]
  exact around.this

/-! ## Deeds and what is noted of them -/

namespace Deed

theorem mem_notes {deeds : List Deed} {event : Event} (noted : event ∈ notes deeds) :
    ∃ deed ∈ deeds, deed.noted? = some event :=
  List.mem_filterMap.mp (List.mem_reverse.mp noted)

/-- A frame that was opened other than for a method is a deed. -/
theorem mem_opens {deeds : List Deed} {site : Site} {frame around : Address}
    (noted : .opened site frame around ∈ notes deeds) (other : site.isReceiver = false) :
    ∃ m, .opens site frame around m ∈ deeds := by
  obtain ⟨deed, member, same⟩ := mem_notes noted
  cases deed with
  | opens _ _ _ m =>
    cases same
    exact ⟨m, member⟩
  | binds method i m =>
    cases same
    cases other
  | evaluates | executes | uses | reads | sets => cases same

end Deed

/-- A frame that was opened for a method is one in which it was bound. -/
theorem Story.mem_binds {h h' : Heap} {deeds : List Deed} (story : Story h deeds h')
    {f : FunctionDecl} {frame around : Address}
    (noted : .opened (.receiver f) frame around ∈ Deed.notes deeds) :
    ∃ method i m, .binds method i m ∈ deeds ∧ method.declaration = f ∧
      (m.heap.bindMethod method i).1.frame = frame := by
  obtain ⟨deed, member, same⟩ := Deed.mem_notes noted
  cases deed with
  | opens site _ _ m =>
    cases same
    cases story.founded member
  | binds method i m =>
    cases same
    exact ⟨method, i, m, member, rfl, rfl⟩
  | evaluates | executes | uses | reads | sets => cases same

/-- The frame of a bound method holds what it was bound to, for good. -/
theorem Story.read?_binds {h h' : Heap} {deeds : List Deed} (story : Story h deeds h')
    {method : Method} {i : Instance} {m : Machine} (member : .binds method i m ∈ deeds) :
    h'.read? (m.heap.bindMethod method i).1.frame "this" = some (.instance i) :=
  (story.lasts_of_mem member).retains _ "this" _ (fun spared => spared.1 rfl)
    (Heap.read?_bindMethod m.heap method i)

/-- What holds of every use that was noted holds of the uses among the deeds. -/
theorem EveryUse.of_deeds {holds : Access → Machine → List Event → Prop} {before later : List Deed}
    {access : Access} {m : Machine}
    (every : EveryUse holds (Deed.notes (before ++ .uses access m :: later))) :
    holds access m (Deed.notes before) := by
  have split : Deed.notes (before ++ .uses access m :: later)
      = Deed.notes later ++ .used access m :: Deed.notes before := by
    rw [Deed.notes_append, ← List.singleton_append, Deed.notes_append, List.append_assoc]
    rfl
  rw [split] at every
  generalize Deed.notes later = events at every
  induction events with
  | nil => exact every.1
  | cons event events ih =>
    cases event with
    | used => exact ih every.2
    | opened => exact ih every

/-! ## Sessions -/

namespace Session

variable {o : Origin} {session : Session}

/-- The deeds of an input lead from the heap before it to the heap after it. -/
theorem comes_input {input : Input} (code : session.machine.heap.From o)
    (standing : session.machine.heap.Standing)
    (accepts : ∀ program ∈ session.accepted input, ∀ s ∈ program.statements, s.From o) :
    session.machine.heap.Comes (session.deedsOf input)
      (session.receive input).2.machine.heap := by
  unfold accepted at accepts
  unfold deedsOf
  cases checked : (checkSource input.source session.nextId).outcome with
  | error faults =>
    rw [receive_of_error checked, notes_of_error checked]
    exact .of_settles (.refl standing)
  | ok program =>
    rw [checked] at accepts
    have told := Traced.recounts_executeProgram session.machine.heap input.bound
      (accepts program List.mem_cons_self) (session.prepared program) (.refl _) code standing
    -- Observed or not, the program leaves the same machine, and then the output is flushed.
    obtain ⟨sink, same⟩ := leaves_interpret input.bound program.statements
      (session.prepared program)
    have heap : (session.receive input).2.machine.heap
        = ((executeProgram input.bound program.statements).leaves
            (session.prepared program)).heap := by
      rw [receive_of_ok checked, same]
    rw [heap, notes_of_ok checked, ← Traced.plain_executeProgram]
    exact told.comes

theorem comes_inputs {inputs : List Input} (code : session.machine.heap.From o)
    (standing : session.machine.heap.Standing)
    (tokens : ∀ input ∈ inputs, ∀ t ∈ (scan input.source).1, o.tokens t)
    (bare : PrintsBare (session.programs inputs) → o.bare) :
    session.machine.heap.Comes (session.deeds inputs) (session.after inputs).machine.heap := by
  induction inputs generalizing session with
  | nil => exact .of_settles (.refl standing)
  | cons input inputs ih =>
    obtain ⟨first, rest⟩ := List.forall_mem_cons.mp tokens
    have accepts := from_accepted first fun prints =>
      bare (prints.mono fun _ => List.mem_append_left _)
    have here := comes_input code standing accepts
    exact here.append (ih (from_receive code accepts) here.standing rest fun prints =>
      bare (prints.mono fun _ => List.mem_append_right _))

/-- The deeds of a session make a story. -/
theorem comes_fresh (policy : Sink.Policy) (maxDepth : Nat) (clock : Clock) (inputs : List Input) :
    (fresh policy maxDepth clock).machine.heap.Comes ((fresh policy maxDepth clock).deeds inputs)
      ((fresh policy maxDepth clock).after inputs).machine.heap :=
  comes_inputs (from_fresh ((fresh policy maxDepth clock).origin inputs) policy maxDepth clock)
    (Machine.all_new (P := Value.Stands _) trivial policy maxDepth clock)
    (fun input member _ inside => ⟨input.source, List.mem_map_of_mem member, inside⟩) id

/-- What a session notes of names and frames is what is noted of its deeds. -/
theorem trace_eq (session : Session) (events : List Event) (inputs : List Input) :
    session.trace events inputs = Deed.notes (session.deeds inputs) ++ events := by
  induction inputs generalizing session events with
  | nil => rfl
  | cons input inputs ih =>
    show (session.receive input).2.trace (session.noted events input) inputs = _
    rw [ih, noted_eq, ← List.append_assoc, ← Deed.notes_append]
    rfl

/-- At first there are no instances. -/
theorem fields?_fresh (policy : Sink.Policy) (maxDepth : Nat) (clock : Clock) (a : Address) :
    (fresh policy maxDepth clock).machine.heap.fields? a = none := by
  rcases a with _ | _ | a <;> rfl

/-- What was done up to a moment makes a story up to there. -/
theorem Comes.story {policy : Sink.Policy} {maxDepth : Nat} {clock : Clock} {inputs : List Input}
    {before : List Deed} {m : Machine} (comes : (fresh policy maxDepth clock).Comes inputs before m) :
    Story (fresh policy maxDepth clock).machine.heap before m.heap := by
  obtain ⟨later, split, here⟩ := comes
  have story := (comes_fresh policy maxDepth clock inputs).story
  rw [split] at story
  cases later with
  | nil =>
    rw [List.append_nil] at story
    exact here ▸ story
  | cons deed later => exact here ▸ story.before

/-- **A field has the value that was last set.** -/
theorem Comes.field?_eq {policy : Sink.Policy} {maxDepth : Nat} {clock : Clock} {inputs : List Input}
    {before : List Deed} {m : Machine} (comes : (fresh policy maxDepth clock).Comes inputs before m)
    (i : Instance) (name : String) : m.heap.field? i name = Deed.lastSet before i name := by
  have none : (fresh policy maxDepth clock).machine.heap.field? i name = none := by
    unfold Heap.field?
    rw [fields?_fresh]
    rfl
  rw [comes.story.field?_eq, none, Option.or_none]

end Session

/-! ## What is read, set and received -/

/-- What a computation gives, whatever it leaves behind. -/
def Eval.outcome {α : Type} (x : Eval α) (m : Machine) : Except Stop α :=
  match x m with
  | .ok a _ => .ok a
  | .error stop _ => .error stop

/-- Whether a property of an instance is what it should be after some deeds: the value that was last
set, or else the method that is found first from the class of the instance upwards, bound to it. -/
def Machine.Answers (m : Machine) (before : List Deed) (i : Instance) (name : Name) : Prop :=
  match Deed.lastSet before i name.lexeme with
  | some value => property (.instance i) name m = .ok value m
  | none => (property (.instance i) name).Dispatches m i.of i name.lexeme name.line

/-- Whether one machine differs from another in a field of an instance alone, and so neither in other
properties nor in what any method of any class is when it is bound. -/
structure Machine.SetsOnly (m : Machine) (i : Instance) (name : String) (value : Value)
    (m' : Machine) : Prop where
  set : m'.heap.field? i name = some value
  fields (j : Instance) (key : String) : ¬(j.id = i.id ∧ key = name) →
    m'.heap.field? j key = m.heap.field? j key
  frames (a : Address) : m'.heap.frame? a = m.heap.frame? a
  properties (j : Instance) (key : Name) : ¬(j.id = i.id ∧ key.lexeme = name) →
    (property (.instance j) key).outcome m' = (property (.instance j) key).outcome m
  methods (c : Class) (j : Instance) (key : String) (line : Nat) :
    (bound (c.method? key) j key line).outcome m' = (bound (c.method? key) j key line).outcome m

/-- Whether in a machine a place is in a call of a method that was bound: the frame of the call is
inside the one in which the method was bound, and this one holds the receiver. -/
structure Machine.Receives (m : Machine) (before : List Deed) (distance : Nat) (method : Method)
    (i : Instance) : Prop where
  bound : ∃ m', .binds method i m' ∈ before ∧
    m.heap.outer? m.current (distance + 1) = some (m'.heap.bindMethod method i).1.frame
  called : ∃ inner around m', m.heap.outer? m.current distance = some inner ∧
    m.heap.outer? m.current (distance + 1) = some around ∧
      .opens (.function method.declaration) inner around m' ∈ before
  this : m.heap.getAt? m.current (distance + 1) "this" = some (.instance i)

section

variable {m : Machine} {before : List Deed}

theorem Machine.answers {i : Instance} {name : Name}
    (field : m.heap.field? i name.lexeme = Deed.lastSet before i name.lexeme) :
    m.Answers before i name := by
  unfold Answers
  cases last : Deed.lastSet before i name.lexeme with
  | some value =>
    rw [last] at field
    unfold property
    dsimp only
    rw [field]
  | none =>
    rw [last] at field
    have same : property (.instance i) name m
        = Eval.bound (i.of.method? name.lexeme) i name.lexeme name.line m := by
      unfold property
      dsimp only
      rw [field]
    have bound := Eval.dispatches_bound i.of i name.lexeme name.line m
    unfold Eval.Dispatches at bound ⊢
    rwa [same]

/-- A method is bound in the same way whatever the fields are. -/
theorem Eval.outcome_bound (method? : Option Method) (i : Instance) (name : String) (line : Nat)
    {m m' : Machine} (size : m'.heap.cells.size = m.heap.cells.size) :
    (Eval.bound method? i name line).outcome m' = (Eval.bound method? i name line).outcome m := by
  cases method? with
  | none => rfl
  | some method =>
    have made (n : Machine) : (Eval.bound (some method) i name line).outcome n
        = .ok (.closure (n.heap.bindMethod method i).1) := rfl
    -- Both addresses are the next ones.
    have id (h : Heap) (frame : Frame) : (h.allocate (.frame frame)).2.cells.size
        = h.cells.size + 1 := Array.size_push _
    rw [made, made]
    unfold Heap.bindMethod Heap.allocateFrame Heap.newClosure
    dsimp only [Heap.allocate] at id ⊢
    rw [id, id, size]

/-- Setting a field changes that field alone. -/
theorem Machine.setsOnly (m : Machine) {i : Instance} (there : (m.heap.fields? i.id).isSome = true)
    (name : String) (value : Value) :
    m.SetsOnly i name value { m with heap := m.heap.setField i name value } := by
  have field (j : Instance) (key : String) := Heap.field?_setField there name value j key
  have other (j : Instance) (key : String) (apart : ¬(j.id = i.id ∧ key = name)) :
      (m.heap.setField i name value).field? j key = m.heap.field? j key := by
    rw [field, if_neg apart]
  have size : (m.heap.setField i name value).cells.size = m.heap.cells.size := Array.size_modify
  refine ⟨?_, other, Heap.frame?_setField m.heap i name value, fun j key apart => ?_,
    fun c j key line => Eval.outcome_bound _ _ _ _ size⟩
  · show (m.heap.setField i name value).field? i name = _
    rw [field, if_pos ⟨rfl, rfl⟩]
  · have same := other j key.lexeme apart
    unfold Eval.outcome property
    dsimp only
    rw [same]
    cases m.heap.field? j key.lexeme with
    | some value => rfl
    | none => exact Eval.outcome_bound _ _ _ _ size

/-- Where the nearest method and the frames around it are known, `this` is what the method was bound
to. -/
theorem Machine.Receives.evaluate_this {distance : Nat} {method : Method} {i : Instance}
    (receives : m.Receives before distance method i) {id : NodeId}
    (known : m.distances[id]? = some (distance + 1)) (line n : Nat) :
    evaluate (n + 1) (.this id line) m = .ok (.instance i) m := by
  have found : m.lookUp? id "this" = some (.instance i) := by
    unfold lookUp? place?
    rw [known]
    exact receives.this
  rw [evaluate]
  unfold lookUp
  rw [found]

end

/-- A `this` is met in a call of a method that was bound. -/
theorem Story.receives {h : Heap} {before : List Deed} {m : Machine} {u : Use}
    (story : Story h before m.heap) (framed : m.Framed u.around.sites (Deed.notes before))
    {distance : Nat} {f : FunctionDecl} (around : u.around.Receives distance f) :
    ∃ method i, method.declaration = f ∧ m.Receives before distance method i := by
  obtain ⟨inner, receiver, here, there, call⟩ := framed.1 _ _ around.body
  obtain ⟨frame, _, found, -, opened⟩ := framed.1 _ _ around.method
  obtain ⟨method, i, m', member, rfl, rfl⟩ := story.mem_binds opened
  obtain ⟨m'', called⟩ := Deed.mem_opens call rfl
  exact ⟨method, i, rfl, ⟨m', member, found⟩, ⟨inner, receiver, m'', here, there, called⟩,
    Heap.getAt?_eq found (story.read?_binds member)⟩

/-- **Properties and receivers.** Whatever a session is given, consider what it does, in its order.

Whenever an expression is about to be evaluated, a statement to be executed or a property to be read
or set, and after all inputs, a property of an instance is the value that was last set there, in
whatever places the instance is held; and if none was, the method that is found first from the class
of the instance upwards, bound to the instance, or else an error that says that there is none. A
property that is set is the only one that changes. No variable changes with it, nor what any method
of any class is when it is bound.

The frame in which a method was bound holds what it was bound to, from then on. A `this` that a
session meets stands in a method, and is met in a call of this method after it was bound to an
instance. While ids last the table leads to the frame in which it was bound; and where it does, `this`
is that instance, the only one to which a method was bound in this frame. -/
theorem properties_resolve_and_receivers_stay (policy : Sink.Policy) (maxDepth : Nat) (clock : Clock)
    (inputs : List Input) :
    let session := Session.fresh policy maxDepth clock
    (∀ (before : List Deed) (m : Machine), session.Comes inputs before m →
      (∀ (i : Instance) (name : Name), m.Answers before i name) ∧
      ∀ (method : Method) (i : Instance) (m' : Machine), .binds method i m' ∈ before →
        m.heap.read? (m'.heap.bindMethod method i).1.frame "this" = some (.instance i)) ∧
    (∀ (before later : List Deed) (i : Instance) (name : Name) (value : Value) (m : Machine),
      session.deeds inputs = before ++ .sets i name value m :: later →
      ∃ m', setField i name.lexeme value m = .ok () m' ∧ m.SetsOnly i name.lexeme value m') ∧
    ∀ (before later : List Deed) (id : NodeId) (line : Nat) (m : Machine),
      session.deeds inputs = before ++ .uses (.this id line) m :: later →
      ∃ u distance method i, UsedIn (session.programs inputs) u ∧ u.access = .this id line ∧
        u.around.Receives distance method.declaration ∧ u.distance = some (distance + 1) ∧
        m.Receives before distance method i ∧
        (∀ method' j m', .binds method' j m' ∈ before →
          m.heap.outer? m.current (distance + 1) = some (m'.heap.bindMethod method' j).1.frame →
            j = i) ∧
        (session.idsTaken inputs ≤ Parser.idCount → m.distances[id]? = u.distance) ∧
        (m.distances[id]? = u.distance → ∀ n,
          evaluate (n + 1) (.this id line) m = .ok (.instance i) m) := by
  intro session
  have whole := (Session.comes_fresh policy maxDepth clock inputs).story
  refine ⟨fun before m comes => ⟨fun i name => ?_, fun method i m' member => ?_⟩, ?_, ?_⟩
  · exact Machine.answers (comes.field?_eq i name.lexeme)
  · exact comes.story.read?_binds member
  · intro before later i name value m split
    -- In a story a property is only set where the instance has its cell.
    have founded := whole.founded
      (split ▸ List.mem_append_right before List.mem_cons_self)
    exact ⟨_, rfl, m.setsOnly founded name.lexeme value⟩
  · intro before later id line m split
    have comes : session.Comes inputs before m := ⟨_, split, rfl⟩
    have located := located_trace policy maxDepth clock inputs
    have noted : session.trace [] inputs = Deed.notes (session.deeds inputs) :=
      (session.trace_eq [] inputs).trans (List.append_nil _)
    rw [noted, split] at located
    -- Where the `this` is met, its frames are those of the scopes around it.
    obtain ⟨u, used, same, recorded, -, placed⟩ := located.of_deeds
    obtain ⟨distance, f, around, declared⟩ := used.receives same
    obtain ⟨method, i, rfl, receives⟩ := comes.story.receives placed.framed around
    refine ⟨u, distance, method, i, used, same, around, declared, receives, ?_, fun plenty => ?_,
      fun known n => ?_⟩
    · intro method' j m' member found
      have held := Heap.getAt?_eq found (comes.story.read?_binds member)
      rw [receives.this] at held
      cases held
      rfl
    · have found := recorded plenty
      rwa [same] at found
    · exact receives.evaluate_this (known.trans declared) line n

/-! ## When ids start over -/

/-- An input with a class that is declared in a method; the `this` in its own method is numbered 0. -/
def Input.inner : Input :=
  ⟨"class A \x7b m() \x7b class B \x7b n() \x7b this.k(); \x7d " ++
    "k() \x7b print \"kept\"; \x7d \x7d B().n(); \x7d \x7d var a = A();", 20⟩

/-- An input whose second use is numbered 0 once all ids but one were given out. -/
def Input.outer : Input := ⟨"\x7b var x; x; \x7b \x7b \x7b x; \x7d \x7d \x7d \x7d", 20⟩

/-- An input that calls the outer method. -/
def Input.nesting : Input := ⟨"a.m();", 20⟩

/-- Once ids start over, another program's distance may replace that of a `this`: the receiver is
still one link out, but it is looked up three links out, and there is another instance. -/
theorem renumbering_misleads_this :
    (((Session.fresh .accepting 5 (.steady 0)).after [.inner]).receive .nesting).1 = .finished ∧
    (((Session.fresh .accepting 5 (.steady 0)).after
        (.inner :: (List.replicate (Parser.idCount - 4) .refused ++ [.outer]))
      ).receive .nesting).1 = .failed [.runtime ⟨.undefinedProperty "k", 1⟩] := by
  -- Each refused input takes one id, so all ids but the last are gone when the next program comes.
  have nextId : ((Session.fresh .accepting 5 (.steady 0)).receive .inner).2.nextId = 3 := by
    decide +kernel
  have refused := Session.after_refused _
    (by rw [nextId]; decide) (Parser.idCount - 4)
  have last : (3 + (Parser.idCount - 4)) % Parser.idCount = 4294967295 := by decide
  rw [nextId, last] at refused
  constructor
  · decide +kernel
  · rw [Session.after_cons, Session.after_concat, refused]
    decide +kernel

end Lox
