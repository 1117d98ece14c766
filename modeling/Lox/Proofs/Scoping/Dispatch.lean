import Lox.Proofs.Scoping.Addressing
import Lox.Proofs.Scoping.Nesting

/-!
# Methods of the superclass

`super` is a matter of where it is written. The frame that the analysis leads it to was opened by
the class statement around the nearest method, and holds the class that this statement looked up as
its superclass; the frame just inside was opened when the method was bound, and holds the receiver.
Both were put there when the frames were opened and are never replaced. So the class of the
receiver, what it overrides, and what becomes of the variable that named the superclass play no
part.

As with all uses, the distance of a `super` can be relied on until all ids have been given out.
-/

set_option autoImplicit false

namespace Lox

/-! ## The methods of a class -/

namespace Class

/-- A class and the classes above it, the nearest first. -/
def lineage : Class → List Class
  | ⟨id, name, some above, frame, methods⟩ =>
    ⟨id, name, some above, frame, methods⟩ :: above.lineage
  | ⟨id, name, none, frame, methods⟩ => [⟨id, name, none, frame, methods⟩]

/-- The method that a class itself defines under a name. -/
def own? (c : Class) (name : String) : Option Method :=
  (lastNamed? c.methods name).map (⟨·, c.frame⟩)

/-- A method is the first one of its name in the lineage of the class. -/
theorem method?_eq (c : Class) (name : String) :
    c.method? name = c.lineage.findSome? (·.own? name) := by
  match c with
  | ⟨id, className, some above, frame, methods⟩ =>
    rw [lineage, List.findSome?_cons, ← method?_eq above name, method?, own?]
    cases lastNamed? methods name <;> rfl
  | ⟨id, className, none, frame, methods⟩ =>
    rw [lineage, List.findSome?_cons, method?, own?]
    cases lastNamed? methods name <;> rfl

end Class

/-- What a frame holds is found as many links out as lead to it. -/
theorem Heap.getAt?_eq {h : Heap} {a frame : Address} {distance : Nat} {name : String}
    {value : Value} (reached : h.outer? a distance = some frame)
    (found : h.read? frame name = some value) : h.getAt? a distance name = some value := by
  obtain ⟨inside, here, holds⟩ := Option.bind_eq_some_iff.mp found
  have binds : h.binds frame name = true :=
    Heap.binds_eq_true.mpr ⟨inside, here, Option.isSome_iff_exists.mpr ⟨value, holds⟩⟩
  unfold getAt?
  rw [ownerAt?_eq name reached, if_pos binds, Option.bind_some, found]

/-! ## What `super` finds -/

/-- Whether in a machine the place of a use inherits from a class, with an instance as its receiver:
the frames of the nearest method and of its class hold them, and the class is the one that the class
statement around had just looked up when it opened its frame. -/
structure Machine.Inherits (m : Machine) (earlier : List Event) (around : Surroundings)
    (distance : Nat) (c : Class) (i : Instance) : Prop where
  evaluated : ∃ name parent methods frame outer m' before,
    around.Inherits distance name parent methods ∧
      m.heap.outer? m.current (distance + 1) = some frame ∧
      .opened (.superclass name parent methods) frame outer :: .used parent.access m' :: before
        <:+ earlier ∧
      Eval.superclass? (some parent) m' = .ok (some c) m'
  super : m.heap.getAt? m.current (distance + 1) "super" = some (.class c)
  this : m.heap.getAt? m.current distance "this" = some (.instance i)

/-- Whether a computation gives the method that a class finds first from itself upwards, bound to an
instance, or reports that there is none. -/
def Eval.Dispatches (x : Eval Value) (m : Machine) (c : Class) (i : Instance) (property : String)
    (line : Nat) : Prop :=
  match c.lineage.findSome? (·.own? property) with
  | none => x m = fail (.undefinedProperty property) line m
  | some method => ∃ f m', x m = .ok (.closure f) m' ∧ f.declaration = method.declaration ∧
      m'.heap.frame? f.frame
        = some ⟨Bindings.empty.set "this" (.instance i), some method.frame⟩

theorem Eval.dispatches_bound (c : Class) (i : Instance) (property : String) (line : Nat)
    (m : Machine) :
    (bound (c.method? property) i property line).Dispatches m c i property line := by
  unfold Dispatches
  rw [← Class.method?_eq]
  cases c.method? property with
  | none => rfl
  | some method =>
    refine ⟨_, _, rfl, rfl, ?_⟩
    -- After the frame the identity of the closure is allocated.
    have first := Heap.frame?_allocateFrame m.heap (some method.frame)
      (Bindings.empty.set "this" (.instance i))
    exact (Heap.frame?_allocate _ .identity _ (Heap.lt_size_of_frame? first)).trans first

section

variable {session : Session} {inputs : List Input} {u : Use} {m : Machine} {earlier : List Event}

/-- A use of `super` in an accepted program is in a class that inherits. -/
theorem UsedIn.inherits (used : UsedIn (session.programs inputs) u) {id : NodeId} {line : Nat}
    (same : u.access = .super id line) :
    ∃ distance name parent methods, u.around.Inherits distance name parent methods ∧
      u.distance = some (distance + 1) := by
  obtain ⟨program, member, mem⟩ := used
  obtain ⟨lo, hi, accepted⟩ := Session.accepted_of_mem member
  obtain ⟨context, nested, derived⟩ := Resolver.nests_statements program.statements
    (accepted.declared.formed trivial) .outside accepted.silent u mem
  obtain rfl := derived id line same
  obtain ⟨distance, name, parent, methods, inherits⟩ := nested.inherits u.around.declaring
  refine ⟨distance, name, parent, methods, inherits, ?_⟩
  unfold Use.distance
  rw [same]
  exact inherits.super

/-- The frames of the nearest method and of its class hold the receiver and the superclass. -/
theorem Placed.inherits (placed : Placed (m.scene earlier) u.around.declaring u.around.sites
    u.around.scopes m.current) (holds : m.heap.Holds earlier) {distance : Nat} {name : Name}
    {parent : Superclass} {methods : List FunctionDecl}
    (inherits : u.around.Inherits distance name parent methods) :
    ∃ c i, m.Inherits earlier u.around distance c i := by
  have framed := placed.framed.1
  obtain ⟨f, -, method⟩ := inherits.method
  obtain ⟨inner, _, reached, -, bound⟩ := framed _ _ method
  obtain ⟨frame, outer, reached', -, opened⟩ := framed _ _ inherits.class
  obtain ⟨i, receiver⟩ := holds _ _ _ bound
  obtain ⟨m', c, before, noted, evaluated, above⟩ := holds _ _ _ opened
  exact ⟨c, i, ⟨name, parent, methods, frame, outer, m', before, inherits, reached', noted,
    evaluated⟩, Heap.getAt?_eq reached' above, Heap.getAt?_eq reached receiver⟩

/-- Where the place inherits and the distance is known, `super` finds methods of the class above. -/
theorem Machine.Inherits.dispatches {around : Surroundings} {distance : Nat} {c : Class}
    {i : Instance} (inherits : m.Inherits earlier around distance c i) {id : NodeId}
    (known : m.distances[id]? = some (distance + 1)) (line : Nat) (property : String) :
    (Eval.superMethod id line property).Dispatches m c i property line := by
  have same : Eval.superMethod id line property m
      = Eval.bound (c.method? property) i property line m := by
    unfold Eval.superMethod
    rw [known]
    dsimp only
    rw [inherits.super]
    dsimp only
    rw [Nat.add_sub_cancel, inherits.this]
  have bound := Eval.dispatches_bound c i property line m
  unfold Eval.Dispatches at bound ⊢
  rwa [same]

end

/-- What was held when a session met its uses: the frames of methods and classes held the receivers
and the superclasses. -/
theorem held_trace (policy : Sink.Policy) (maxDepth : Nat) (clock : Clock) (inputs : List Input) :
    EveryUse (fun _ m earlier => m.heap.Holds earlier)
      ((Session.fresh policy maxDepth clock).trace [] inputs) := by
  have start := consistent_fresh False policy maxDepth clock
  have end_ := start.after inputs False.elim
  rw [List.nil_append, Nat.zero_add] at end_
  exact end_.sound.held

/-- **Static dispatch.** Whenever a session meets a `super`, whatever its inputs are and however
they end, the place is in a method of a class statement with a superclass. The frame of this
statement holds the class that it looked up as its superclass, and the frame just inside holds an
instance, the one that `this` denotes there. While ids last the table leads to these frames; and
where it does, `super` gives the method that is found first from that class upwards, bound to that
instance, and fails only if there is none. -/
theorem super_dispatches_statically (policy : Sink.Policy) (maxDepth : Nat) (clock : Clock)
    (inputs : List Input) :
    EveryUse
      (fun access m earlier => ∀ id line, access = .super id line →
        ∃ u distance c i, UsedIn ((Session.fresh policy maxDepth clock).programs inputs) u ∧
          u.access = access ∧ u.distance = some (distance + 1) ∧
          m.Inherits earlier u.around distance c i ∧
          ((Session.fresh policy maxDepth clock).idsTaken inputs ≤ Parser.idCount →
            m.distances[id]? = u.distance) ∧
          (m.distances[id]? = u.distance → ∀ property,
            (Eval.superMethod id line property).Dispatches m c i property line))
      ((Session.fresh policy maxDepth clock).trace [] inputs) := by
  -- The first says where the frames are, and the second what they hold.
  have both :=
    (located_trace policy maxDepth clock inputs).and (held_trace policy maxDepth clock inputs)
  refine both.mono fun access m earlier located => ?_
  rintro id line rfl
  obtain ⟨⟨u, used, same, recorded, -, placed⟩, holds⟩ := located
  obtain ⟨distance, name, parent, methods, inherits, declared⟩ := used.inherits same
  obtain ⟨c, i, inherits⟩ := placed.inherits holds inherits
  refine ⟨u, distance, c, i, used, same, declared, inherits, fun plenty => ?_,
    fun known property => ?_⟩
  · have found := recorded plenty
    rwa [same] at found
  · exact inherits.dispatches (known.trans declared) line property

/-! ## When ids start over -/

/-- An input with a class that inherits, and an instance of it; the `super` is numbered 1. -/
def Input.inheriting : Input :=
  ⟨"class A \x7b m() \x7b \x7d \x7d class B < A \x7b m() \x7b super.m(); \x7d \x7d var b = B();",
    20⟩

/-- An input whose third use is numbered 1 once all ids but one were given out. -/
def Input.displacing : Input :=
  ⟨"\x7b var x; x; x; \x7b \x7b \x7b x; \x7d \x7d \x7d \x7d", 20⟩

/-- An input that calls the method with the `super`. -/
def Input.calling : Input := ⟨"b.m();", 20⟩

/-- Once ids start over, another program's distance may replace that of a `super`: the frame of the
class is still two links out, but the superclass is looked up three links out. -/
theorem renumbering_misleads_super :
    (((Session.fresh .accepting 5 (.steady 0)).after [.inheriting]).receive .calling).1 = .finished ∧
    (((Session.fresh .accepting 5 (.steady 0)).after
        (.inheriting :: (List.replicate (Parser.idCount - 4) .refused ++ [.displacing]))
      ).receive .calling).1 = .failed [.runtime ⟨.undefinedVariable "super", 1⟩] := by
  -- Each refused input takes one id, so all ids but the last are gone when the next program comes.
  have nextId : ((Session.fresh .accepting 5 (.steady 0)).receive .inheriting).2.nextId = 3 := by
    decide +kernel
  have refused := Session.after_refused _
    (by rw [nextId]; decide) (Parser.idCount - 4)
  have last : (3 + (Parser.idCount - 4)) % Parser.idCount = 4294967295 := by decide
  rw [nextId, last] at refused
  constructor
  · decide +kernel
  · rw [Session.after_cons, Session.after_concat, refused]
    decide +kernel

end Lox
