import Lox.Proofs.Relabelling.Values

/-!
# Mirrored machines

A mirror shows a machine with its code relabelled, with another table of distances and with another
count of flushes. The table in the mirror has for each new id what the machine has for the old one,
as far as ids of code go that the machine holds. What the machine does is then seen in the mirror:
the mirrored computation, on the mirrored machine, ends in the same way and leaves the mirrored
machine (`Eval.Mirrors`).

The relation is closed under sequencing, and every operation of the machine is related to itself.
-/

set_option autoImplicit false

namespace Lox

/-- A way to see machines. -/
structure Mirror extends Relabelling where
  flushes : Nat → Nat
  distances : Distances

def Sink.mirror (μ : Mirror) (sink : Sink) : Sink :=
  { sink with tally := { sink.tally with flushes := μ.flushes sink.tally.flushes } }

def Machine.mirror (μ : Mirror) (m : Machine) : Machine :=
  { m with
    heap := m.heap.relabel μ.toRelabelling
    distances := μ.distances
    sink := m.sink.mirror μ }

/-- Whether a machine can be seen in a mirror: all its code is within the ids, for which the mirror
has the distances, and the sink does not look at the flushes. -/
structure Machine.Fits (μ : Mirror) (ids : NodeId → Prop) (m : Machine) : Prop where
  heap : m.heap.Within ids
  distances : ∀ id, ids id → μ.distances[μ.id id]? = m.distances[id]?
  writes : ∀ tally, m.sink.policy.refusesWrite
    { tally with flushes := μ.flushes tally.flushes } = m.sink.policy.refusesWrite tally

/-- Results in which there may be code. -/
class Relabels (α : Type) where
  relabel : Relabelling → α → α
  Within : (NodeId → Prop) → α → Prop

export Relabels (relabel)

instance : Relabels Unit := ⟨fun _ a => a, fun _ _ => True⟩
instance : Relabels Float := ⟨fun _ a => a, fun _ _ => True⟩
instance : Relabels Address := ⟨fun _ a => a, fun _ _ => True⟩
instance : Relabels Value := ⟨Value.relabel, Value.Within⟩
instance : Relabels Closure := ⟨Closure.relabel, fun ids f => f.declaration.Within ids⟩
instance : Relabels Instance := ⟨Instance.relabel, fun ids i => i.of.Within ids⟩
instance : Relabels Class := ⟨Class.relabel, Class.Within⟩

instance {α : Type} [Relabels α] : Relabels (Option α) :=
  ⟨fun ρ => Option.map (relabel ρ), fun ids a => ∀ b, a = some b → Relabels.Within ids b⟩

instance {α : Type} [Relabels α] : Relabels (List α) :=
  ⟨fun ρ => List.map (relabel ρ), fun ids as => ∀ a ∈ as, Relabels.Within ids a⟩

instance : Relabels Completion where
  relabel ρ
    | .normal => .normal
    | .returned value => .returned (value.relabel ρ)
  Within ids
    | .normal => True
    | .returned value => value.Within ids

def Stop.relabel (ρ : Relabelling) : Stop → Stop
  | .error e => .error { e with line := ρ.line e.line }
  | .exhausted => .exhausted

namespace Machine.Fits

variable {μ : Mirror} {ids : NodeId → Prop} {m : Machine}

/-- Uses find their names in the same place in the mirror. -/
theorem place? (fits : m.Fits μ ids) {id : NodeId} (inside : ids id) (name : String) :
    (m.mirror μ).place? (μ.id id) name = m.place? id name := by
  unfold Machine.place?
  rw [show (m.mirror μ).distances = μ.distances from rfl, fits.distances id inside]
  cases m.distances[id]? with
  | none => exact Heap.owner?_relabel _ _ _
  | some distance => exact Heap.ownerAt?_relabel _ _ _ _

/-- A machine with another heap. -/
theorem withHeap (fits : m.Fits μ ids) {heap : Heap} (within : heap.Within ids) :
    Machine.Fits μ ids { m with heap := heap } :=
  ⟨within, fits.distances, fits.writes⟩

end Machine.Fits

/-- The machine that accepts a piece of text accepts it in the mirror. -/
theorem Sink.write_mirror {μ : Mirror} (sink : Sink) (text : String)
    (writes : ∀ tally, sink.policy.refusesWrite
      { tally with flushes := μ.flushes tally.flushes } = sink.policy.refusesWrite tally) :
    (sink.mirror μ).write text = ((sink.write text).1, (sink.write text).2.mirror μ) := by
  have same : (sink.mirror μ).policy.refusesWrite (sink.mirror μ).tally
      = sink.policy.refusesWrite sink.tally := writes sink.tally
  unfold write
  rw [same]
  split
  · rfl
  · cases sink.policy.refusesWrite sink.tally <;> rfl

namespace Eval

variable {α β : Type} [Relabels α] [Relabels β] {μ : Mirror} {ids : NodeId → Prop}

/-- What `x` does on a machine, `y` does on the mirrored machine. -/
def Mirrors (μ : Mirror) (ids : NodeId → Prop) (x y : Eval α) : Prop :=
  ∀ m : Machine, m.Fits μ ids →
    match x m with
    | .ok a m' => m'.Fits μ ids ∧ Relabels.Within ids a ∧
        y (m.mirror μ) = .ok (relabel μ.toRelabelling a) (m'.mirror μ)
    | .error stop m' => m'.Fits μ ids ∧
        y (m.mirror μ) = .error (stop.relabel μ.toRelabelling) (m'.mirror μ)

/-! ## Sequencing -/

theorem mirrors_pure {a : α} (within : Relabels.Within ids a) :
    Mirrors μ ids (pure a) (pure (relabel μ.toRelabelling a)) :=
  fun _ fits => ⟨fits, within, rfl⟩

theorem mirrors_exhausted : Mirrors μ ids (throw .exhausted : Eval α) (throw .exhausted) :=
  fun _ fits => ⟨fits, rfl⟩

theorem Mirrors.bind {x y : Eval α} {f g : α → Eval β} (first : Mirrors μ ids x y)
    (second : ∀ a, Relabels.Within ids a → Mirrors μ ids (f a) (g (relabel μ.toRelabelling a))) :
    Mirrors μ ids (x >>= f) (y >>= g) := by
  intro m fits
  have here := first m fits
  rw [bind_eq, bind_eq]
  cases ends : x m with
  | error stop m' =>
    rw [ends] at here
    obtain ⟨fits', same⟩ := here
    rw [same]
    exact ⟨fits', rfl⟩
  | ok a m' =>
    rw [ends] at here
    obtain ⟨fits', within, same⟩ := here
    rw [same]
    exact second a within m' fits'

theorem mirrors_fail (cause : RuntimeError.Cause) (line : Nat) :
    Mirrors μ ids (fail cause line : Eval α) (fail cause (μ.line line)) :=
  fun _ fits => ⟨fits, rfl⟩

theorem mirrors_orFail (line : Nat) (result : Except RuntimeError.Cause α)
    (within : ∀ a, result = .ok a → Relabels.Within ids a) :
    Mirrors μ ids (orFail line result)
      (orFail (μ.line line) (result.map (relabel μ.toRelabelling))) := by
  cases result with
  | ok a => exact mirrors_pure (within a rfl)
  | error cause => exact mirrors_fail cause line

/-! ## Operations -/

theorem mirrors_create {f g : Heap → α × Heap}
    (same : ∀ h, g (h.relabel μ.toRelabelling)
      = (relabel μ.toRelabelling (f h).1, (f h).2.relabel μ.toRelabelling))
    (within : ∀ h : Heap, h.Within ids → Relabels.Within ids (f h).1 ∧ (f h).2.Within ids) :
    Mirrors μ ids (create f) (create g) := by
  intro m fits
  obtain ⟨inside, heap⟩ := within m.heap fits.heap
  refine ⟨fits.withHeap heap, inside, ?_⟩
  have there : g (m.mirror μ).heap
      = (relabel μ.toRelabelling (f m.heap).1, (f m.heap).2.relabel μ.toRelabelling) := same m.heap
  unfold create
  rw [there]
  rfl

theorem mirrors_lookUp {id : NodeId} (inside : ids id) (name : String) (line : Nat) :
    Mirrors μ ids (lookUp id name line) (lookUp (μ.id id) name (μ.line line)) := by
  intro m fits
  have value : (m.mirror μ).lookUp? (μ.id id) name
      = (m.lookUp? id name).map (Value.relabel μ.toRelabelling) := by
    unfold Machine.lookUp?
    rw [fits.place? inside]
    cases m.place? id name with
    | none => rfl
    | some frame => exact Heap.read?_relabel _ _ _
  unfold lookUp
  rw [value]
  cases found : m.lookUp? id name with
  | none => exact ⟨fits, rfl⟩
  | some v =>
    refine ⟨fits, ?_, rfl⟩
    unfold Machine.lookUp? at found
    obtain ⟨frame, _, here⟩ := Option.bind_eq_some_iff.mp found
    exact fits.heap.read? here

theorem mirrors_assign {id : NodeId} (inside : ids id) (name : Name) {value : Value}
    (within : value.Within ids) :
    Mirrors μ ids (assign id name value)
      (assign (μ.id id) (name.relabel μ.toRelabelling) (value.relabel μ.toRelabelling)) := by
  intro m fits
  unfold assign
  rw [Name.lexeme_relabel, fits.place? inside]
  cases m.place? id name.lexeme with
  | none => exact ⟨fits, rfl⟩
  | some frame =>
    refine ⟨fits.withHeap (fits.heap.define frame name.lexeme within), trivial, ?_⟩
    unfold Machine.mirror
    rw [Heap.relabel_define]

theorem mirrors_define (name : String) (value : Value) (within : value.Within ids) :
    Mirrors μ ids (define name value) (define name (value.relabel μ.toRelabelling)) := by
  intro m fits
  refine ⟨fits.withHeap (fits.heap.define m.current name within), trivial, ?_⟩
  unfold define Machine.mirror
  rw [Heap.relabel_define]

theorem mirrors_bindMethod {method : Method} (code : method.declaration.Within ids)
    {i : Instance} (receiver : i.of.Within ids) :
    Mirrors μ ids (create (·.bindMethod method i))
      (create (·.bindMethod (method.relabel μ.toRelabelling) (i.relabel μ.toRelabelling))) := by
  refine mirrors_create (fun h => ?_) fun h within => ⟨code, ?_⟩
  · simp [Heap.bindMethod, Heap.newClosure, Heap.allocateFrame, Heap.allocate, Heap.relabel,
      Cell.relabel, Frame.relabel, Method.relabel, relabel, Closure.relabel, Value.relabel]
  · have frame : (Cell.frame ⟨Bindings.empty.set "this" (.instance i), some method.frame⟩).Within
        ids := Bindings.forall_single receiver
    exact (within.allocate _ frame).allocate .identity trivial

theorem mirrors_bound {method? : Option Method}
    (code : ∀ method, method? = some method → method.declaration.Within ids) {i : Instance}
    (receiver : i.of.Within ids) (property : String) (line : Nat) :
    Mirrors μ ids (bound method? i property line)
      (bound (method?.map (Method.relabel μ.toRelabelling)) (i.relabel μ.toRelabelling) property
        (μ.line line)) := by
  cases method? with
  | none => exact mirrors_fail _ _
  | some method =>
    refine (mirrors_bindMethod (code method rfl) receiver).bind fun f within => ?_
    exact mirrors_pure (a := Value.closure f) within

/-- A computation may be taken for another one that does the same on the machine at hand. -/
theorem mirrors_of_eq {x y : Eval α}
    (step : ∀ m : Machine, m.Fits μ ids → ∃ x' y' : Eval α, Mirrors μ ids x' y' ∧ x m = x' m ∧
      y (m.mirror μ) = y' (m.mirror μ)) : Mirrors μ ids x y := by
  intro m fits
  obtain ⟨x', y', mirrors, same, same'⟩ := step m fits
  rw [same, same']
  exact mirrors m fits

theorem mirrors_property {object : Value} (within : object.Within ids) (name : Name) :
    Mirrors μ ids (property object name)
      (property (object.relabel μ.toRelabelling) (name.relabel μ.toRelabelling)) := by
  cases object with
  | «instance» i =>
    refine mirrors_of_eq fun m fits => ?_
    have field : (m.mirror μ).heap.field? (i.relabel μ.toRelabelling) name.lexeme
        = (m.heap.field? i name.lexeme).map (Value.relabel μ.toRelabelling) :=
      Heap.field?_relabel _ _ _
    cases found : m.heap.field? i name.lexeme with
    | some value =>
      rw [found] at field
      refine ⟨_, _, mirrors_pure (fits.heap.field? found), ?_, ?_⟩
      · simp only [property, found]
        rfl
      · simp only [property, Value.relabel, Name.lexeme_relabel, field]
        rfl
    | none =>
      rw [found] at field
      have code : ∀ method, i.of.method? name.lexeme = some method →
          method.declaration.Within ids := fun _ => Class.Within.method? within
      refine ⟨_, _, mirrors_bound code within name.lexeme name.line, ?_, ?_⟩
      · simp only [property, found]
      · simp only [property, Value.relabel, Name.lexeme_relabel, field]
        rw [← Class.method?_relabel]
        rfl
  | nil | bool | number | string | native | closure | «class» => exact mirrors_fail _ _

theorem mirrors_setField {i : Instance} (name : String) {value : Value}
    (within : value.Within ids) :
    Mirrors μ ids (setField i name value)
      (setField (i.relabel μ.toRelabelling) name (value.relabel μ.toRelabelling)) := by
  intro m fits
  refine ⟨fits.withHeap (fits.heap.setField i name within), trivial, ?_⟩
  unfold setField Machine.mirror
  rw [Heap.relabel_setField]

theorem mirrors_superMethod {id : NodeId} (inside : ids id) (line : Nat) (method : String) :
    Mirrors μ ids (superMethod id line method) (superMethod (μ.id id) (μ.line line) method) := by
  refine mirrors_of_eq fun m fits => ?_
  have table : (m.mirror μ).distances[μ.id id]? = m.distances[id]? := fits.distances id inside
  have read : ∀ distance name, (m.mirror μ).heap.getAt? (m.mirror μ).current distance name
      = (m.heap.getAt? m.current distance name).map (Value.relabel μ.toRelabelling) :=
    fun distance name => Heap.getAt?_relabel _ _ _ _
  unfold superMethod
  cases known : m.distances[id]? with
  | none =>
    rw [known] at table
    refine ⟨_, _, mirrors_fail .superOutsideClass line, rfl, ?_⟩
    simp only [table]
  | some distance =>
    rw [known] at table
    simp only [table, read]
    cases above : m.heap.getAt? m.current distance "super" with
    | none => exact ⟨_, _, mirrors_fail (.undefinedVariable "super") line, rfl, rfl⟩
    | some parent =>
      cases parent with
      | «class» parent =>
        simp only [Option.map_some, Value.relabel]
        cases receiver : m.heap.getAt? m.current (distance - 1) "this" with
        | none => exact ⟨_, _, mirrors_fail (.undefinedVariable "this") line, rfl, rfl⟩
        | some object =>
          cases object with
          | «instance» i =>
            have class_ : (Value.class parent).Within ids := fits.heap.getAt? above
            have object : (Value.instance i).Within ids := fits.heap.getAt? receiver
            have code : ∀ found, parent.method? method = some found →
                found.declaration.Within ids := fun _ => Class.Within.method? class_
            refine ⟨_, _, mirrors_bound code object method line, rfl, ?_⟩
            rw [← Class.method?_relabel]
            rfl
          | nil | bool | number | string | native | closure | «class» =>
            exact ⟨_, _, mirrors_fail .readsPropertyOfNonInstance line, rfl, rfl⟩
      | nil | bool | number | string | native | closure | «instance» =>
        exact ⟨_, _, mirrors_fail .superclassNotClass line, rfl, rfl⟩

theorem mirrors_write (text : String) (line : Nat) :
    Mirrors μ ids (write text line) (write text (μ.line line)) := by
  intro m fits
  have policy := Sink.policy_write m.sink text
  have there : (m.mirror μ).sink.write text
      = ((m.sink.write text).1, (m.sink.write text).2.mirror μ) :=
    Sink.write_mirror m.sink text fits.writes
  unfold write
  rw [there]
  cases written : m.sink.write text with
  | mk refusal sink =>
    rw [written] at policy
    have fits' : Machine.Fits μ ids { m with sink := sink } :=
      ⟨fits.heap, fits.distances, by rw [policy]; exact fits.writes⟩
    cases refusal with
    | none => exact ⟨fits', trivial, rfl⟩
    | some reason => exact ⟨fits', rfl⟩

theorem mirrors_writeAll (line : Nat) (texts : List String) :
    Mirrors μ ids (writeAll line texts) (writeAll (μ.line line) texts) := by
  induction texts with
  | nil => exact mirrors_pure trivial
  | cons text texts ih => exact (mirrors_write text line).bind fun _ _ => ih

theorem mirrors_print (value : Value) (line : Nat) :
    Mirrors μ ids (print value line)
      (print (value.relabel μ.toRelabelling) (μ.line line)) := by
  unfold print
  rw [Value.parts_relabel]
  exact mirrors_writeAll line _

/-- The clock of the mirror shows the same time. -/
theorem mirrors_readClock (f : Native) : Mirrors μ ids (readClock f) (readClock f) :=
  fun _ fits => ⟨⟨fits.heap, fits.distances, fits.writes⟩, trivial, rfl⟩

/-! ## Calls and declarations -/

theorem Mirrors.inFrame {x y : Eval α} (frame : Address) (body : Mirrors μ ids x y) :
    Mirrors μ ids (inFrame frame x) (inFrame frame y) := by
  intro m fits
  have here := body { m with current := frame } ⟨fits.heap, fits.distances, fits.writes⟩
  have there : ({ m with current := frame } : Machine).mirror μ
      = { m.mirror μ with current := frame } := rfl
  rw [there] at here
  unfold Eval.inFrame
  dsimp only
  cases ends : x { m with current := frame } with
  | ok a m' =>
    rw [ends] at here
    obtain ⟨fits', within, same⟩ := here
    rw [same]
    exact ⟨⟨fits'.heap, fits'.distances, fits'.writes⟩, within, rfl⟩
  | error stop m' =>
    rw [ends] at here
    obtain ⟨fits', same⟩ := here
    rw [same]
    exact ⟨⟨fits'.heap, fits'.distances, fits'.writes⟩, rfl⟩

theorem Mirrors.inCall {x y : Eval α} (line : Nat) (body : Mirrors μ ids x y) :
    Mirrors μ ids (inCall line x) (inCall (μ.line line) y) := by
  intro m fits
  have here := body { m with depth := m.depth + 1 } ⟨fits.heap, fits.distances, fits.writes⟩
  have there : ({ m with depth := m.depth + 1 } : Machine).mirror μ
      = { m.mirror μ with depth := (m.mirror μ).depth + 1 } := rfl
  rw [there] at here
  unfold Eval.inCall
  have limit : ((m.mirror μ).maxDepth ≤ (m.mirror μ).depth) = (m.maxDepth ≤ m.depth) := rfl
  simp only [limit]
  by_cases full : m.maxDepth ≤ m.depth
  · rw [if_pos full, if_pos full]
    exact mirrors_fail .stackOverflow line m fits
  · rw [if_neg full, if_neg full]
    cases ends : x { m with depth := m.depth + 1 } with
    | ok a m' =>
      rw [ends] at here
      obtain ⟨fits', within, same⟩ := here
      rw [same]
      exact ⟨⟨fits'.heap, fits'.distances, fits'.writes⟩, within, rfl⟩
    | error stop m' =>
      rw [ends] at here
      obtain ⟨fits', same⟩ := here
      rw [same]
      exact ⟨⟨fits'.heap, fits'.distances, fits'.writes⟩, rfl⟩

/-- A new frame inside the current one. -/
theorem mirrors_allocateFrame (enclosing : Option Address) (bindings : Bindings Value)
    (within : ∀ name value, bindings.find? name = some value → value.Within ids) :
    Mirrors μ ids (create (·.allocateFrame enclosing bindings))
      (create (·.allocateFrame enclosing
        (bindings.map (Value.relabel μ.toRelabelling)))) := by
  refine mirrors_create (fun h => ?_) fun h heap => ⟨trivial, heap.allocate _ within⟩
  exact Heap.relabel_allocate h (.frame ⟨bindings, enclosing⟩)

theorem map_parameters (params : List Name) (arguments : List Value) (bindings : Bindings Value) :
    ((params.zip arguments).foldl (fun bindings (param, argument) =>
        bindings.set param.lexeme argument) bindings).map (Value.relabel μ.toRelabelling)
      = ((params.map (Name.relabel μ.toRelabelling)).zip
          (arguments.map (Value.relabel μ.toRelabelling))).foldl
        (fun bindings (param, argument) => bindings.set param.lexeme argument)
        (bindings.map (Value.relabel μ.toRelabelling)) := by
  induction params generalizing arguments bindings with
  | nil => rfl
  | cons param params ih =>
    cases arguments with
    | nil => rfl
    | cons argument arguments =>
      simp only [List.zip_cons_cons, List.foldl_cons, List.map_cons, Name.lexeme_relabel, ih,
        Bindings.map_set]

theorem mirrors_enterFunction (f : Closure) {arguments : List Value}
    (given : ∀ value ∈ arguments, value.Within ids) :
    Mirrors μ ids (enterFunction f arguments)
      (enterFunction (f.relabel μ.toRelabelling)
        (arguments.map (Value.relabel μ.toRelabelling))) := by
  have within := Bindings.forall_parameters f.declaration.params arguments given .empty
    fun _ _ => nofun
  have frame := mirrors_allocateFrame (μ := μ) (some f.frame) _ within
  rw [map_parameters] at frame
  unfold enterFunction
  rw [show (f.relabel μ.toRelabelling).declaration.params
    = f.declaration.params.map (Name.relabel μ.toRelabelling) from
      FunctionDecl.params_relabel f.declaration]
  exact frame

theorem mirrors_result (f : Closure) (line : Nat) {completion : Completion}
    (within : Relabels.Within ids completion) :
    Mirrors μ ids (result f line completion)
      (result (f.relabel μ.toRelabelling) (μ.line line)
        (relabel μ.toRelabelling completion)) := by
  refine mirrors_of_eq fun m fits => ?_
  have receiver : (m.mirror μ).heap.read? f.frame "this"
      = (m.heap.read? f.frame "this").map (Value.relabel μ.toRelabelling) :=
    Heap.read?_relabel _ _ _
  have initializer : (f.relabel μ.toRelabelling).isInitializer = f.isInitializer := rfl
  have frame : (f.relabel μ.toRelabelling).frame = f.frame := rfl
  unfold result
  rw [initializer, frame, receiver]
  cases f.isInitializer with
  | true =>
    cases found : m.heap.read? f.frame "this" with
    | none => exact ⟨_, _, mirrors_fail (.undefinedVariable "this") line, rfl, rfl⟩
    | some value => exact ⟨_, _, mirrors_pure (fits.heap.read? found), rfl, rfl⟩
  | false =>
    cases completion with
    | normal => exact ⟨_, _, mirrors_pure (a := Value.nil) trivial, rfl, rfl⟩
    | returned value => exact ⟨_, _, mirrors_pure (a := value) within, rfl, rfl⟩

theorem mirrors_checkCall (callee : Value) (count line : Nat) :
    Mirrors μ ids (checkCall callee count line)
      (checkCall (callee.relabel μ.toRelabelling) count (μ.line line)) := by
  unfold checkCall
  rw [Value.arity?_relabel]
  cases callee.arity? with
  | none => exact mirrors_fail _ _
  | some arity =>
    by_cases right : count = arity
    · simp only [if_pos right]
      exact mirrors_pure trivial
    · simp only [if_neg right]
      exact mirrors_fail _ _

theorem mirrors_superclass? {parent : Option Superclass}
    (inside : ∀ above, parent = some above → ids above.id) :
    Mirrors μ ids (superclass? parent)
      (superclass? (parent.map (Superclass.relabel μ.toRelabelling))) := by
  cases parent with
  | none => exact mirrors_pure fun _ => nofun
  | some above =>
    refine (mirrors_lookUp (inside above rfl) above.name.lexeme above.name.line).bind
      fun value within => ?_
    cases value with
    | «class» c =>
      refine mirrors_pure (a := some c) fun d same => ?_
      exact Option.some.inj same ▸ within
    | nil | bool | number | string | native | closure | «instance» => exact mirrors_fail _ _

theorem mirrors_methodFrame {parent : Option Class}
    (within : ∀ above, parent = some above → above.Within ids) :
    Mirrors μ ids (methodFrame parent)
      (methodFrame (parent.map (Class.relabel μ.toRelabelling))) := by
  refine mirrors_of_eq fun m fits => ?_
  cases parent with
  | none => exact ⟨_, _, mirrors_pure (a := m.current) trivial, rfl, rfl⟩
  | some c =>
    have bound : ∀ name (value : Value),
        ((Bindings.empty : Bindings Value).set "super" (.class c)).find? name = some value →
          value.Within ids := Bindings.forall_single (within c rfl)
    refine ⟨_, _, mirrors_allocateFrame (some m.current) _ bound, rfl, ?_⟩
    rw [Bindings.map_set]
    rfl

theorem mirrors_newClass (name : String) {parent : Option Class}
    (above : ∀ c, parent = some c → c.Within ids) (frame : Address) {methods : List FunctionDecl}
    (inside : ∀ f ∈ methods, f.Within ids) :
    Mirrors μ ids (create (·.newClass name parent frame methods))
      (create (·.newClass name (parent.map (Class.relabel μ.toRelabelling)) frame
        (methods.map (FunctionDecl.relabel μ.toRelabelling)))) := by
  refine mirrors_create (fun h => ?_) fun h heap =>
    ⟨Class.within_of above inside, heap.allocate .identity trivial⟩
  unfold Heap.newClass
  have cell : (h.relabel μ.toRelabelling).allocate .identity = _ :=
    Heap.relabel_allocate h .identity
  rw [cell]
  exact congrArg (·, _) (Class.relabel_mk _ _ _ _ _).symm

theorem mirrors_declareClass (name : Name) {parent : Option Superclass}
    (inside : ∀ above, parent = some above → ids above.id) {methods : List FunctionDecl}
    (code : ∀ f ∈ methods, f.Within ids) :
    Mirrors μ ids (declareClass name parent methods)
      (declareClass (name.relabel μ.toRelabelling)
        (parent.map (Superclass.relabel μ.toRelabelling))
        (methods.map (FunctionDecl.relabel μ.toRelabelling))) := by
  refine (mirrors_superclass? inside).bind fun above within => ?_
  refine (mirrors_methodFrame within).bind fun frame _ => ?_
  refine (mirrors_newClass name.lexeme within frame code).bind fun c known => ?_
  exact mirrors_define name.lexeme (.class c) known

theorem mirrors_newClosure {declaration : FunctionDecl} (code : declaration.Within ids)
    (frame : Address) (isInitializer : Bool) :
    Mirrors μ ids (create (·.newClosure declaration frame isInitializer))
      (create (·.newClosure (declaration.relabel μ.toRelabelling) frame isInitializer)) := by
  refine mirrors_create (fun h => ?_) fun h heap =>
    ⟨code, heap.allocate .identity trivial⟩
  unfold Heap.newClosure
  have cell : (h.relabel μ.toRelabelling).allocate .identity = _ :=
    Heap.relabel_allocate h .identity
  rw [cell]
  rfl

theorem mirrors_declareFunction {declaration : FunctionDecl} (code : declaration.Within ids) :
    Mirrors μ ids (declareFunction declaration)
      (declareFunction (declaration.relabel μ.toRelabelling)) := by
  intro m fits
  have steps : Mirrors μ ids
      (do
        let f ← create (·.newClosure declaration m.current false)
        define declaration.name.lexeme (.closure f))
      (do
        let f ← create (·.newClosure (declaration.relabel μ.toRelabelling) m.current false)
        define (declaration.relabel μ.toRelabelling).name.lexeme (.closure f)) := by
    refine (mirrors_newClosure code m.current false).bind fun f within => ?_
    rw [FunctionDecl.name_relabel]
    exact mirrors_define declaration.name.lexeme (.closure f) within
  exact steps m fits

theorem mirrors_newInstance {c : Class} (within : c.Within ids) :
    Mirrors μ ids (create (·.newInstance c))
      (create (·.newInstance (c.relabel μ.toRelabelling))) := by
  refine mirrors_create (fun h => ?_) fun h heap =>
    ⟨within, heap.allocate (.fields .empty) fun _ _ => nofun⟩
  unfold Heap.newInstance
  have cell : (h.relabel μ.toRelabelling).allocate (.fields .empty) = _ :=
    Heap.relabel_allocate h (.fields .empty)
  rw [cell]
  rfl

theorem mirrors_openBlock : Mirrors μ ids openBlock openBlock := by
  intro m fits
  exact mirrors_allocateFrame (some m.current) .empty (fun _ _ => nofun) m fits

end Eval

end Lox
