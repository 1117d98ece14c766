import Lox.Proofs.Renaming.Values

/-!
# Machines that run renamed code

A computation and the renamed one, on machines that differ in their heaps alone, end alike: with
values that are related, or with the same error up to the name in it, and again on machines that
differ in their heaps alone (`Eval.Renames`). The world may have grown in between.

The relation is closed under sequencing. Each operation of the machine is related to what it becomes
in the frame at hand, whose marks say which names are renamed there.
-/

set_option autoImplicit false

namespace Lox

/-- The machine `m'` is `m` with a renamed heap. The current frame has the given marks, the globals
have none, and both machines have the table of the renaming. -/
structure Machine.Renamed (ρ : Renaming) (world : World) (marks : List Bool) (m m' : Machine) :
    Prop where
  heap : m.heap.Renamed ρ world m'.heap
  rest : m' = { m with heap := m'.heap, distances := m'.distances }
  root : world[m.globals]? = some []
  here : world[m.current]? = some marks
  table : ∀ id : NodeId, m.distances[id]? = ρ.table[id]?
  table' : ∀ id : NodeId, m'.distances[id]? = ρ.table[id]?

/-- Why a computation stops, and why the other one does: an error may tell the old name where the
other tells the new one. -/
inductive Stop.Renamed (ρ : Renaming) : Stop → Stop → Prop
  | same (stop : Stop) : Stop.Renamed ρ stop stop
  | undefined (line : Nat) :
    Stop.Renamed ρ (.error ⟨.undefinedVariable ρ.old, line⟩)
      (.error ⟨.undefinedVariable ρ.new, line⟩)

inductive Completion.Renamed (ρ : Renaming) (world : World) : Completion → Completion → Prop
  | normal : Completion.Renamed ρ world .normal .normal
  | returned {v v' : Value} (same : v.Renamed ρ world v') :
    Completion.Renamed ρ world (.returned v) (.returned v')

/-- The address of the same frame, which has the given marks. -/
def Address.Marked (marks : List Bool) (world : World) (a a' : Address) : Prop :=
  a' = a ∧ world[a]? = some marks

namespace Machine.Renamed

variable {ρ : Renaming} {world more : World} {marks : List Bool} {m m' : Machine}

theorem current (same : m.Renamed ρ world marks m') : m'.current = m.current := by
  rw [same.rest]

theorem globals (same : m.Renamed ρ world marks m') : m'.globals = m.globals := by
  rw [same.rest]

theorem withHeap (same : m.Renamed ρ world marks m') (grown : world <+: more) {h h' : Heap}
    (heap : h.Renamed ρ more h') :
    Machine.Renamed ρ more marks { m with heap := h } { m' with heap := h' } where
  heap := heap
  rest := congrArg (fun m : Machine => { m with heap := h' }) same.rest
  root := World.getElem?_of_grown grown same.root
  here := World.getElem?_of_grown grown same.here
  table := same.table
  table' := same.table'

theorem withCurrent (same : m.Renamed ρ world marks m') {frame : Address} {inner : List Bool}
    (found : world[frame]? = some inner) :
    Machine.Renamed ρ world inner { m with current := frame } { m' with current := frame } where
  heap := same.heap
  rest := congrArg (fun m : Machine => { m with current := frame }) same.rest
  root := same.root
  here := found
  table := same.table
  table' := same.table'

theorem withDepth (same : m.Renamed ρ world marks m') (depth : Nat) :
    Machine.Renamed ρ world marks { m with depth := depth } { m' with depth := depth } where
  heap := same.heap
  rest := congrArg (fun m : Machine => { m with depth := depth }) same.rest
  root := same.root
  here := same.here
  table := same.table
  table' := same.table'

theorem withClock (same : m.Renamed ρ world marks m') (clock : Clock) :
    Machine.Renamed ρ world marks { m with clock := clock } { m' with clock := clock } where
  heap := same.heap
  rest := congrArg (fun m : Machine => { m with clock := clock }) same.rest
  root := same.root
  here := same.here
  table := same.table
  table' := same.table'

theorem withSink (same : m.Renamed ρ world marks m') (sink : Sink) :
    Machine.Renamed ρ world marks { m with sink := sink } { m' with sink := sink } where
  heap := same.heap
  rest := congrArg (fun m : Machine => { m with sink := sink }) same.rest
  root := same.root
  here := same.here
  table := same.table
  table' := same.table'

/-- **A renamed use finds its name in the frame in which the use finds it**: the frame at its
distance has the mark by which the use is renamed, and the globals have none. -/
theorem place? (same : m.Renamed ρ world marks m') (id : NodeId) {name : String}
    (fresh : name ≠ ρ.new) :
    m'.place? id (ρ.apply (ρ.reaches marks id) name) = m.place? id name ∧
      ∀ frame, m.place? id name = some frame →
        ∃ around, world[frame]? = some around ∧ around.headD false = ρ.reaches marks id := by
  unfold Machine.place? Renaming.reaches
  rw [same.current, same.globals, same.table id, same.table' id]
  cases ρ.table[id]? with
  | some distance =>
    refine ⟨same.heap.ownerAt? same.here distance fresh, fun frame found => ?_⟩
    obtain ⟨-, around⟩ := same.heap.ancestor same.here distance
    have place := Heap.eq_ancestor_of_ownerAt? found
    exact ⟨_, place ▸ around, headD_drop marks distance⟩
  | none =>
    obtain ⟨owner, owner'⟩ := same.heap.owner? same.root fresh
    refine ⟨owner', fun frame found => ⟨[], ?_, rfl⟩⟩
    dsimp only at found
    rw [owner] at found
    split at found
    · exact Option.some.inj found ▸ same.root
    · cases found

theorem lookUp? (same : m.Renamed ρ world marks m') (id : NodeId) {name : String}
    (fresh : name ≠ ρ.new) :
    Option.Rel (Value.Renamed ρ world) (m.lookUp? id name)
      (m'.lookUp? id (ρ.apply (ρ.reaches marks id) name)) := by
  obtain ⟨place, known⟩ := same.place? id fresh
  unfold Machine.lookUp?
  rw [place]
  cases found : m.place? id name with
  | none => exact .none
  | some frame =>
    obtain ⟨around, here, mark⟩ := known frame found
    rw [← mark]
    exact same.heap.read? here fresh

end Machine.Renamed

namespace Eval

variable {α β : Type} {ρ : Renaming} {world : World} {marks : List Bool}

/-- Two computations end alike, in a world that may have grown. -/
inductive EndsRenamed (ρ : Renaming) (world : World) (marks : List Bool)
    (R : World → α → α → Prop) :
    EStateM.Result Stop Machine α → EStateM.Result Stop Machine α → Prop
  | ok {a a' : α} {m m' : Machine} {more : World} (grown : world <+: more)
    (machine : m.Renamed ρ more marks m') (value : R more a a') :
    EndsRenamed ρ world marks R (.ok a m) (.ok a' m')
  | error {stop stop' : Stop} {m m' : Machine} {more : World} (grown : world <+: more)
    (machine : m.Renamed ρ more marks m') (why : stop.Renamed ρ stop') :
    EndsRenamed ρ world marks R (.error stop m) (.error stop' m')

/-- What `x` does on a machine, `y` does on the machine with the renamed heap. -/
def Renames (ρ : Renaming) (world : World) (marks : List Bool) (R : World → α → α → Prop)
    (x y : Eval α) : Prop :=
  ∀ m m' : Machine, m.Renamed ρ world marks m' → EndsRenamed ρ world marks R (x m) (y m')

variable {R : World → α → α → Prop} {S : World → β → β → Prop}

/-- The relation of results in which there is nothing to rename. -/
abbrev Same (_ : World) (a a' : α) : Prop := a' = a

/-! ## Sequencing -/

theorem EndsRenamed.of_grown {more : World} (grown : world <+: more)
    {ends ends' : EStateM.Result Stop Machine α} (same : EndsRenamed ρ more marks R ends ends') :
    EndsRenamed ρ world marks R ends ends' := by
  cases same with
  | ok later machine value => exact .ok (grown.trans later) machine value
  | error later machine why => exact .error (grown.trans later) machine why

theorem renames_pure {a a' : α} (value : R world a a') :
    Renames ρ world marks R (pure a) (pure a') :=
  fun _ _ same => .ok (List.prefix_refl _) same value

theorem renames_stop {stop stop' : Stop} (why : stop.Renamed ρ stop') :
    Renames ρ world marks R (throw stop) (throw stop') :=
  fun _ _ same => .error (List.prefix_refl _) same why

theorem renames_fail (cause : RuntimeError.Cause) (line : Nat) :
    Renames ρ world marks R (fail cause line) (fail cause line) :=
  renames_stop (.same _)

/-- The result of an operator: the same data or the same error. -/
theorem renames_orFail {result : Except RuntimeError.Cause Value} (line : Nat)
    (plain : ∀ v, result = .ok v → v.IsData) :
    Renames ρ world marks (Value.Renamed ρ) (orFail line result) (orFail line result) := by
  cases result with
  | ok v => exact renames_pure (.data (plain v rfl))
  | error cause => exact renames_fail cause line

theorem Renames.bind {x y : Eval α} {f g : α → Eval β} (first : Renames ρ world marks R x y)
    (second : ∀ more a a', world <+: more → R more a a' → Renames ρ more marks S (f a) (g a')) :
    Renames ρ world marks S (x >>= f) (y >>= g) := by
  intro m m' same
  have ends := first m m' same
  rw [bind_eq, bind_eq]
  generalize x m = here, y m' = there at ends
  cases ends with
  | ok grown machine value =>
    exact (second _ _ _ grown value _ _ machine).of_grown grown
  | error grown machine why => exact .error grown machine why

/-- The stop for a name that is not bound tells the name as it is written. -/
theorem stop_undefined (marked : Bool) (name : String) (line : Nat) :
    Stop.Renamed ρ (.error ⟨.undefinedVariable name, line⟩)
      (.error ⟨.undefinedVariable (ρ.apply marked name), line⟩) := by
  rcases Renaming.apply_cases (ρ := ρ) marked name with kept | ⟨-, old, became⟩
  · rw [kept]
    exact .same _
  · rw [became, old]
    exact .undefined line

/-! ## Operations -/

/-- Something new in the heap. -/
theorem renames_create {f g : Heap → α × Heap}
    (new : ∀ h h', h.Renamed ρ world h' → ∃ more, world <+: more ∧ R more (f h).1 (g h').1 ∧
      (f h).2.Renamed ρ more (g h').2) :
    Renames ρ world marks R (create f) (create g) := by
  intro m m' same
  obtain ⟨more, grown, value, heap⟩ := new m.heap m'.heap same.heap
  exact .ok grown (same.withHeap grown heap) value

theorem renames_lookUp (id : NodeId) {name : String} (fresh : name ≠ ρ.new) (line : Nat) :
    Renames ρ world marks (Value.Renamed ρ) (lookUp id name line)
      (lookUp id (ρ.apply (ρ.reaches marks id) name) line) := by
  intro m m' same
  have value := same.lookUp? id fresh
  unfold lookUp
  generalize m.lookUp? id name = v, m'.lookUp? id _ = v' at value
  cases value with
  | some value => exact .ok (List.prefix_refl _) same value
  | none => exact .error (List.prefix_refl _) same (stop_undefined _ name line)

theorem renames_assign (id : NodeId) {name : Name} (fresh : name.lexeme ≠ ρ.new) {v v' : Value}
    (value : v.Renamed ρ world v') :
    Renames ρ world marks Same (assign id name v)
      (assign id (name.rename ρ (ρ.reaches marks id)) v') := by
  intro m m' same
  obtain ⟨place, known⟩ := same.place? id fresh
  unfold assign
  rw [Name.lexeme_rename, place]
  cases found : m.place? id name.lexeme with
  | none => exact .error (List.prefix_refl _) same (stop_undefined _ name.lexeme name.line)
  | some frame =>
    obtain ⟨around, here, mark⟩ := known frame found
    rw [← mark]
    exact .ok (List.prefix_refl _)
      (same.withHeap (List.prefix_refl _) (same.heap.define here fresh value)) rfl

theorem renames_define {name : String} (fresh : name ≠ ρ.new) {v v' : Value}
    (value : v.Renamed ρ world v') :
    Renames ρ world marks Same (define name v) (define (ρ.apply (marks.headD false) name) v') := by
  intro m m' same
  refine .ok (List.prefix_refl _) (same.withHeap (List.prefix_refl _) ?_) rfl
  rw [same.current]
  exact same.heap.define same.here fresh value

/-- A new frame inside another one. -/
theorem allocateFrame_renamed {h h' : Heap} (same : h.Renamed ρ world h') {outer : Address}
    {marked : Bool} (around : world[outer]? = some marks) {b b' : Bindings Value}
    (bindings : b.Renamed ρ world marked b') :
    Address.Marked (marked :: marks) (world ++ [marked :: marks])
        (h.allocateFrame (some outer) b).1 (h'.allocateFrame (some outer) b').1 ∧
      (h.allocateFrame (some outer) b).2.Renamed ρ (world ++ [marked :: marks])
        (h'.allocateFrame (some outer) b').2 := by
  have grown : world <+: world ++ [marked :: marks] := List.prefix_append _ _
  have frame : Cell.Renamed ρ (world ++ [marked :: marks]) (marked :: marks)
      (.frame ⟨b, some outer⟩) (.frame ⟨b', some outer⟩) :=
    .frame ⟨rfl, .inside marked (World.getElem?_of_grown grown around),
      fun name fresh => Value.Renamed.mono? grown (bindings name fresh)⟩
  obtain ⟨address, address', heap⟩ := same.allocate frame
  exact ⟨⟨address'.trans address.symm, address ▸ List.getElem?_concat_length⟩, heap⟩

/-- A method that is bound stands inside a frame of its own. -/
theorem renames_bindMethod {method method' : Method} (code : method.Renamed ρ world method')
    {i i' : Instance} (receiver : i.Renamed ρ world i') :
    Renames ρ world marks (Closure.Renamed ρ) (create (·.bindMethod method i))
      (create (·.bindMethod method' i')) := by
  refine renames_create fun h h' same => ?_
  obtain ⟨around, found, body⟩ := code.code
  have this_ : (Bindings.empty.set "this" (.instance i)).Renamed ρ world false
      (Bindings.empty.set "this" (.instance i')) :=
    (Bindings.Renamed.empty false).set Renaming.this_ne_new (.instance receiver)
  obtain ⟨⟨address, place⟩, heap⟩ := allocateFrame_renamed same found this_
  obtain ⟨id, id', heap'⟩ := heap.allocate (.identity : Cell.Renamed ρ _ [] _ _)
  have grown : world ++ [false :: around] <+: (world ++ [false :: around]) ++ [[]] :=
    List.prefix_append _ _
  unfold Heap.bindMethod
  rw [code.frame]
  refine ⟨_, (List.prefix_append _ _).trans grown, ⟨id'.trans id.symm, address, ?_, ?_⟩, heap'⟩
  · exact congrArg (fun name : Name => name.lexeme == initializerName) body.name
  · exact ⟨_, World.getElem?_of_grown grown place, body⟩

theorem renames_bound {method? method?' : Option Method}
    (code : Option.Rel (Method.Renamed ρ world) method? method?') {i i' : Instance}
    (receiver : i.Renamed ρ world i') (property : String) (line : Nat) :
    Renames ρ world marks (Value.Renamed ρ) (bound method? i property line)
      (bound method?' i' property line) := by
  cases code with
  | none => exact renames_fail _ _
  | some code =>
    exact (renames_bindMethod code receiver).bind fun _ _ _ _ f => renames_pure (.closure f)

theorem renames_property {object object' : Value} (same : object.Renamed ρ world object')
    (name : Name) :
    Renames ρ world marks (Value.Renamed ρ) (property object name) (property object' name) := by
  cases same with
  | «instance» same =>
    intro m m' machine
    have field := machine.heap.field? same name.lexeme
    unfold property
    dsimp only
    generalize m.heap.field? _ name.lexeme = v, m'.heap.field? _ name.lexeme = v' at field
    cases field with
    | some value => exact .ok (List.prefix_refl _) machine value
    | none => exact renames_bound (same.of.method? name.lexeme) same _ _ m m' machine
  | data plain =>
    cases object with
    | nil | bool | number | string | native => exact renames_fail _ _
    | closure | «class» | «instance» => cases plain
  | closure | «class» => exact renames_fail _ _

theorem renames_setField {i i' : Instance} (object : i.Renamed ρ world i') (name : String)
    {v v' : Value} (value : v.Renamed ρ world v') :
    Renames ρ world marks Same (setField i name v) (setField i' name v') :=
  fun _ _ same => .ok (List.prefix_refl _)
    (same.withHeap (List.prefix_refl _) (same.heap.setField object name value)) rfl

theorem renames_superMethod (id : NodeId) (line : Nat) (method : String) :
    Renames ρ world marks (Value.Renamed ρ) (superMethod id line method)
      (superMethod id line method) := by
  intro m m' same
  unfold superMethod
  rw [same.current, same.table id, same.table' id]
  cases ρ.table[id]? with
  | none => exact renames_fail .superOutsideClass line m m' same
  | some distance =>
    -- No mark renames `super` or `this`, so both are found where they were.
    have above := same.heap.getAt? same.here distance Renaming.super_ne_new
    have receiver := same.heap.getAt? same.here (distance - 1) Renaming.this_ne_new
    rw [Renaming.apply_super] at above
    rw [Renaming.apply_this] at receiver
    dsimp only
    generalize m.heap.getAt? m.current distance "super" = c,
      m'.heap.getAt? m.current distance "super" = c' at above
    generalize m.heap.getAt? m.current (distance - 1) "this" = o,
      m'.heap.getAt? m.current (distance - 1) "this" = o' at receiver
    cases above with
    | none => exact renames_fail (.undefinedVariable "super") line m m' same
    | @some c c' above =>
      cases above with
      | «class» above =>
        cases receiver with
        | none => exact renames_fail (.undefinedVariable "this") line m m' same
        | @some o o' receiver =>
          cases receiver with
          | «instance» object =>
            exact renames_bound (above.method? method) object method line m m' same
          | data plain =>
            cases o with
            | nil | bool | number | string | native =>
              exact renames_fail .readsPropertyOfNonInstance line m m' same
            | closure | «class» | «instance» => cases plain
          | closure | «class» => exact renames_fail .readsPropertyOfNonInstance line m m' same
      | data plain =>
        cases c with
        | nil | bool | number | string | native =>
          exact renames_fail .superclassNotClass line m m' same
        | closure | «class» | «instance» => cases plain
      | closure | «instance» => exact renames_fail .superclassNotClass line m m' same

theorem renames_write (text : String) (line : Nat) :
    Renames ρ world marks Same (write text line) (write text line) := by
  intro m m' same
  have sink : m'.sink = m.sink := by rw [same.rest]
  unfold write
  rw [sink]
  rcases m.sink.write text with ⟨refusal, sink⟩
  cases refusal with
  | none => exact .ok (List.prefix_refl _) (same.withSink sink) rfl
  | some reason => exact .error (List.prefix_refl _) (same.withSink sink) (.same _)

theorem renames_writeAll (line : Nat) (texts : List String) :
    Renames ρ world marks Same (writeAll line texts) (writeAll line texts) := by
  induction texts generalizing world with
  | nil => exact renames_pure rfl
  | cons text texts ih => exact (renames_write text line).bind fun _ _ _ _ _ => ih

theorem renames_print {v v' : Value} (same : v.Renamed ρ world v') (line : Nat) :
    Renames ρ world marks Same (print v line) (print v' line) := by
  unfold print
  rw [same.parts]
  exact renames_writeAll line _

/-- Both clocks show the same time. -/
theorem renames_readClock (f : Native) :
    Renames ρ world marks Same (readClock f) (readClock f) := by
  intro m m' same
  have clock : m'.clock = m.clock := by rw [same.rest]
  unfold readClock
  rw [clock]
  exact .ok (List.prefix_refl _) (same.withClock (m.clock.after f)) rfl

/-! ## Frames and calls -/

theorem Renames.inFrame {x y : Eval α} {frame frame' : Address} {inner : List Bool}
    (place : Address.Marked inner world frame frame') (body : Renames ρ world inner R x y) :
    Renames ρ world marks R (inFrame frame x) (inFrame frame' y) := by
  obtain ⟨rfl, found⟩ := place
  intro m m' same
  have ends := body _ _ (same.withCurrent found)
  unfold Eval.inFrame
  dsimp only
  rw [same.current]
  generalize x _ = here, y _ = there at ends
  cases ends with
  | ok grown machine value =>
    exact .ok grown (machine.withCurrent (World.getElem?_of_grown grown same.here)) value
  | error grown machine why =>
    exact .error grown (machine.withCurrent (World.getElem?_of_grown grown same.here)) why

theorem Renames.inCall {x y : Eval α} (line : Nat) (body : Renames ρ world marks R x y) :
    Renames ρ world marks R (inCall line x) (inCall line y) := by
  intro m m' same
  have depth : m'.depth = m.depth := by rw [same.rest]
  have maxDepth : m'.maxDepth = m.maxDepth := by rw [same.rest]
  unfold Eval.inCall
  by_cases full : m.maxDepth ≤ m.depth
  · rw [if_pos full, if_pos (by rw [maxDepth, depth]; exact full)]
    exact renames_fail .stackOverflow line m m' same
  · rw [if_neg full, if_neg (by rw [maxDepth, depth]; exact full)]
    have ends := body _ _ (same.withDepth (m.depth + 1))
    dsimp only
    rw [depth]
    generalize x _ = here, y _ = there at ends
    cases ends with
    | ok grown machine value => exact .ok grown (machine.withDepth m.depth) value
    | error grown machine why => exact .error grown (machine.withDepth m.depth) why

theorem renames_newInstance {c c' : Class} (same : c.Renamed ρ world c') :
    Renames ρ world marks (Instance.Renamed ρ) (create (·.newInstance c))
      (create (·.newInstance c')) := by
  refine renames_create fun h h' heap => ?_
  have fields : Cell.Renamed ρ (world ++ [[]]) [] (.fields .empty) (.fields .empty) :=
    .fields fun _ => .none
  obtain ⟨id, id', heap⟩ := heap.allocate fields
  have grown : world <+: world ++ [[]] := List.prefix_append _ _
  exact ⟨_, grown, ⟨id'.trans id.symm, same.mono grown⟩, heap⟩

/-- A block opens a scope, which may be marked. -/
theorem renames_openBlock (marked : Bool) :
    Renames ρ world marks (Address.Marked (marked :: marks)) openBlock openBlock := by
  intro m m' same
  unfold openBlock
  rw [same.current]
  refine renames_create (fun h h' heap => ?_) m m' same
  have opened := allocateFrame_renamed heap same.here (Bindings.Renamed.empty marked)
  exact ⟨_, List.prefix_append _ _, opened⟩

/-- The frame of a call has the mark of the scope of the function, in which its parameters are
renamed. -/
theorem renames_enterFunction {id frame : Address} {isInitializer : Bool} {name : Name}
    {params : List Name} {body body' : List Stmt} {around : List Bool} (marked : Bool)
    (fresh : ∀ param ∈ params, param.lexeme ≠ ρ.new) (found : world[frame]? = some around)
    {arguments arguments' : List Value}
    (given : List.Forall₂ (Value.Renamed ρ world) arguments arguments') :
    Renames ρ world marks (Address.Marked (marked :: around))
      (enterFunction ⟨id, .mk name params body, frame, isInitializer⟩ arguments)
      (enterFunction ⟨id, .mk name (params.map (Name.rename ρ marked)) body', frame, isInitializer⟩
        arguments') := by
  unfold enterFunction
  refine renames_create fun h h' heap => ?_
  have opened := allocateFrame_renamed heap found
    ((Bindings.Renamed.empty marked).parameters fresh given)
  exact ⟨_, List.prefix_append _ _, opened⟩

theorem renames_result {f f' : Closure} (same : f.Renamed ρ world f') (line : Nat)
    {completion completion' : Completion} (ended : completion.Renamed ρ world completion') :
    Renames ρ world marks (Value.Renamed ρ) (result f line completion)
      (result f' line completion') := by
  intro m m' machine
  obtain ⟨around, found, -⟩ := same.code
  have receiver := machine.heap.read? found Renaming.this_ne_new
  rw [Renaming.apply_this] at receiver
  unfold result
  rw [same.isInitializer, same.frame]
  cases f.isInitializer with
  | true =>
    rw [if_pos rfl, if_pos rfl]
    generalize m.heap.read? f.frame "this" = v, m'.heap.read? f.frame "this" = v' at receiver
    cases receiver with
    | none => exact renames_fail (.undefinedVariable "this") line m m' machine
    | some value => exact .ok (List.prefix_refl _) machine value
  | false =>
    cases ended with
    | normal => exact .ok (List.prefix_refl _) machine (.data trivial)
    | returned value => exact .ok (List.prefix_refl _) machine value

theorem renames_checkCall {v v' : Value} (same : v.Renamed ρ world v') (count line : Nat) :
    Renames ρ world marks Same (checkCall v count line) (checkCall v' count line) := by
  unfold checkCall
  rw [same.arity?]
  cases v.arity? with
  | none => exact renames_fail _ _
  | some arity =>
    dsimp only
    by_cases right : count = arity
    · rw [if_pos right]
      exact renames_pure rfl
    · rw [if_neg right]
      exact renames_fail _ _

/-! ## Declarations -/

/-- The class above, and with it the marks around the methods of the class. -/
theorem renames_superclass? {parent : Option Superclass}
    (fresh : ∀ a ∈ Superclass.accessesOf? parent, a.name ≠ ρ.new) :
    Renames ρ world marks
      (fun world c c' => Option.Rel (Class.Renamed ρ world) c c' ∧
        classMarks c marks = classMarks parent marks)
      (superclass? parent) (superclass? (parent.map (Superclass.rename ρ marks))) := by
  cases parent with
  | none => exact renames_pure ⟨.none, rfl⟩
  | some above =>
    refine (renames_lookUp above.id (fresh _ List.mem_cons_self) above.name.line).bind
      fun more v v' _ value => ?_
    cases value with
    | «class» same => exact renames_pure ⟨.some same, rfl⟩
    | data plain =>
      cases v with
      | nil | bool | number | string | native => exact renames_fail _ _
      | closure | «class» | «instance» => cases plain
    | closure | «instance» => exact renames_fail _ _

theorem renames_methodFrame {parent parent' : Option Class}
    (same : Option.Rel (Class.Renamed ρ world) parent parent') :
    Renames ρ world marks (Address.Marked (classMarks parent marks)) (methodFrame parent)
      (methodFrame parent') := by
  intro m m' machine
  cases same with
  | none => exact .ok (List.prefix_refl _) machine ⟨machine.current, machine.here⟩
  | @some c c' same =>
    have super_ : (Bindings.empty.set "super" (.class c)).Renamed ρ world false
        (Bindings.empty.set "super" (.class c')) :=
      (Bindings.Renamed.empty false).set Renaming.super_ne_new (.class same)
    unfold methodFrame
    dsimp only
    rw [machine.current]
    refine renames_create (fun h h' heap => ?_) m m' machine
    exact ⟨_, List.prefix_append _ _, allocateFrame_renamed heap machine.here super_⟩

theorem renames_newClass (name : String) {parent parent' : Option Class}
    (above : Option.Rel (Class.Renamed ρ world) parent parent') {frame frame' : Address}
    {around : List Bool} (place : Address.Marked around world frame frame')
    {methods methods' : List FunctionDecl}
    (code : FunctionDecl.AllRenamed ρ (false :: around) methods methods') :
    Renames ρ world marks (Class.Renamed ρ) (create (·.newClass name parent frame methods))
      (create (·.newClass name parent' frame' methods')) := by
  obtain ⟨rfl, found⟩ := place
  refine renames_create fun h h' heap => ?_
  obtain ⟨id, id', heap⟩ := heap.allocate (.identity : Cell.Renamed ρ _ [] _ _)
  have grown : world <+: world ++ [[]] := List.prefix_append _ _
  have found := World.getElem?_of_grown grown found
  refine ⟨_, grown, ?_, heap⟩
  unfold Heap.newClass
  dsimp only
  rw [id, id']
  cases above with
  | none => exact .base around found code
  | some above => exact .derived around found code (above.mono grown)

theorem renames_declareClass {name : Name} (other : name.lexeme ≠ ρ.new)
    (kept : ρ.apply (marks.headD false) name.lexeme = name.lexeme) {parent : Option Superclass}
    (fresh : ∀ a ∈ Superclass.accessesOf? parent, a.name ≠ ρ.new)
    {methods methods' : List FunctionDecl}
    (code : FunctionDecl.AllRenamed ρ (false :: classMarks parent marks) methods methods') :
    Renames ρ world marks Same (declareClass name parent methods)
      (declareClass name (parent.map (Superclass.rename ρ marks)) methods') := by
  refine (renames_superclass? fresh).bind fun more c c' _ ⟨above, around⟩ => ?_
  rw [← around] at code
  refine (renames_methodFrame above).bind fun more frame frame' grown place => ?_
  have above : Option.Rel (Class.Renamed ρ more) c c' := by
    cases above with
    | none => exact .none
    | some same => exact .some (same.mono grown)
  refine (renames_newClass name.lexeme above place code).bind fun more c c' _ same => ?_
  have defined : Renames ρ more marks Same (define name.lexeme (.class c))
      (define (ρ.apply (marks.headD false) name.lexeme) (.class c')) :=
    renames_define other (.class same)
  rwa [kept] at defined

theorem renames_declareFunction {f f' : FunctionDecl} (other : f.name.lexeme ≠ ρ.new)
    (kept : ρ.apply (marks.headD false) f.name.lexeme = f.name.lexeme)
    (code : f.Renamed ρ marks f') :
    Renames ρ world marks Same (declareFunction f) (declareFunction f') := by
  intro m m' same
  unfold declareFunction
  rw [same.current, code.name]
  refine Renames.bind (R := Closure.Renamed ρ) (renames_create fun h h' heap => ?_)
    (fun more g g' _ made => ?_) m m' same
  · obtain ⟨id, id', heap⟩ := heap.allocate (.identity : Cell.Renamed ρ _ [] _ _)
    have grown : world <+: world ++ [[]] := List.prefix_append _ _
    exact ⟨_, grown, ⟨id'.trans id.symm, rfl, rfl,
      _, World.getElem?_of_grown grown same.here, code⟩, heap⟩
  · have defined : Renames ρ more marks Same (define f.name.lexeme (.closure g))
        (define (ρ.apply (marks.headD false) f.name.lexeme) (.closure g')) :=
      renames_define other (.closure made)
    rwa [kept] at defined

end Eval

end Lox
