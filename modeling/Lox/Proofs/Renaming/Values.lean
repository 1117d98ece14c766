import Mathlib.Data.List.Forall2
import Mathlib.Data.Option.Defs
import Lox.Proofs.Growth
import Lox.Proofs.Operations
import Lox.Proofs.Renaming.Trees

/-!
# Renamed values and heaps

Two runs, one of a program and one of the program renamed, hold the same heap but for the code in
it and for the names in the frames of marked scopes. A *world* says which scopes a frame stands for:
for each address the marks around it, the frame's own first. Frames are never relinked, so a world
only grows, and what is related in one world stays so in each that extends it.
-/

set_option autoImplicit false

namespace Lox

/-- For each address the marks of the frame there and of those around it; none where there is no
frame. -/
abbrev World := List (List Bool)

/-! ## Values -/

/-- Code stands in the frame at an address, as far as the world goes. -/
def FunctionDecl.RenamedAt (ρ : Renaming) (world : World) (frame : Address)
    (f f' : FunctionDecl) : Prop :=
  ∃ marks, world[frame]? = some marks ∧ f.Renamed ρ marks f'

structure Closure.Renamed (ρ : Renaming) (world : World) (f f' : Closure) : Prop where
  id : f'.id = f.id
  frame : f'.frame = f.frame
  isInitializer : f'.isInitializer = f.isInitializer
  code : f.declaration.RenamedAt ρ world f.frame f'.declaration

/-- A class and what becomes of it. Around a method is the frame that binds `this`. -/
inductive Class.Renamed (ρ : Renaming) (world : World) : Class → Class → Prop
  | base {id : Address} {name : String} {frame : Address} {methods methods' : List FunctionDecl}
    (marks : List Bool) (around : world[frame]? = some marks)
    (code : FunctionDecl.AllRenamed ρ (false :: marks) methods methods') :
    Class.Renamed ρ world ⟨id, name, none, frame, methods⟩ ⟨id, name, none, frame, methods'⟩
  | derived {id : Address} {name : String} {above above' : Class} {frame : Address}
    {methods methods' : List FunctionDecl} (marks : List Bool) (around : world[frame]? = some marks)
    (code : FunctionDecl.AllRenamed ρ (false :: marks) methods methods')
    (parent : Class.Renamed ρ world above above') :
    Class.Renamed ρ world ⟨id, name, some above, frame, methods⟩
      ⟨id, name, some above', frame, methods'⟩

structure Instance.Renamed (ρ : Renaming) (world : World) (i i' : Instance) : Prop where
  id : i'.id = i.id
  of : i.of.Renamed ρ world i'.of

/-- A value and what it is in the run of the renamed program. -/
inductive Value.Renamed (ρ : Renaming) (world : World) : Value → Value → Prop
  | data {v : Value} (plain : v.IsData) : Value.Renamed ρ world v v
  | closure {f f' : Closure} (same : f.Renamed ρ world f') :
    Value.Renamed ρ world (.closure f) (.closure f')
  | class {c c' : Class} (same : c.Renamed ρ world c') :
    Value.Renamed ρ world (.class c) (.class c')
  | instance {i i' : Instance} (same : i.Renamed ρ world i') :
    Value.Renamed ρ world (.instance i) (.instance i')

structure Method.Renamed (ρ : Renaming) (world : World) (method method' : Method) : Prop where
  frame : method'.frame = method.frame
  code : ∃ marks, world[method.frame]? = some marks ∧
    method.declaration.Renamed ρ (false :: marks) method'.declaration

/-! ## Heaps -/

/-- What a frame with a mark binds, and what it binds in the other run. -/
def Bindings.Renamed (ρ : Renaming) (world : World) (marked : Bool) (b b' : Bindings Value) :
    Prop :=
  ∀ name, name ≠ ρ.new →
    Option.Rel (Value.Renamed ρ world) (b.find? name) (b'.find? (ρ.apply marked name))

/-- The marks of a frame: its own before those of the frame around it. The globals have none. -/
inductive World.Links (world : World) : List Bool → Option Address → Prop
  | outermost : World.Links world [] none
  | inside (marked : Bool) {marks : List Bool} {outer : Address}
    (around : world[outer]? = some marks) : World.Links world (marked :: marks) (some outer)

structure Frame.Renamed (ρ : Renaming) (world : World) (marks : List Bool) (f f' : Frame) :
    Prop where
  enclosing : f'.enclosing = f.enclosing
  links : World.Links world marks f.enclosing
  bindings : f.bindings.Renamed ρ world (marks.headD false) f'.bindings

inductive Cell.Renamed (ρ : Renaming) (world : World) : List Bool → Cell → Cell → Prop
  | frame {marks : List Bool} {f f' : Frame} (same : f.Renamed ρ world marks f') :
    Cell.Renamed ρ world marks (.frame f) (.frame f')
  | fields {b b' : Bindings Value}
    (same : ∀ name, Option.Rel (Value.Renamed ρ world) (b.find? name) (b'.find? name)) :
    Cell.Renamed ρ world [] (.fields b) (.fields b')
  | identity : Cell.Renamed ρ world [] .identity .identity

structure Heap.Renamed (ρ : Renaming) (world : World) (h h' : Heap) : Prop where
  size : h.cells.size = world.length
  size' : h'.cells.size = world.length
  cells : ∀ (a : Address) (marks : List Bool), world[a]? = some marks →
    ∃ cell cell', h.cells[a]? = some cell ∧ h'.cells[a]? = some cell' ∧
      cell.Renamed ρ world marks cell'

section

variable {ρ : Renaming} {world : World}

/-! ## Worlds that extend each other -/

section

variable {more : World} (grown : world <+: more)
include grown

theorem World.getElem?_of_grown {a : Address} {marks : List Bool}
    (found : world[a]? = some marks) : more[a]? = some marks := by
  obtain ⟨later, rfl⟩ := grown
  rw [List.getElem?_append_left (List.getElem?_eq_some_iff.mp found).1]
  exact found

theorem FunctionDecl.RenamedAt.mono {frame : Address} {f f' : FunctionDecl}
    (same : f.RenamedAt ρ world frame f') : f.RenamedAt ρ more frame f' := by
  obtain ⟨marks, around, code⟩ := same
  exact ⟨marks, World.getElem?_of_grown grown around, code⟩

theorem Closure.Renamed.mono {f f' : Closure} (same : f.Renamed ρ world f') :
    f.Renamed ρ more f' :=
  ⟨same.id, same.frame, same.isInitializer, same.code.mono grown⟩

theorem Class.Renamed.mono {c c' : Class} (same : c.Renamed ρ world c') :
    c.Renamed ρ more c' := by
  induction same with
  | base marks around code => exact .base marks (World.getElem?_of_grown grown around) code
  | derived marks around code _ ih =>
    exact .derived marks (World.getElem?_of_grown grown around) code ih

theorem Instance.Renamed.mono {i i' : Instance} (same : i.Renamed ρ world i') :
    i.Renamed ρ more i' :=
  ⟨same.id, same.of.mono grown⟩

theorem Value.Renamed.mono {v v' : Value} (same : v.Renamed ρ world v') :
    v.Renamed ρ more v' := by
  cases same with
  | data plain => exact .data plain
  | closure same => exact .closure (same.mono grown)
  | «class» same => exact .class (same.mono grown)
  | «instance» same => exact .instance (same.mono grown)

theorem Value.Renamed.mono? {v v' : Option Value} (same : Option.Rel (Value.Renamed ρ world) v v') :
    Option.Rel (Value.Renamed ρ more) v v' := by
  cases same with
  | some same => exact .some (same.mono grown)
  | none => exact .none

theorem World.Links.mono {marks : List Bool} {enclosing : Option Address}
    (links : World.Links world marks enclosing) : World.Links more marks enclosing := by
  cases links with
  | outermost => exact .outermost
  | inside marked around => exact .inside marked (World.getElem?_of_grown grown around)

theorem Cell.Renamed.mono {marks : List Bool} {cell cell' : Cell}
    (same : cell.Renamed ρ world marks cell') : cell.Renamed ρ more marks cell' := by
  cases same with
  | frame same =>
    exact .frame ⟨same.enclosing, same.links.mono grown,
      fun name fresh => Value.Renamed.mono? grown (same.bindings name fresh)⟩
  | fields same => exact .fields fun name => Value.Renamed.mono? grown (same name)
  | identity => exact .identity

end

/-! ## What is read off values -/

namespace Class

theorem Renamed.id {c c' : Class} (same : c.Renamed ρ world c') : c'.id = c.id := by
  cases same <;> rfl

theorem Renamed.name {c c' : Class} (same : c.Renamed ρ world c') : c'.name = c.name := by
  cases same <;> rfl

theorem lastNamed?_cons (f : FunctionDecl) (fs : List FunctionDecl) (name : String) :
    lastNamed? (f :: fs) name
      = (lastNamed? fs name).or (if f.name.lexeme == name then some f else none) := by
  unfold lastNamed?
  rw [List.reverse_cons, List.find?_append, List.find?_cons, List.find?_nil]
  cases f.name.lexeme == name <;> rfl

theorem lastNamed?_renamed {marks : List Bool} {fs fs' : List FunctionDecl}
    (code : FunctionDecl.AllRenamed ρ marks fs fs') (name : String) :
    Option.Rel (FunctionDecl.Renamed ρ marks) (lastNamed? fs name) (lastNamed? fs' name) := by
  induction fs generalizing fs' with
  | nil =>
    cases code with
    | nil => exact .none
  | cons f fs ih =>
    cases code with
    | @cons _ _ _ _ fs' first rest =>
      rw [lastNamed?_cons, lastNamed?_cons, first.name]
      have later := ih rest
      generalize lastNamed? fs name = found, lastNamed? fs' name = found' at later
      cases later with
      | some same => exact .some same
      | none =>
        rw [Option.none_or, Option.none_or]
        split
        · exact .some first
        · exact .none

/-- A method is found in the class in which it was found before. -/
theorem Renamed.method? {c c' : Class} (same : c.Renamed ρ world c') (name : String) :
    Option.Rel (Method.Renamed ρ world) (c.method? name) (c'.method? name) := by
  induction same with
  | @base id _ frame methods methods' marks around code =>
    have own := lastNamed?_renamed code name
    unfold Class.method?
    generalize lastNamed? methods name = found, lastNamed? methods' name = found' at own
    cases own with
    | none => exact .none
    | some own => exact .some ⟨rfl, marks, around, own⟩
  | @derived id _ above above' frame methods methods' marks around code _ ih =>
    have own := lastNamed?_renamed code name
    unfold Class.method?
    generalize lastNamed? methods name = found, lastNamed? methods' name = found' at own
    cases own with
    | none => exact ih
    | some own => exact .some ⟨rfl, marks, around, own⟩

theorem Renamed.arity {c c' : Class} (same : c.Renamed ρ world c') : c'.arity = c.arity := by
  have init := same.method? initializerName
  unfold Class.arity
  generalize c.method? initializerName = method, c'.method? initializerName = method' at init
  cases init with
  | none => rfl
  | some init =>
    obtain ⟨_, _, code⟩ := init.code
    exact code.arity

end Class

namespace Value.Renamed

variable {v v' w w' : Value}

theorem isTruthy (same : v.Renamed ρ world v') : v'.isTruthy = v.isTruthy := by
  cases same <;> rfl

theorem arity? (same : v.Renamed ρ world v') : v'.arity? = v.arity? := by
  cases same with
  | data => rfl
  | closure same =>
    obtain ⟨_, _, code⟩ := same.code
    exact congrArg some code.arity
  | «class» same => exact congrArg some same.arity
  | «instance» => rfl

theorem parts (same : v.Renamed ρ world v') : v'.parts = v.parts := by
  cases same with
  | data => rfl
  | closure same =>
    obtain ⟨_, _, code⟩ := same.code
    exact congrArg (fun name : Name => ["<fn ", name.lexeme, ">"]) code.name
  | «class» same => exact congrArg (fun name => [name]) same.name
  | «instance» same => exact congrArg (fun name => ["<", name, " instance>"]) same.of.name

theorem printed (same : v.Renamed ρ world v') : v'.printed = v.printed := by
  have joined := congrArg String.join same.parts
  cases same with
  | data => rfl
  | closure | «class» | «instance» => exact joined

theorem equals (same : v.Renamed ρ world v') (same' : w.Renamed ρ world w') :
    v'.equals w' = v.equals w := by
  cases same with
  | data plain =>
    cases same' with
    | data => rfl
    | closure | «class» | «instance» => cases v <;> first | rfl | cases plain
  | closure same =>
    cases same' with
    | closure same' =>
      show (_ == _) = (_ == _)
      rw [same.id, same'.id]
    | data plain => cases w <;> first | rfl | cases plain
    | «class» | «instance» => rfl
  | «class» same =>
    cases same' with
    | «class» same' =>
      show (_ == _) = (_ == _)
      rw [same.id, same'.id]
    | data plain => cases w <;> first | rfl | cases plain
    | closure | «instance» => rfl
  | «instance» same =>
    cases same' with
    | «instance» same' =>
      show (_ == _) = (_ == _)
      rw [same.id, same'.id]
    | data plain => cases w <;> first | rfl | cases plain
    | closure | «class» => rfl

end Value.Renamed

/-! ## Operators

What an operator gives is data, so it is the same in both runs. -/

theorem UnaryOp.apply_renamed (op : UnaryOp) {v v' : Value} (same : v.Renamed ρ world v') :
    op.apply v' = op.apply v := by
  cases op with
  | not =>
    show Except.ok (Value.bool !v'.isTruthy) = Except.ok (Value.bool !v.isTruthy)
    rw [same.isTruthy]
  | negate => cases same <;> rfl

theorem BinaryOp.applyNumbers_renamed (op : BinaryOp) {v v' w w' : Value}
    (same : v.Renamed ρ world v') (same' : w.Renamed ρ world w')
    (f : Float → Float → Value) : op.applyNumbers v' w' f = op.applyNumbers v w f := by
  cases same with
  | data =>
    cases same' with
    | data => rfl
    | closure | «class» | «instance» => cases v <;> rfl
  | closure | «class» | «instance» =>
    cases same' with
    | data => cases w <;> rfl
    | closure | «class» | «instance» => rfl

theorem BinaryOp.apply_renamed (op : BinaryOp) {v v' w w' : Value}
    (same : v.Renamed ρ world v') (same' : w.Renamed ρ world w') :
    op.apply v' w' = op.apply v w := by
  cases op with
  | equal =>
    show Except.ok (Value.bool (v'.equals w')) = Except.ok (Value.bool (v.equals w))
    rw [same.equals same']
  | notEqual =>
    show Except.ok (Value.bool !v'.equals w') = Except.ok (Value.bool !v.equals w)
    rw [same.equals same']
  | add =>
    cases same with
    | data =>
      cases same' with
      | data => rfl
      | closure | «class» | «instance» => cases v <;> rfl
    | closure | «class» | «instance» =>
      cases same' with
      | data => cases w <;> rfl
      | closure | «class» | «instance» => rfl
  | subtract | multiply | divide | less | lessEqual | greater | greaterEqual =>
    exact BinaryOp.applyNumbers_renamed _ same same' _

theorem LogicalOp.stopsAt_renamed (op : LogicalOp) {v v' : Value}
    (same : v.Renamed ρ world v') : op.stopsAt v' = op.stopsAt v := by
  cases op <;> simp only [stopsAt, same.isTruthy]

theorem Native.call_renamed (f : Native) (reading : Float) {arguments arguments' : List Value}
    (given : List.Forall₂ (Value.Renamed ρ world) arguments arguments') :
    (∃ v v', f.call reading arguments = .ok v ∧ f.call reading arguments' = .ok v' ∧
      v.Renamed ρ world v') ∨
    ∃ cause, f.call reading arguments = .error cause ∧ f.call reading arguments' = .error cause := by
  unfold Native.call
  cases f.action with
  | clock => exact .inl ⟨_, _, rfl, rfl, .data trivial⟩
  | first =>
    cases given with
    | nil => exact .inl ⟨_, _, rfl, rfl, .data trivial⟩
    | cons first rest => exact .inl ⟨_, _, rfl, rfl, first⟩
  | count =>
    refine .inl ⟨_, _, rfl, ?_, .data trivial⟩
    rw [given.length_eq]
  | refuse =>
    have texts : arguments'.map Value.printed = arguments.map Value.printed := by
      induction given with
      | nil => rfl
      | cons first rest ih => rw [List.map_cons, List.map_cons, first.printed, ih]
    refine .inr ⟨_, rfl, ?_⟩
    dsimp only
    rw [texts]

/-! ## Bindings -/

theorem Bindings.Renamed.empty (marked : Bool) :
    Bindings.Renamed ρ world marked Bindings.empty Bindings.empty :=
  fun _ _ => .none

/-- Data is bound to the same names where nothing is renamed. -/
theorem Bindings.Renamed.of_data {b : Bindings Value}
    (plain : ∀ name v, b.find? name = some v → v.IsData) : b.Renamed ρ world false b := by
  intro name _
  rw [Renaming.apply_false]
  cases found : b.find? name with
  | none => exact .none
  | some v => exact .some (.data (plain name v found))

theorem Bindings.Renamed.set {marked : Bool} {b b' : Bindings Value}
    (same : b.Renamed ρ world marked b') {name : String} (fresh : name ≠ ρ.new) {v v' : Value}
    (value : v.Renamed ρ world v') :
    (b.set name v).Renamed ρ world marked (b'.set (ρ.apply marked name) v') := by
  intro key fresh'
  rw [Bindings.find?_set, Bindings.find?_set, Renaming.apply_beq marked fresh fresh']
  cases key == name with
  | true => exact .some value
  | false => exact same key fresh'

theorem Bindings.Renamed.binds {marked : Bool} {b b' : Bindings Value}
    (same : b.Renamed ρ world marked b') {name : String} (fresh : name ≠ ρ.new) :
    b'.binds (ρ.apply marked name) = b.binds name := by
  have bound := same name fresh
  unfold Bindings.binds
  generalize b.find? name = v, b'.find? (ρ.apply marked name) = v' at bound
  cases bound <;> rfl

theorem Bindings.Renamed.parameters {marked : Bool} {params : List Name}
    (fresh : ∀ param ∈ params, param.lexeme ≠ ρ.new) {arguments arguments' : List Value}
    (given : List.Forall₂ (Value.Renamed ρ world) arguments arguments') {b b' : Bindings Value}
    (same : b.Renamed ρ world marked b') :
    ((params.zip arguments).foldl
        (fun bindings (param, argument) => bindings.set param.lexeme argument) b).Renamed ρ world
      marked (((params.map (Name.rename ρ marked)).zip arguments').foldl
        (fun bindings (param, argument) => bindings.set param.lexeme argument) b') := by
  induction params generalizing arguments arguments' b b' with
  | nil => exact same
  | cons param params ih =>
    obtain ⟨first, rest⟩ := List.forall_mem_cons.mp fresh
    cases given with
    | nil => exact same
    | cons value values => exact ih rest values (same.set first value)

/-! ## Looking up -/

theorem headD_drop (marks : List Bool) (distance : Nat) :
    (marks.drop distance).headD false = marks.getD distance false := by
  rw [List.headD_eq_head?_getD, List.head?_drop, List.getD_eq_getElem?_getD]

theorem Heap.eq_ancestor_of_ownerAt? {h : Heap} {a frame : Address} {distance : Nat} {name : String}
    (found : h.ownerAt? a distance name = some frame) : h.ancestor a distance = frame := by
  unfold ownerAt? at found
  dsimp only at found
  split at found
  · exact Option.some.inj found
  · cases found

namespace Heap.Renamed

variable {h h' : Heap} {a : Address} {marks : List Bool}

theorem frame?_cases (same : h.Renamed ρ world h') (found : world[a]? = some marks) :
    (∃ f f', h.frame? a = some f ∧ h'.frame? a = some f' ∧ f.Renamed ρ world marks f') ∨
    (h.frame? a = none ∧ h'.frame? a = none ∧ marks = []) := by
  obtain ⟨cell, cell', here, here', cells⟩ := same.cells a marks found
  unfold Heap.frame?
  rw [here, here']
  cases cells with
  | frame frames => exact .inl ⟨_, _, rfl, rfl, frames⟩
  | fields | identity => exact .inr ⟨rfl, rfl, rfl⟩

/-- The frame around another has the marks around that one's own. -/
theorem enclosing?_cases (same : h.Renamed ρ world h') (found : world[a]? = some marks) :
    (∃ outer marked rest, h.enclosing? a = some outer ∧ h'.enclosing? a = some outer ∧
      marks = marked :: rest ∧ world[outer]? = some rest) ∨
    (h.enclosing? a = none ∧ h'.enclosing? a = none ∧ marks = []) := by
  unfold Heap.enclosing?
  rcases same.frame?_cases found with ⟨f, f', here, here', frames⟩ | ⟨here, here', outside⟩
  · rw [here, here', Option.bind_some, Option.bind_some, frames.enclosing]
    have links := frames.links
    generalize f.enclosing = enclosing at links
    cases links with
    | outermost => exact .inr ⟨rfl, rfl, rfl⟩
    | inside marked around => exact .inl ⟨_, marked, _, rfl, rfl, rfl, around⟩
  · rw [here, here']
    exact .inr ⟨rfl, rfl, outside⟩

/-- A number of links outwards the marks begin so many later. -/
theorem ancestor (same : h.Renamed ρ world h') (found : world[a]? = some marks) (distance : Nat) :
    h'.ancestor a distance = h.ancestor a distance ∧
      world[h.ancestor a distance]? = some (marks.drop distance) := by
  induction distance generalizing a marks with
  | zero => exact ⟨rfl, found⟩
  | succ distance ih =>
    unfold Heap.ancestor
    rcases same.enclosing?_cases found with
      ⟨outer, marked, rest, link, link', rfl, around⟩ | ⟨link, link', rfl⟩
    · rw [link, link']
      exact ih around
    · rw [link, link']
      exact ⟨rfl, found⟩

theorem read? (same : h.Renamed ρ world h') (found : world[a]? = some marks) {name : String}
    (fresh : name ≠ ρ.new) :
    Option.Rel (Value.Renamed ρ world) (h.read? a name)
      (h'.read? a (ρ.apply (marks.headD false) name)) := by
  unfold Heap.read?
  rcases same.frame?_cases found with ⟨f, f', here, here', frames⟩ | ⟨here, here', -⟩
  · rw [here, here']
    exact frames.bindings name fresh
  · rw [here, here']
    exact .none

theorem binds (same : h.Renamed ρ world h') (found : world[a]? = some marks) {name : String}
    (fresh : name ≠ ρ.new) :
    h'.binds a (ρ.apply (marks.headD false) name) = h.binds a name := by
  unfold Heap.binds
  rcases same.frame?_cases found with ⟨f, f', here, here', frames⟩ | ⟨here, here', -⟩
  · rw [here, here']
    exact frames.bindings.binds fresh
  · rw [here, here']

/-- A use leads to the same frame in both runs. -/
theorem ownerAt? (same : h.Renamed ρ world h') (found : world[a]? = some marks) (distance : Nat)
    {name : String} (fresh : name ≠ ρ.new) :
    h'.ownerAt? a distance (ρ.apply (marks.getD distance false) name)
      = h.ownerAt? a distance name := by
  obtain ⟨outer, around⟩ := same.ancestor found distance
  have bound := same.binds around fresh
  rw [headD_drop] at bound
  unfold Heap.ownerAt?
  dsimp only
  rw [outer, bound]

theorem getAt? (same : h.Renamed ρ world h') (found : world[a]? = some marks) (distance : Nat)
    {name : String} (fresh : name ≠ ρ.new) :
    Option.Rel (Value.Renamed ρ world) (h.getAt? a distance name)
      (h'.getAt? a distance (ρ.apply (marks.getD distance false) name)) := by
  unfold Heap.getAt?
  rw [same.ownerAt? found distance fresh]
  cases place : h.ownerAt? a distance name with
  | none => exact .none
  | some frame =>
    obtain ⟨-, around⟩ := same.ancestor found distance
    have value := same.read? around fresh
    rw [headD_drop] at value
    exact eq_ancestor_of_ownerAt? place ▸ value

/-- Nothing lies around the globals, so a name that is looked up there is theirs. -/
theorem owner? (same : h.Renamed ρ world h') (root : world[a]? = some []) {name : String}
    (fresh : name ≠ ρ.new) :
    h.owner? a name = (if h.binds a name then some a else none) ∧
      h'.owner? a name = h.owner? a name := by
  have bound := same.binds root fresh
  unfold Heap.owner? ownerWithin
  rcases same.enclosing?_cases root with ⟨_, _, _, _, _, impossible, _⟩ | ⟨link, link', -⟩
  · cases impossible
  · rw [link, link']
    exact ⟨rfl, congrArg (if · = true then some a else none) bound⟩

theorem field? (same : h.Renamed ρ world h') {i i' : Instance} (object : i.Renamed ρ world i')
    (name : String) :
    Option.Rel (Value.Renamed ρ world) (h.field? i name) (h'.field? i' name) := by
  unfold Heap.field? Heap.fields?
  rw [object.id]
  cases found : world[i.id]? with
  | none =>
    have beyond := List.getElem?_eq_none_iff.mp found
    rw [Array.getElem?_eq_none (same.size ▸ beyond), Array.getElem?_eq_none (same.size' ▸ beyond)]
    exact .none
  | some marks =>
    obtain ⟨cell, cell', here, here', cells⟩ := same.cells i.id marks found
    rw [here, here']
    cases cells with
    | fields fields => exact fields name
    | frame | identity => exact .none

/-! ## Changes -/

/-- A change to one cell, made in both runs. -/
theorem modify (same : h.Renamed ρ world h') {f f' : Cell → Cell}
    (kept : ∀ marks cell cell', world[a]? = some marks → cell.Renamed ρ world marks cell' →
      (f cell).Renamed ρ world marks (f' cell')) :
    Heap.Renamed ρ world ⟨h.cells.modify a f⟩ ⟨h'.cells.modify a f'⟩ := by
  refine ⟨Array.size_modify.trans same.size, Array.size_modify.trans same.size', ?_⟩
  intro b marks found
  obtain ⟨cell, cell', here, here', cells⟩ := same.cells b marks found
  rw [Array.getElem?_modify, Array.getElem?_modify, here, here']
  by_cases there : a = b
  · rw [if_pos there, if_pos there]
    exact ⟨_, _, rfl, rfl, kept marks cell cell' (there ▸ found) cells⟩
  · rw [if_neg there, if_neg there]
    exact ⟨_, _, rfl, rfl, cells⟩

theorem define (same : h.Renamed ρ world h') (found : world[a]? = some marks) {name : String}
    (fresh : name ≠ ρ.new) {v v' : Value} (value : v.Renamed ρ world v') :
    (h.define a name v).Renamed ρ world
      (h'.define a (ρ.apply (marks.headD false) name) v') := by
  refine same.modify fun marks' cell cell' here cells => ?_
  obtain rfl : marks = marks' := Option.some.inj (found.symm.trans here)
  cases cells with
  | frame frames =>
    exact .frame ⟨frames.enclosing, frames.links, frames.bindings.set fresh value⟩
  | fields fields => exact .fields fields
  | identity => exact .identity

theorem setField (same : h.Renamed ρ world h') {i i' : Instance} (object : i.Renamed ρ world i')
    (name : String) {v v' : Value} (value : v.Renamed ρ world v') :
    (h.setField i name v).Renamed ρ world (h'.setField i' name v') := by
  unfold Heap.setField
  rw [object.id]
  refine same.modify fun marks cell cell' _ cells => ?_
  cases cells with
  | frame frames => exact .frame frames
  | fields fields =>
    refine .fields fun key => ?_
    rw [Bindings.find?_set, Bindings.find?_set]
    cases key == name with
    | true => exact .some value
    | false => exact fields key
  | identity => exact .identity

/-- What is new in the heap takes the next place in the world. -/
theorem allocate (same : h.Renamed ρ world h') {cell cell' : Cell}
    (new : cell.Renamed ρ (world ++ [marks]) marks cell') :
    (h.allocate cell).1 = world.length ∧ (h'.allocate cell').1 = world.length ∧
      (h.allocate cell).2.Renamed ρ (world ++ [marks]) (h'.allocate cell').2 := by
  have size : (world ++ [marks]).length = world.length + 1 := List.length_append
  refine ⟨same.size, same.size', ?_, ?_, ?_⟩
  · exact (Array.size_push _).trans ((congrArg (· + 1) same.size).trans size.symm)
  · exact (Array.size_push _).trans ((congrArg (· + 1) same.size').trans size.symm)
  · intro b marks' found
    rw [cells_allocate, cells_allocate, same.size, same.size']
    by_cases last : b = world.length
    · rw [if_pos last, if_pos last]
      rw [last, List.getElem?_concat_length] at found
      exact ⟨_, _, rfl, rfl, Option.some.inj found ▸ new⟩
    · rw [if_neg last, if_neg last]
      have old : b < world.length := by
        have bound := (List.getElem?_eq_some_iff.mp found).1
        rw [size] at bound
        exact Nat.lt_of_le_of_ne (Nat.le_of_lt_succ bound) last
      rw [List.getElem?_append_left old] at found
      obtain ⟨c, c', here, here', cells⟩ := same.cells b marks' found
      exact ⟨c, c', here, here', cells.mono (List.prefix_append _ _)⟩

end Heap.Renamed

end

end Lox
