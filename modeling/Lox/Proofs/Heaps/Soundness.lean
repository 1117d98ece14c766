import Lox.Proofs.Forest
import Lox.Proofs.Origin.Values
import Lox.Proofs.Scoping.Dispatch

/-!
# Sound heaps

A value refers to cells of the heap: a function to itself and the frame around it, a class and an
instance also to what the classes above refer to. In a sound heap every cell that is referred to has
been taken, and is of the kind that it is referred to as.

Values may well refer to each other in circles, since a frame holds functions around which it lies.
What goes one way only are the links: a frame lies inside an older frame, a class is younger than its
superclass, and a frame that binds `super` binds it to a class that is older than the frame. A cell
keeps its kind and a frame its link, and a new cell is younger than all others. So each operation on
the heap keeps it sound as long as the values that are put into it are.
-/

set_option autoImplicit false

namespace Lox

/-! ## Kinds of cells -/

/-- What a cell is for. -/
inductive Cell.Kind where
  | frame
  | fields
  | identity
  deriving DecidableEq

/-- The kind of a cell. -/
def Cell.kind : Cell → Cell.Kind
  | .frame _ => .frame
  | .fields _ => .fields
  | .identity => .identity

namespace Heap

/-- The kind of the cell at an address, if it has been taken. -/
def kind? (h : Heap) (a : Address) : Option Cell.Kind :=
  h.cells[a]?.map Cell.kind

/-- Whether all cells of a heap are in another one, and of the same kind. -/
def Keeps (h h' : Heap) : Prop :=
  ∀ a kind, h.kind? a = some kind → h'.kind? a = some kind

/-- Whether a heap keeps all cells of another one, and has so many new ones. -/
structure Gains (h : Heap) (n : Nat) (h' : Heap) : Prop where
  keeps : h.Keeps h'
  size : h'.cells.size = h.cells.size + n

variable {h h₁ h₂ : Heap} {a b : Address}

theorem lt_size_of_kind? {kind : Cell.Kind} (found : h.kind? a = some kind) :
    a < h.cells.size := by
  obtain ⟨cell, here, -⟩ := Option.map_eq_some_iff.mp found
  exact (Array.getElem?_eq_some_iff.mp here).1

theorem kind?_eq_none (new : h.cells.size ≤ a) : h.kind? a = none := by
  rw [kind?, Array.getElem?_eq_none new, Option.map_none]

theorem kind?_allocate (h : Heap) (cell : Cell) (a : Address) :
    (h.allocate cell).2.kind? a = if a = h.cells.size then some cell.kind else h.kind? a := by
  rw [kind?, cells_allocate]
  split <;> rfl

theorem kind?_define (h : Heap) (a b : Address) (name : String) (value : Value) :
    (h.define a name value).kind? b = h.kind? b := by
  rw [kind?, kind?, cells_define]
  split
  · cases h.cells[b]? with
    | none => rfl
    | some cell => cases cell <;> rfl
  · rfl

theorem kind?_setField (h : Heap) (i : Instance) (name : String) (value : Value) (b : Address) :
    (h.setField i name value).kind? b = h.kind? b := by
  rw [kind?, kind?, cells_setField]
  split
  · cases h.cells[b]? with
    | none => rfl
    | some cell => cases cell <;> rfl
  · rfl

theorem Keeps.refl (h : Heap) : h.Keeps h := fun _ _ found => found

theorem Keeps.trans (first : h.Keeps h₁) (second : h₁.Keeps h₂) : h.Keeps h₂ :=
  fun a kind found => second a kind (first a kind found)

namespace Gains

variable {n n' : Nat}

theorem refl (h : Heap) : h.Gains 0 h := ⟨.refl h, rfl⟩

theorem trans (first : h.Gains n h₁) (second : h₁.Gains n' h₂) : h.Gains (n + n') h₂ :=
  ⟨first.keeps.trans second.keeps, by rw [second.size, first.size, Nat.add_assoc]⟩

theorem allocate (h : Heap) (cell : Cell) : h.Gains 1 (h.allocate cell).2 where
  keeps a kind found := by
    rw [kind?_allocate, if_neg (Nat.ne_of_lt (lt_size_of_kind? found)), found]
  size := Array.size_push cell

theorem bindMethod (h : Heap) (method : Method) (i : Instance) :
    h.Gains 2 (h.bindMethod method i).2 :=
  (allocate h _).trans (allocate _ .identity)

theorem define (h : Heap) (a : Address) (name : String) (value : Value) :
    h.Gains 0 (h.define a name value) :=
  ⟨fun b _ found => (kind?_define h a b name value).trans found, Array.size_modify⟩

theorem setField (h : Heap) (i : Instance) (name : String) (value : Value) :
    h.Gains 0 (h.setField i name value) :=
  ⟨fun b _ found => (kind?_setField h i name value b).trans found, Array.size_modify⟩

end Gains

/-- A new cell is of the kind that it was taken as. -/
theorem kind?_size (h : Heap) (cell : Cell) :
    (h.allocate cell).2.kind? h.cells.size = some cell.kind := by
  rw [kind?_allocate, if_pos rfl]

end Heap

/-! ## What values refer to -/

/-- The addresses that a class and those above it refer to, each as a kind of cell: their own, and
those of the frames around their methods. -/
def Class.references (c : Class) : List (Address × Cell.Kind) :=
  c.lineage.flatMap fun c => [(c.id, .identity), (c.frame, .frame)]

/-- Whether each class, from a class upwards, is younger than its superclass. -/
def Class.Descends (c : Class) : Prop :=
  ∀ c' ∈ c.lineage, ∀ above, c'.parent = some above → above.id < c'.id

namespace Value

/-- The addresses that a value refers to, each as a kind of cell. -/
def references : Value → List (Address × Cell.Kind)
  | .nil | .bool _ | .number _ | .string _ => []
  | .native f => [(f.id, .identity)]
  | .closure f => [(f.id, .identity), (f.frame, .frame)]
  | .class c => c.references
  | .instance i => (i.id, .fields) :: i.of.references

/-- Whether a value refers to an address. -/
def RefersTo (value : Value) (a : Address) : Prop :=
  ∃ kind, (a, kind) ∈ value.references

/-- Whether all that a value refers to has been taken in a heap, and as what it is referred to. -/
def Denotes (h : Heap) (value : Value) : Prop :=
  ∀ a kind, (a, kind) ∈ value.references → h.kind? a = some kind

/-- The class that a value is or is an instance of. -/
def class? : Value → Option Class
  | .class c => some c
  | .instance i => some i.of
  | .nil | .bool _ | .number _ | .string _ | .native _ | .closure _ => none

/-- Whether a value may be found in a heap: what it refers to is there, its classes go back to ever
older ones, and its code is that of the sources. -/
structure Sound (o : Origin) (h : Heap) (value : Value) : Prop where
  denotes : value.Denotes h
  descends : ∀ c ∈ value.class?, c.Descends
  code : value.From o

end Value

namespace Class

variable {c above : Class}

theorem lineage_of_parent (inherits : c.parent = some above) : c.lineage = c :: above.lineage := by
  match c, inherits with
  | ⟨_, _, some _, _, _⟩, rfl => rfl

theorem lineage_of_root (root : c.parent = none) : c.lineage = [c] := by
  match c, root with
  | ⟨_, _, none, _, _⟩, rfl => rfl

theorem mem_lineage (c : Class) : c ∈ c.lineage := by
  cases parent : c.parent with
  | none => exact lineage_of_root parent ▸ List.mem_cons_self
  | some above => exact lineage_of_parent parent ▸ List.mem_cons_self

theorem id_mem_references (c : Class) : (c.id, .identity) ∈ c.references :=
  List.mem_flatMap.mpr ⟨c, c.mem_lineage, List.mem_cons_self⟩

/-- The frame around a method that a class finds is referred to by the class. -/
theorem frame_mem_references {name : String} {method : Method}
    (found : c.method? name = some method) : (method.frame, .frame) ∈ c.references := by
  rw [method?_eq] at found
  obtain ⟨owner, member, own⟩ := List.exists_of_findSome?_eq_some found
  obtain ⟨declaration, -, rfl⟩ := Option.map_eq_some_iff.mp own
  exact List.mem_flatMap.mpr ⟨owner, member, List.mem_cons_of_mem _ List.mem_cons_self⟩

theorem references_of_parent (inherits : c.parent = some above) :
    c.references = [(c.id, .identity), (c.frame, .frame)] ++ above.references := by
  rw [references, lineage_of_parent inherits, List.flatMap_cons, ← references]

theorem references_of_root (root : c.parent = none) :
    c.references = [(c.id, .identity), (c.frame, .frame)] := by
  rw [references, lineage_of_root root, List.flatMap_singleton]

theorem Descends.up (descends : c.Descends) (inherits : c.parent = some above) :
    above.Descends :=
  fun c' member => descends c' (lineage_of_parent inherits ▸ List.mem_cons_of_mem _ member)

/-- In a lineage the classes are ever older, so it has at most as many as there are addresses up to
that of the class. -/
theorem length_lineage_le (c : Class) (descends : c.Descends) : c.lineage.length ≤ c.id + 1 := by
  match c, descends with
  | ⟨id, name, none, frame, methods⟩, _ =>
    rw [lineage_of_root rfl, List.length_singleton]
    exact Nat.succ_le_succ (Nat.zero_le id)
  | ⟨id, name, some above, frame, methods⟩, descends =>
    have older : above.id < id := descends _ (mem_lineage _) above rfl
    have rest := length_lineage_le above (descends.up rfl)
    rw [lineage_of_parent rfl, List.length_cons]
    exact Nat.succ_le_succ (Nat.le_trans rest older)

end Class

namespace Value

variable {o : Origin} {h h' : Heap}

theorem Sound.mono {value : Value} (sound : value.Sound o h) (keeps : h.Keeps h') :
    value.Sound o h' :=
  ⟨fun a kind refers => keeps a kind (sound.denotes a kind refers), sound.descends, sound.code⟩

theorem sound_of_isPlain {value : Value} (plain : value.IsPlain) : value.Sound o h := by
  cases value with
  | nil | bool | number | string => exact ⟨fun _ _ => nofun, nofun, trivial⟩
  | native | closure | «class» | «instance» => cases plain

theorem sound_closure {f : Closure} (id : h.kind? f.id = some .identity)
    (frame : h.kind? f.frame = some .frame) (code : f.declaration.From o) :
    (closure f).Sound o h where
  denotes a kind refers := by
    rcases List.mem_cons.mp refers with same | refers
    · cases same
      exact id
    · cases List.mem_singleton.mp refers
      exact frame
  descends := nofun
  code := code

theorem sound_instance {i : Instance} (id : h.kind? i.id = some .fields)
    (of : (Value.class i.of).Sound o h) : (Value.instance i).Sound o h where
  denotes a kind refers := by
    rcases List.mem_cons.mp refers with same | refers
    · cases same
      exact id
    · exact of.denotes a kind refers
  descends := of.descends
  code := of.code

theorem Sound.of {i : Instance} (sound : (Value.instance i).Sound o h) :
    (Value.class i.of).Sound o h :=
  ⟨fun a kind refers => sound.denotes a kind (List.mem_cons_of_mem _ refers), sound.descends,
    sound.code⟩

/-- A class is sound if it is younger than its superclass, which is. -/
theorem sound_class {c : Class} (id : h.kind? c.id = some .identity)
    (frame : h.kind? c.frame = some .frame) (code : c.From o)
    (parent : ∀ above ∈ c.parent, (Value.class above).Sound o h ∧ above.id < c.id) :
    (Value.class c).Sound o h := by
  have own (a : Address) (kind : Cell.Kind)
      (refers : (a, kind) ∈ [(c.id, .identity), (c.frame, .frame)]) : h.kind? a = some kind := by
    rcases List.mem_cons.mp refers with same | refers
    · cases same
      exact id
    · cases List.mem_singleton.mp refers
      exact frame
  -- What is referred to and what is inherited are told along the same lineage, so both go by parents.
  cases inherits : c.parent with
  | none =>
    refine ⟨fun a kind refers => own a kind ?_, ?_, code⟩
    · exact Class.references_of_root inherits ▸ refers
    · rintro _ ⟨⟩ c' member above up
      rw [Class.lineage_of_root inherits] at member
      obtain rfl := List.mem_singleton.mp member
      cases inherits.symm.trans up
  | some above =>
    obtain ⟨sound, older⟩ := parent above inherits
    refine ⟨fun a kind refers => ?_, ?_, code⟩
    · have refers' : (a, kind) ∈ c.references := refers
      rw [Class.references_of_parent inherits] at refers'
      exact (List.mem_append.mp refers').elim (own a kind) (sound.denotes a kind)
    · rintro _ ⟨⟩ c' member above' up
      rw [Class.lineage_of_parent inherits] at member
      rcases List.mem_cons.mp member with rfl | further
      · obtain rfl := Option.some.inj (inherits.symm.trans up)
        exact older
      · exact sound.descends above rfl c' further above' up

/-- The address of a class that was found in a heap has been taken. -/
theorem Sound.id_lt {c : Class} (sound : (Value.class c).Sound o h) : c.id < h.cells.size :=
  Heap.lt_size_of_kind? (sound.denotes c.id .identity c.id_mem_references)

end Value

/-! ## Sound heaps -/

section

variable (o : Origin) (h : Heap) (a : Address)

/-- Whether a frame may have an address: it lies inside an older frame, what it binds to `super` is an
older class, and all that it binds may be found in the heap. -/
structure Frame.Sound (f : Frame) : Prop where
  links : ∀ outer, f.enclosing = some outer → outer < a ∧ h.kind? outer = some .frame
  supers : ∀ value, f.bindings.find? "super" = some value → ∃ c, value = .class c ∧ c.id < a
  holds : ∀ name value, f.bindings.find? name = some value → value.Sound o h

/-- Whether a cell may have an address. -/
def Cell.Sound : Cell → Prop
  | .frame f => f.Sound o h a
  | .fields b => ∀ name value, b.find? name = some value → value.Sound o h
  | .identity => True

/-- Whether all cells of a heap may have their addresses. -/
def Heap.Sound : Prop :=
  ∀ (a : Address) (cell : Cell), h.cells[a]? = some cell → cell.Sound o h a

end

variable {o : Origin} {h h' : Heap} {a : Address}

theorem Cell.Sound.mono {cell : Cell} (sound : cell.Sound o h a) (keeps : h.Keeps h') :
    cell.Sound o h' a := by
  cases cell with
  | frame f =>
    exact ⟨fun outer link => (sound.links outer link).imp id (keeps outer .frame),
      sound.supers, fun name value found => (sound.holds name value found).mono keeps⟩
  | fields b => exact fun name value found => (sound name value found).mono keeps
  | identity => trivial

namespace Heap.Sound

theorem frame (sound : h.Sound o) {f : Frame} (found : h.frame? a = some f) : f.Sound o h a :=
  sound a _ (Heap.frame?_eq_some.mp found)

theorem all (sound : h.Sound o) : h.All (Value.Sound o h) := by
  intro a cell found
  have here := sound a cell found
  cases cell with
  | frame f => exact here.holds
  | fields b => exact here
  | identity => trivial

theorem linked (sound : h.Sound o) : h.Linked := by
  intro a outer link
  obtain ⟨f, found, same⟩ := Option.bind_eq_some_iff.mp link
  exact ((sound.frame found).links outer same).1

theorem kind?_enclosing (sound : h.Sound o) {outer : Address}
    (link : h.enclosing? a = some outer) : h.kind? outer = some .frame := by
  obtain ⟨f, found, same⟩ := Option.bind_eq_some_iff.mp link
  exact ((sound.frame found).links outer same).2

theorem supers (sound : h.Sound o) {value : Value} (bound : h.read? a "super" = some value) :
    ∃ c, value = .class c ∧ c.id < a := by
  obtain ⟨f, found, holds⟩ := Option.bind_eq_some_iff.mp bound
  exact (sound.frame found).supers value holds

theorem allocate (sound : h.Sound o) {cell : Cell} (new : cell.Sound o h h.cells.size) :
    (h.allocate cell).2.Sound o := by
  have keeps := (Heap.Gains.allocate h cell).keeps
  intro a cell' found
  rw [Heap.cells_allocate] at found
  split at found
  · next here =>
    obtain rfl := Option.some.inj found
    exact here ▸ new.mono keeps
  · exact (sound a cell' found).mono keeps

/-- A definition puts a value of the heap into a frame, and `super` is no name that is defined. -/
theorem define (sound : h.Sound o) (a : Address) {name : String} (spared : Spared name)
    {value : Value} (new : value.Sound o h) : (h.define a name value).Sound o := by
  have keeps := (Heap.Gains.define h a name value).keeps
  intro b cell found
  rw [Heap.cells_define] at found
  split at found
  · obtain ⟨cell', here, rfl⟩ := Option.map_eq_some_iff.mp found
    have before := sound b cell' here
    -- The new value is known from the heap before, which all cells are compared with first.
    refine Cell.Sound.mono ?_ keeps
    cases cell' with
    | frame f =>
      refine ⟨before.links, fun value' bound => before.supers value' ?_,
        Bindings.forall_set before.holds new⟩
      have other : ("super" == name) = false := beq_false_of_ne spared.2.symm
      rw [Bindings.find?_set, other, if_neg Bool.false_ne_true] at bound
      exact bound
    | fields b => exact before
    | identity => trivial
  · exact (sound b cell found).mono keeps

theorem setField (sound : h.Sound o) (i : Instance) (name : String) {value : Value}
    (new : value.Sound o h) : (h.setField i name value).Sound o := by
  have keeps := (Heap.Gains.setField h i name value).keeps
  intro b cell found
  rw [Heap.cells_setField] at found
  split at found
  · obtain ⟨cell', here, rfl⟩ := Option.map_eq_some_iff.mp found
    have before := sound b cell' here
    refine Cell.Sound.mono ?_ keeps
    cases cell' with
    | frame f => exact before
    | fields b => exact Bindings.forall_set before new
    | identity => trivial
  · exact (sound b cell found).mono keeps

end Heap.Sound

/-- The frame in which a method is bound may come next. -/
theorem Frame.sound_receiver {method : Method} (frame : h.kind? method.frame = some .frame)
    {i : Instance} (receiver : (Value.instance i).Sound o h) :
    Frame.Sound o h h.cells.size ⟨Bindings.empty.set "this" (.instance i), some method.frame⟩ where
  links := by
    rintro outer ⟨⟩
    exact ⟨Heap.lt_size_of_kind? frame, frame⟩
  supers := nofun
  holds := Bindings.forall_single receiver

/-- The frame around the methods of a class may come next. -/
theorem Frame.sound_superclass {around : Address} (frame : h.kind? around = some .frame)
    {c : Class} (sound : (Value.class c).Sound o h) :
    Frame.Sound o h h.cells.size ⟨Bindings.empty.set "super" (.class c), some around⟩ where
  links := by
    rintro outer ⟨⟩
    exact ⟨Heap.lt_size_of_kind? frame, frame⟩
  supers := by
    rintro value ⟨⟩
    exact ⟨c, rfl, sound.id_lt⟩
  holds := Bindings.forall_single sound

/-- Parameters are identifiers, so none of them is `super`. -/
theorem Bindings.find?_parameters {key : String} (params : List Name) (arguments : List Value)
    (other : ∀ param ∈ params, param.lexeme ≠ key) (bindings : Bindings Value) :
    ((params.zip arguments).foldl (fun bindings (param, argument) =>
      bindings.set param.lexeme argument) bindings).find? key = bindings.find? key := by
  induction params generalizing arguments bindings with
  | nil => rfl
  | cons param params ih =>
    obtain ⟨first, rest⟩ := List.forall_mem_cons.mp other
    cases arguments with
    | nil => rfl
    | cons argument arguments =>
      have here : (key == param.lexeme) = false := beq_false_of_ne first.symm
      rw [List.zip_cons_cons, List.foldl_cons, ih arguments rest, find?_set, here,
        if_neg Bool.false_ne_true]

/-- The frame of a call may come next. -/
theorem Frame.sound_call {f : Closure} (sound : (Value.closure f).Sound o h)
    {arguments : List Value} (given : ∀ value ∈ arguments, value.Sound o h) :
    Frame.Sound o h h.cells.size
      ⟨(f.declaration.params.zip arguments).foldl (fun bindings (param, argument) =>
        bindings.set param.lexeme argument) .empty, some f.frame⟩ where
  links := by
    rintro outer ⟨⟩
    have frame : h.kind? f.frame = some .frame :=
      sound.denotes _ _ (List.mem_cons_of_mem _ List.mem_cons_self)
    exact ⟨Heap.lt_size_of_kind? frame, frame⟩
  supers value bound := by
    have code : f.declaration.From o := sound.code
    rw [Bindings.find?_parameters f.declaration.params arguments
      fun param member => (code.params param member).isIdentifier.spared.2] at bound
    cases bound
  holds := Bindings.forall_parameters f.declaration.params arguments given .empty nofun

/-- The frame of a block may come next. -/
theorem Frame.sound_block {around : Address} (frame : h.kind? around = some .frame) :
    Frame.Sound o h h.cells.size ⟨.empty, some around⟩ where
  links := by
    rintro outer ⟨⟩
    exact ⟨Heap.lt_size_of_kind? frame, frame⟩
  supers := nofun
  holds := nofun

end Lox
