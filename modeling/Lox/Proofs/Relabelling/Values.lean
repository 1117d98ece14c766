import Lox.Proofs.Growth
import Lox.Proofs.Operations
import Lox.Proofs.Relabelling.Trees

/-!
# Relabelled values and heaps

The code in values and heaps is relabelled with all other code. Nothing that is looked up in a heap,
printed or computed depends on its ids and lines, so all these operations commute with `relabel`.
The ids that do occur are kept track of: code is *within* some ids if it has no others.
-/

set_option autoImplicit false

namespace Lox

variable (ρ : Relabelling)

/-! ## Relabelling -/

def Closure.relabel (f : Closure) : Closure :=
  { f with declaration := f.declaration.relabel ρ }

def Class.relabel : Class → Class
  | ⟨id, name, parent, frame, methods⟩ =>
    ⟨id, name,
      match parent with
      | some above => some above.relabel
      | none => none,
      frame, methods.map (FunctionDecl.relabel ρ)⟩

def Method.relabel (method : Method) : Method :=
  { method with declaration := method.declaration.relabel ρ }

def Instance.relabel (i : Instance) : Instance :=
  { i with of := i.of.relabel ρ }

def Value.relabel : Value → Value
  | .closure f => .closure (f.relabel ρ)
  | .class c => .class (c.relabel ρ)
  | .instance i => .instance (i.relabel ρ)
  | .nil => .nil
  | .bool b => .bool b
  | .number x => .number x
  | .string s => .string s
  | .native f => .native f

/-- The same names, bound to what `f` makes of their values. -/
def Bindings.map {α β : Type} (f : α → β) (b : Bindings α) : Bindings β :=
  ⟨b.entries.map fun entry => (entry.1, f entry.2)⟩

def Frame.relabel (frame : Frame) : Frame :=
  { frame with bindings := frame.bindings.map (Value.relabel ρ) }

def Cell.relabel : Cell → Cell
  | .frame f => .frame (f.relabel ρ)
  | .fields b => .fields (b.map (Value.relabel ρ))
  | .identity => .identity

def Heap.relabel (h : Heap) : Heap :=
  ⟨h.cells.map (Cell.relabel ρ)⟩

/-! ## The ids in code -/

section

variable (ids : NodeId → Prop)

def Expr.Within (e : Expr) : Prop :=
  ∀ a ∈ e.accesses, ids a.id

def Stmt.Within (s : Stmt) : Prop :=
  ∀ a ∈ s.accesses, ids a.id

def FunctionDecl.Within (f : FunctionDecl) : Prop :=
  ∀ a ∈ f.accesses, ids a.id

def Class.Within : Class → Prop
  | ⟨_, _, parent, _, methods⟩ =>
    (∀ f ∈ methods, f.Within ids) ∧
      match parent with
      | some above => above.Within
      | none => True

def Value.Within : Value → Prop
  | .closure f => f.declaration.Within ids
  | .class c => c.Within ids
  | .instance i => i.of.Within ids
  | .nil | .bool _ | .number _ | .string _ | .native _ => True

def Cell.Within : Cell → Prop
  | .frame f => ∀ name value, f.bindings.find? name = some value → value.Within ids
  | .fields b => ∀ name value, b.find? name = some value → value.Within ids
  | .identity => True

def Heap.Within (h : Heap) : Prop :=
  ∀ (a : Address) (cell : Cell), h.cells[a]? = some cell → cell.Within ids

end

section

variable {ρ} {ids : NodeId → Prop}

/-! ## Lists of code -/

theorem Expr.within_of_all {es : List Expr} (within : ∀ a ∈ Expr.accessesOfAll es, ids a.id) :
    ∀ e ∈ es, e.Within ids := by
  induction es with
  | nil => exact fun _ member => absurd member List.not_mem_nil
  | cons e es ih =>
    obtain ⟨first, rest⟩ := List.forall_mem_append.mp within
    exact List.forall_mem_cons.mpr ⟨first, ih rest⟩

theorem Stmt.within_of_all {ss : List Stmt} (within : ∀ a ∈ Stmt.accessesOfAll ss, ids a.id) :
    ∀ s ∈ ss, s.Within ids := by
  induction ss with
  | nil => exact fun _ member => absurd member List.not_mem_nil
  | cons s ss ih =>
    obtain ⟨first, rest⟩ := List.forall_mem_append.mp within
    exact List.forall_mem_cons.mpr ⟨first, ih rest⟩

theorem FunctionDecl.within_of_all {fs : List FunctionDecl}
    (within : ∀ a ∈ FunctionDecl.accessesOfAll fs, ids a.id) : ∀ f ∈ fs, f.Within ids := by
  induction fs with
  | nil => exact fun _ member => absurd member List.not_mem_nil
  | cons f fs ih =>
    obtain ⟨first, rest⟩ := List.forall_mem_append.mp within
    exact List.forall_mem_cons.mpr ⟨first, ih rest⟩

theorem FunctionDecl.Within.body {f : FunctionDecl} (within : f.Within ids) :
    ∀ s ∈ f.body, s.Within ids := by
  cases f with
  | mk name params body => exact Stmt.within_of_all within

/-! ## Values -/

theorem Class.relabel_mk (id : Address) (name : String) (parent : Option Class) (frame : Address)
    (methods : List FunctionDecl) :
    (Class.mk id name parent frame methods).relabel ρ
      = ⟨id, name, parent.map (Class.relabel ρ), frame, methods.map (FunctionDecl.relabel ρ)⟩ := by
  cases parent <;> rfl

@[simp]
theorem Class.name_relabel (c : Class) : (c.relabel ρ).name = c.name := by
  obtain ⟨id, name, parent, frame, methods⟩ := c
  rw [Class.relabel_mk]

theorem Class.lastNamed?_map (methods : List FunctionDecl) (name : String) :
    Class.lastNamed? (methods.map (FunctionDecl.relabel ρ)) name
      = (Class.lastNamed? methods name).map (FunctionDecl.relabel ρ) := by
  unfold Class.lastNamed?
  rw [← List.map_reverse, List.find?_map]
  congr 2
  funext f
  simp

theorem Class.method?_relabel (c : Class) (name : String) :
    (c.relabel ρ).method? name = (c.method? name).map (Method.relabel ρ) := by
  match c with
  | ⟨id, className, none, frame, methods⟩ =>
    rw [Class.relabel_mk, Option.map_none, Class.method?, Class.method?, Class.lastNamed?_map]
    cases Class.lastNamed? methods name <;> rfl
  | ⟨id, className, some above, frame, methods⟩ =>
    rw [Class.relabel_mk, Option.map_some, Class.method?, Class.method?, Class.lastNamed?_map]
    cases Class.lastNamed? methods name with
    | some declaration => rfl
    | none => exact Class.method?_relabel above name

theorem Class.arity_relabel (c : Class) : (c.relabel ρ).arity = c.arity := by
  unfold Class.arity
  rw [Class.method?_relabel]
  cases c.method? initializerName with
  | none => rfl
  | some method => simp [Method.relabel]

namespace Value

@[simp]
theorem isTruthy_relabel (v : Value) : (v.relabel ρ).isTruthy = v.isTruthy := by
  cases v <;> rfl

@[simp]
theorem equals_relabel (v w : Value) : (v.relabel ρ).equals (w.relabel ρ) = v.equals w := by
  have class_ : ∀ c : Class, (c.relabel ρ).id = c.id := by
    rintro ⟨id, name, parent, frame, methods⟩
    rw [Class.relabel_mk]
  cases v <;> cases w <;> simp [relabel, equals, Closure.relabel, Instance.relabel, class_]

@[simp]
theorem arity?_relabel (v : Value) : (v.relabel ρ).arity? = v.arity? := by
  cases v with
  | closure f => simp [relabel, arity?, Closure.relabel]
  | «class» c => simp [relabel, arity?, Class.arity_relabel]
  | nil | bool | number | string | native | «instance» => rfl

@[simp]
theorem parts_relabel (v : Value) : (v.relabel ρ).parts = v.parts := by
  cases v with
  | bool b => cases b <;> rfl
  | closure f => simp [relabel, parts, Closure.relabel]
  | «class» c => simp [relabel, parts]
  | «instance» i => simp [relabel, parts, Instance.relabel]
  | nil | number | string | native => rfl

@[simp]
theorem printed_relabel (v : Value) : (v.relabel ρ).printed = v.printed := by
  have joined := congrArg String.join (parts_relabel (ρ := ρ) v)
  cases v with
  | number x => rfl
  | nil | bool | string | native | closure | «class» | «instance» => exact joined

@[simp]
theorem relabel_ofLiteral (l : Literal) : (ofLiteral l).relabel ρ = ofLiteral l := by
  cases l <;> rfl

theorem within_of_isData {v : Value} (data : v.IsData) : v.Within ids := by
  cases v with
  | nil | bool | number | string | native => trivial
  | closure | «class» | «instance» => cases data

end Value

/-! ## Operators -/

theorem UnaryOp.apply_relabel (op : UnaryOp) (v : Value) :
    op.apply (v.relabel ρ) = (op.apply v).map (Value.relabel ρ) := by
  cases op <;> cases v <;> rfl

theorem BinaryOp.applyNumbers_relabel (op : BinaryOp) (v w : Value) (f : Float → Float → Value)
    (plain : ∀ x y, (f x y).relabel ρ = f x y) :
    op.applyNumbers (v.relabel ρ) (w.relabel ρ) f
      = (op.applyNumbers v w f).map (Value.relabel ρ) := by
  cases v with
  | number x =>
    cases w with
    | number y => exact congrArg Except.ok (plain x y).symm
    | nil | bool | string | native | closure | «class» | «instance» => rfl
  | nil | bool | string | native | closure | «class» | «instance» => cases w <;> rfl

theorem BinaryOp.apply_relabel (op : BinaryOp) (v w : Value) :
    op.apply (v.relabel ρ) (w.relabel ρ) = (op.apply v w).map (Value.relabel ρ) := by
  cases op with
  | equal =>
    show Except.ok (Value.bool _) = Except.ok (Value.bool _)
    rw [Value.equals_relabel]
  | notEqual =>
    show Except.ok (Value.bool !_) = Except.ok (Value.bool !_)
    rw [Value.equals_relabel]
  | add => cases v <;> cases w <;> rfl
  | subtract | multiply | divide | less | lessEqual | greater | greaterEqual =>
    exact BinaryOp.applyNumbers_relabel _ v w _ fun _ _ => rfl

theorem LogicalOp.stopsAt_relabel (op : LogicalOp) (v : Value) :
    op.stopsAt (v.relabel ρ) = op.stopsAt v := by
  cases op <;> simp [stopsAt]

theorem Native.call_relabel (f : Native) (reading : Float) (arguments : List Value) :
    f.call reading (arguments.map (Value.relabel ρ))
      = (f.call reading arguments).map (Value.relabel ρ) := by
  unfold Native.call
  cases f.action with
  | clock => rfl
  | first => cases arguments <;> rfl
  | count => simp [Except.map, Value.relabel]
  | refuse =>
    simp only [List.map_map, Except.map]
    congr 4
    funext v
    exact Value.printed_relabel v

/-! ## Bindings -/

namespace Bindings

variable {α β : Type}

@[simp]
theorem find?_map (f : α → β) (b : Bindings α) (name : String) :
    (b.map f).find? name = (b.find? name).map f := by
  unfold find? map
  induction b.entries with
  | nil => rfl
  | cons entry rest ih =>
    rw [List.map_cons, List.lookup_cons, List.lookup_cons, ih]
    cases name == entry.1 <;> rfl

@[simp]
theorem binds_map (f : α → β) (b : Bindings α) (name : String) :
    (b.map f).binds name = b.binds name := by
  simp [binds]

theorem map_put (f : α → β) (name : String) (value : α) (entries : List (String × α)) :
    (put name value entries).map (fun entry => (entry.1, f entry.2))
      = put name (f value) (entries.map fun entry => (entry.1, f entry.2)) := by
  induction entries with
  | nil => rfl
  | cons entry rest ih =>
    rw [put, List.map_cons, put]
    split <;> simp [ih]

@[simp]
theorem map_set (f : α → β) (b : Bindings α) (name : String) (value : α) :
    (b.set name value).map f = (b.map f).set name (f value) := by
  unfold set map
  rw [map_put]

@[simp]
theorem map_empty (f : α → β) : (empty : Bindings α).map f = empty := rfl

end Bindings

/-! ## The heap -/

namespace Heap

theorem getElem?_relabel (h : Heap) (a : Address) :
    (h.relabel ρ).cells[a]? = (h.cells[a]?).map (Cell.relabel ρ) := by
  simp [relabel]

@[simp]
theorem frame?_relabel (h : Heap) (a : Address) :
    (h.relabel ρ).frame? a = (h.frame? a).map (Frame.relabel ρ) := by
  unfold frame?
  rw [getElem?_relabel]
  cases h.cells[a]? with
  | none => rfl
  | some cell => cases cell <;> rfl

@[simp]
theorem enclosing?_relabel (h : Heap) (a : Address) :
    (h.relabel ρ).enclosing? a = h.enclosing? a := by
  unfold enclosing?
  rw [frame?_relabel]
  cases h.frame? a <;> rfl

@[simp]
theorem binds_relabel (h : Heap) (a : Address) (name : String) :
    (h.relabel ρ).binds a name = h.binds a name := by
  unfold binds
  rw [frame?_relabel]
  cases h.frame? a with
  | none => rfl
  | some frame => exact Bindings.binds_map _ _ _

@[simp]
theorem read?_relabel (h : Heap) (a : Address) (name : String) :
    (h.relabel ρ).read? a name = (h.read? a name).map (Value.relabel ρ) := by
  unfold read?
  rw [frame?_relabel]
  cases h.frame? a with
  | none => rfl
  | some frame => exact Bindings.find?_map _ _ _

@[simp]
theorem ancestor_relabel (h : Heap) (a : Address) (distance : Nat) :
    (h.relabel ρ).ancestor a distance = h.ancestor a distance := by
  induction distance generalizing a with
  | zero => rfl
  | succ distance ih =>
    rw [ancestor, ancestor, enclosing?_relabel]
    cases h.enclosing? a with
    | none => rfl
    | some outer => exact ih outer

@[simp]
theorem ownerAt?_relabel (h : Heap) (a : Address) (distance : Nat) (name : String) :
    (h.relabel ρ).ownerAt? a distance name = h.ownerAt? a distance name := by
  simp [ownerAt?]

theorem ownerWithin_relabel (h : Heap) (name : String) (n : Nat) (a : Address) :
    (h.relabel ρ).ownerWithin name n a = h.ownerWithin name n a := by
  induction n generalizing a with
  | zero => rfl
  | succ n ih =>
    rw [ownerWithin, ownerWithin, binds_relabel, enclosing?_relabel]
    cases h.enclosing? a with
    | none => rfl
    | some outer => simp only [ih outer]

@[simp]
theorem owner?_relabel (h : Heap) (a : Address) (name : String) :
    (h.relabel ρ).owner? a name = h.owner? a name :=
  ownerWithin_relabel h name _ a

@[simp]
theorem getAt?_relabel (h : Heap) (a : Address) (distance : Nat) (name : String) :
    (h.relabel ρ).getAt? a distance name = (h.getAt? a distance name).map (Value.relabel ρ) := by
  unfold getAt?
  rw [ownerAt?_relabel]
  cases h.ownerAt? a distance name with
  | none => rfl
  | some frame => exact read?_relabel h frame name

@[simp]
theorem field?_relabel (h : Heap) (i : Instance) (name : String) :
    (h.relabel ρ).field? (i.relabel ρ) name = (h.field? i name).map (Value.relabel ρ) := by
  have fields : (h.relabel ρ).fields? i.id
      = (h.fields? i.id).map (Bindings.map (Value.relabel ρ)) := by
    unfold fields?
    rw [getElem?_relabel]
    cases h.cells[i.id]? with
    | none => rfl
    | some cell => cases cell <;> rfl
  unfold field?
  show ((h.relabel ρ).fields? i.id).bind _ = _
  rw [fields]
  cases h.fields? i.id with
  | none => rfl
  | some b => exact Bindings.find?_map _ _ _

theorem relabel_allocate (h : Heap) (cell : Cell) :
    (h.relabel ρ).allocate (cell.relabel ρ)
      = ((h.allocate cell).1, (h.allocate cell).2.relabel ρ) := by
  simp [allocate, relabel]

theorem modify_relabel (h : Heap) (a : Address) (f g : Cell → Cell)
    (same : ∀ cell, g (cell.relabel ρ) = (f cell).relabel ρ) :
    (h.relabel ρ).cells.modify a g = (h.cells.modify a f).map (Cell.relabel ρ) := by
  apply Array.ext_getElem?
  intro b
  rw [Array.getElem?_modify, Array.getElem?_map, Array.getElem?_modify, getElem?_relabel]
  by_cases here : a = b
  · rw [if_pos here, if_pos here]
    cases h.cells[b]? with
    | none => rfl
    | some cell => exact congrArg some (same cell)
  · rw [if_neg here, if_neg here]

theorem relabel_define (h : Heap) (a : Address) (name : String) (value : Value) :
    (h.define a name value).relabel ρ = (h.relabel ρ).define a name (value.relabel ρ) := by
  unfold define
  rw [modify_relabel h a (Cell.define name value)]
  · rfl
  · intro cell
    cases cell <;> simp [Cell.define, Cell.relabel, Frame.relabel]

theorem relabel_setField (h : Heap) (i : Instance) (name : String) (value : Value) :
    (h.setField i name value).relabel ρ
      = (h.relabel ρ).setField (i.relabel ρ) name (value.relabel ρ) := by
  unfold setField
  show _ = Heap.mk ((h.relabel ρ).cells.modify i.id _)
  rw [modify_relabel h i.id (Cell.setField name value)]
  · rfl
  · intro cell
    cases cell <;> simp [Cell.setField, Cell.relabel]

end Heap

/-! ## Heaps within ids -/

theorem Class.Within.methods {c : Class} (within : c.Within ids) :
    ∀ f ∈ c.methods, f.Within ids := by
  match c, within with
  | ⟨_, _, some _, _, _⟩, within | ⟨_, _, none, _, _⟩, within => exact within.1

theorem Class.within_of {id : Address} {name : String} {parent : Option Class} {frame : Address}
    {methods : List FunctionDecl} (above : ∀ c, parent = some c → c.Within ids)
    (inside : ∀ f ∈ methods, f.Within ids) :
    (Class.mk id name parent frame methods).Within ids := by
  cases parent with
  | none => exact ⟨inside, trivial⟩
  | some c => exact ⟨inside, above c rfl⟩

theorem Class.Within.parent {c above : Class} (within : c.Within ids)
    (inherits : c.parent = some above) : above.Within ids := by
  match c, within, inherits with
  | ⟨_, _, some _, _, _⟩, within, rfl => exact within.2

theorem Class.Within.method? {c : Class} (within : c.Within ids) {name : String} {method : Method}
    (found : c.method? name = some method) : method.declaration.Within ids := by
  obtain ⟨owner, within, member, -⟩ :=
    Class.method?_mem (fun _ _ within => Class.Within.parent within) c within found
  exact within.methods _ member

section

variable {more : NodeId → Prop} (le : ∀ id, ids id → more id)
include le

theorem FunctionDecl.Within.mono {f : FunctionDecl} (within : f.Within ids) : f.Within more :=
  fun a member => le a.id (within a member)

theorem Class.Within.mono (c : Class) (within : c.Within ids) : c.Within more := by
  have methods : ∀ f ∈ c.methods, f.Within more :=
    fun f member => (within.methods f member).mono le
  match c, within, methods with
  | ⟨_, _, some above, _, _⟩, within, methods => exact ⟨methods, mono above within.2⟩
  | ⟨_, _, none, _, _⟩, within, methods => exact ⟨methods, trivial⟩

theorem Value.Within.mono {value : Value} (within : value.Within ids) : value.Within more := by
  cases value with
  | closure f => exact FunctionDecl.Within.mono le within
  | «class» c => exact Class.Within.mono le c within
  | «instance» i => exact Class.Within.mono le i.of within
  | nil | bool | number | string | native => trivial

theorem Heap.Within.mono {h : Heap} (within : h.Within ids) : h.Within more := by
  intro a cell found
  have inside := within a cell found
  cases cell with
  | frame f => exact fun name value bound => (inside name value bound).mono le
  | fields b => exact fun name value bound => (inside name value bound).mono le
  | identity => trivial

end

namespace Heap.Within

variable {h : Heap}

theorem read? (within : h.Within ids) {a : Address} {name : String} {value : Value}
    (found : h.read? a name = some value) : value.Within ids := by
  unfold Heap.read? at found
  cases here : h.frame? a with
  | none =>
    rw [here] at found
    cases found
  | some frame =>
    rw [here] at found
    exact within a _ (Heap.frame?_eq_some.mp here) name value found

theorem getAt? (within : h.Within ids) {a : Address} {distance : Nat} {name : String}
    {value : Value} (found : h.getAt? a distance name = some value) : value.Within ids := by
  unfold Heap.getAt? at found
  obtain ⟨frame, _, here⟩ := Option.bind_eq_some_iff.mp found
  exact within.read? here

theorem field? (within : h.Within ids) {i : Instance} {name : String} {value : Value}
    (found : h.field? i name = some value) : value.Within ids := by
  unfold Heap.field? at found
  cases here : h.fields? i.id with
  | none =>
    rw [here] at found
    cases found
  | some fields =>
    rw [here] at found
    exact within i.id _ (Heap.fields?_eq_some.mp here) name value found

theorem allocate (within : h.Within ids) (cell : Cell) (new : cell.Within ids) :
    (h.allocate cell).2.Within ids := by
  intro a found holds
  unfold Heap.allocate at holds
  dsimp only at holds
  rw [Array.getElem?_push] at holds
  split at holds
  · exact Option.some.inj holds ▸ new
  · exact within a found holds

/-- What is done to one cell leaves all others. -/
theorem modify (within : h.Within ids) (a : Address) {f : Cell → Cell}
    (kept : ∀ cell : Cell, cell.Within ids → (f cell).Within ids) :
    (Heap.mk (h.cells.modify a f)).Within ids := by
  intro b found holds
  rw [Array.getElem?_modify] at holds
  split at holds
  · obtain ⟨cell, here, rfl⟩ := Option.map_eq_some_iff.mp holds
    exact kept cell (within b cell here)
  · exact within b found holds

theorem define (within : h.Within ids) (a : Address) (name : String) {value : Value}
    (new : value.Within ids) : (h.define a name value).Within ids := by
  refine within.modify a fun cell before => ?_
  cases cell with
  | frame frame => exact Bindings.forall_set before new
  | fields fields => exact before
  | identity => trivial

theorem setField (within : h.Within ids) (i : Instance) (name : String) {value : Value}
    (new : value.Within ids) : (h.setField i name value).Within ids := by
  refine within.modify i.id fun cell before => ?_
  cases cell with
  | frame frame => exact before
  | fields fields => exact Bindings.forall_set before new
  | identity => trivial

end Heap.Within

end

end Lox
