import Lox.Bindings
import Lox.Value

/-!
# The heap

Everything that a running program creates takes one cell of the heap, in the order of creation, and
keeps it. A frame binds names and is linked to the frame around it, which is older; so the frames
from one outwards are at most as many as there are addresses up to its own.

Reading and writing a variable are the same walk: `owner?` finds the nearest frame that binds the
name, `ancestor` the frame a given number of links outwards, and the binding is then read or
replaced there.
-/

set_option autoImplicit false

namespace Lox

/-- The variables of one scope at run time. -/
structure Frame where
  bindings : Bindings Value
  /-- The frame around it. -/
  enclosing : Option Address

/-- What an address holds. -/
inductive Cell where
  | frame (frame : Frame)
  /-- The fields of an instance. -/
  | fields (fields : Bindings Value)
  /-- The address of a function or a class, which is held by its values alone. -/
  | identity

/-- The cells in the order in which they were taken. -/
structure Heap where
  cells : Array Cell

namespace Heap

/-- The heap before anything is created. -/
def empty : Heap := ⟨#[]⟩

/-- Takes a new cell. -/
def allocate (h : Heap) (cell : Cell) : Address × Heap :=
  (h.cells.size, ⟨h.cells.push cell⟩)

/-- Takes a new frame inside another one, or by itself. -/
def allocateFrame (h : Heap) (enclosing : Option Address) (bindings : Bindings Value) :
    Address × Heap :=
  h.allocate (.frame ⟨bindings, enclosing⟩)

/-- The frame at an address. -/
def frame? (h : Heap) (a : Address) : Option Frame :=
  match h.cells[a]? with
  | some (.frame frame) => some frame
  | _ => none

/-- The fields of the instance at an address. -/
def fields? (h : Heap) (a : Address) : Option (Bindings Value) :=
  match h.cells[a]? with
  | some (.fields fields) => some fields
  | _ => none

/-- The frame around the one at an address. -/
def enclosing? (h : Heap) (a : Address) : Option Address :=
  (h.frame? a).bind Frame.enclosing

/-- Whether the frame at an address binds a name itself. -/
def binds (h : Heap) (a : Address) (name : String) : Bool :=
  match h.frame? a with
  | some frame => frame.bindings.binds name
  | none => false

/-- What the frame at an address itself binds a name to. -/
def read? (h : Heap) (a : Address) (name : String) : Option Value :=
  (h.frame? a).bind (·.bindings.find? name)

/-- Binds a name in the cell of a frame. -/
def Cell.define (name : String) (value : Value) : Cell → Cell
  | .frame frame => .frame { frame with bindings := frame.bindings.set name value }
  | cell => cell

/-- Binds a name in the frame at an address, in place of an earlier binding there. -/
def define (h : Heap) (a : Address) (name : String) (value : Value) : Heap :=
  ⟨h.cells.modify a (Cell.define name value)⟩

/-- The nearest of the `n` frames from `a` outwards that binds a name. -/
def ownerWithin (h : Heap) (name : String) : Nat → Address → Option Address
  | 0, _ => none
  | n + 1, a =>
    if h.binds a name then some a
    else
      match h.enclosing? a with
      | some outer => ownerWithin h name n outer
      | none => none

/-- The nearest frame from `a` outwards that binds a name. -/
def owner? (h : Heap) (a : Address) (name : String) : Option Address :=
  h.ownerWithin name (a + 1) a

/-- The frame `distance` links outwards from `a`, or the outermost one if there are fewer. -/
def ancestor (h : Heap) (a : Address) : Nat → Address
  | 0 => a
  | distance + 1 =>
    match h.enclosing? a with
    | some outer => h.ancestor outer distance
    | none => a

/-- The frame `distance` links outwards from `a`, if it binds a name. -/
def ownerAt? (h : Heap) (a : Address) (distance : Nat) (name : String) : Option Address :=
  let frame := h.ancestor a distance
  if h.binds frame name then some frame else none

/-- The value of a name, looked up from `a` outwards. -/
def get? (h : Heap) (a : Address) (name : String) : Option Value :=
  (h.owner? a name).bind (h.read? · name)

/-- Gives a new value to a name, looked up from `a` outwards. -/
def assign? (h : Heap) (a : Address) (name : String) (value : Value) : Option Heap :=
  (h.owner? a name).map (h.define · name value)

/-- The value of a name in the frame `distance` links outwards from `a`. -/
def getAt? (h : Heap) (a : Address) (distance : Nat) (name : String) : Option Value :=
  (h.ownerAt? a distance name).bind (h.read? · name)

/-- Gives a new value to a name in the frame `distance` links outwards from `a`. -/
def assignAt? (h : Heap) (a : Address) (distance : Nat) (name : String) (value : Value) :
    Option Heap :=
  (h.ownerAt? a distance name).map (h.define · name value)

/-- The field of an instance. -/
def field? (h : Heap) (i : Instance) (name : String) : Option Value :=
  (h.fields? i.id).bind (·.find? name)

/-- Sets a field in the cell of an instance. -/
def Cell.setField (name : String) (value : Value) : Cell → Cell
  | .fields fields => .fields (fields.set name value)
  | cell => cell

/-- Sets a field of an instance. -/
def setField (h : Heap) (i : Instance) (name : String) (value : Value) : Heap :=
  ⟨h.cells.modify i.id (Cell.setField name value)⟩

/-- Creates an instance without fields. -/
def newInstance (h : Heap) (c : Class) : Instance × Heap :=
  let (id, h) := h.allocate (.fields .empty)
  (⟨id, c⟩, h)

/-- Creates a function. -/
def newClosure (h : Heap) (declaration : FunctionDecl) (frame : Address) (isInitializer : Bool) :
    Closure × Heap :=
  let (id, h) := h.allocate .identity
  (⟨id, declaration, frame, isInitializer⟩, h)

/-- Creates a function of the host. -/
def newNative (h : Heap) (name : String) (arity : Nat) (action : Native.Action) : Native × Heap :=
  let (id, h) := h.allocate .identity
  (⟨id, name, arity, action⟩, h)

/-- Creates a class. -/
def newClass (h : Heap) (name : String) (parent : Option Class) (frame : Address)
    (methods : List FunctionDecl) : Class × Heap :=
  let (id, h) := h.allocate .identity
  (⟨id, name, parent, frame, methods⟩, h)

/-- Binds a method to an instance: a new function, around which a new frame holds `this`. -/
def bindMethod (h : Heap) (method : Method) (i : Instance) : Closure × Heap :=
  let (frame, h) := h.allocateFrame (some method.frame) (Bindings.empty.set "this" (.instance i))
  h.newClosure method.declaration frame (method.declaration.name.lexeme == initializerName)

/-! ### What the operations leave to be read

A definition is read back by its own frame only, no link ever changes, and a new cell changes
nothing that was there. -/

/-- A definition changes the bindings of its own frame. -/
theorem frame?_define (h : Heap) (a b : Address) (name : String) (value : Value) :
    (h.define a name value).frame? b =
      if a = b then
        (h.frame? b).map fun frame => { frame with bindings := frame.bindings.set name value }
      else h.frame? b := by
  simp only [frame?, define, Array.getElem?_modify]
  by_cases here : a = b
  · rw [if_pos here, if_pos here]
    cases h.cells[b]? with
    | none => rfl
    | some cell => cases cell <;> rfl
  · rw [if_neg here, if_neg here]

/-- No frame is linked differently after a definition. -/
theorem enclosing?_define (h : Heap) (a b : Address) (name : String) (value : Value) :
    (h.define a name value).enclosing? b = h.enclosing? b := by
  rw [enclosing?, enclosing?, frame?_define]
  split
  · cases h.frame? b <;> rfl
  · rfl

/-- The name that was defined is read from its own frame, and all else is read as before. -/
theorem read?_define (h : Heap) (a b : Address) (name key : String) (value : Value) :
    (h.define a name value).read? b key =
      if a = b ∧ key = name then (h.frame? a).map fun _ => value else h.read? b key := by
  rw [read?, read?, frame?_define]
  by_cases here : a = b
  · subst here
    cases h.frame? a with
    | none => simp
    | some frame => by_cases same : key = name <;> simp [same]
  · simp [here]

/-- A new cell leaves the older frames as they were. -/
theorem frame?_allocate (h : Heap) (cell : Cell) (a : Address) (old : a < h.cells.size) :
    (h.allocate cell).2.frame? a = h.frame? a := by
  simp only [frame?, allocate, Array.getElem?_push_lt old, Array.getElem?_eq_getElem old]

/-- A new frame is found at its address. -/
theorem frame?_allocateFrame (h : Heap) (enclosing : Option Address) (bindings : Bindings Value) :
    (h.allocateFrame enclosing bindings).2.frame? (h.allocateFrame enclosing bindings).1
      = some ⟨bindings, enclosing⟩ := by
  simp only [frame?, allocateFrame, allocate, Array.getElem?_push_size]

end Heap

end Lox
