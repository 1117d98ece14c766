import Lox.Proofs.Holdings
import Lox.Proofs.Scoping.Slots
import Lox.Proofs.Origin.Trees

/-!
# Where the code in a heap comes from

A heap holds code in its functions and classes. That all of it is made of certain tokens is kept by
every operation, because values are only passed on and new code is taken from the tree that runs.

How a heap changes is told apart by frames: one that declares takes names, at most those that are
declared, and all others keep exactly the names they bind (`Heap.Declares`). What happens in a frame
that was not there before is nothing to the frames that were.
-/

set_option autoImplicit false

namespace Lox

open Heap (nowhere)

/-! ## Values and heaps -/

section

variable (o : Origin)

/-- Whether the methods of a class, and of those above it, are made of the tokens. -/
def Class.From : Class → Prop
  | ⟨_, _, parent, _, methods⟩ =>
    (∀ f ∈ methods, f.From o) ∧
      match parent with
      | some above => above.From
      | none => True

/-- Whether the code of a value is. -/
def Value.From : Value → Prop
  | .closure f => f.declaration.From o
  | .class c => c.From o
  | .instance i => i.of.From o
  | .nil | .bool _ | .number _ | .string _ | .native _ => True

/-- Whether the code in a cell is. -/
def Cell.From : Cell → Prop
  | .frame f => ∀ name value, f.bindings.find? name = some value → value.From o
  | .fields b => ∀ name value, b.find? name = some value → value.From o
  | .identity => True

/-- Whether the code in a heap is. -/
def Heap.From (h : Heap) : Prop :=
  ∀ (a : Address) (cell : Cell), h.cells[a]? = some cell → cell.From o

end

variable {o : Origin}

theorem Value.from_of_isData {value : Value} (data : value.IsData) : value.From o := by
  cases value with
  | nil | bool | number | string | native => trivial
  | closure | «class» | «instance» => cases data

namespace Class

theorem from_of {id : Address} {name : String} {parent : Option Class} {frame : Address}
    {methods : List FunctionDecl} (above : ∀ c ∈ parent, c.From o)
    (own : ∀ f ∈ methods, f.From o) : (Class.mk id name parent frame methods).From o := by
  cases parent with
  | none => exact ⟨own, trivial⟩
  | some c => exact ⟨own, above c rfl⟩

theorem From.methods {c : Class} (from_ : c.From o) : ∀ f ∈ c.methods, f.From o := by
  match c, from_ with
  | ⟨_, _, some _, _, _⟩, from_ | ⟨_, _, none, _, _⟩, from_ => exact from_.1

theorem From.parent {c above : Class} (from_ : c.From o) (inherits : c.parent = some above) :
    above.From o := by
  match c, from_, inherits with
  | ⟨_, _, some _, _, _⟩, from_, rfl => exact from_.2

theorem From.method? {c : Class} (from_ : c.From o) {name : String} {method : Method}
    (found : c.method? name = some method) : method.declaration.From o := by
  obtain ⟨owner, from_, member, -⟩ :=
    Class.method?_mem (fun _ _ from_ => From.parent from_) c from_ found
  exact from_.methods _ member

end Class

namespace Heap.From

variable {h : Heap}

theorem read? (from_ : h.From o) {a : Address} {name : String} {value : Value}
    (found : h.read? a name = some value) : value.From o :=
  All.read? from_ found

theorem getAt? (from_ : h.From o) {a : Address} {distance : Nat} {name : String} {value : Value}
    (found : h.getAt? a distance name = some value) : value.From o :=
  All.getAt? from_ found

theorem field? (from_ : h.From o) {i : Instance} {name : String} {value : Value}
    (found : h.field? i name = some value) : value.From o :=
  All.field? from_ found

theorem allocate (from_ : h.From o) {cell : Cell} (new : cell.From o) :
    (h.allocate cell).2.From o :=
  All.allocate from_ new

theorem define (from_ : h.From o) (a : Address) (name : String) {value : Value}
    (new : value.From o) : (h.define a name value).From o :=
  All.define from_ a name new

theorem setField (from_ : h.From o) (i : Instance) (name : String) {value : Value}
    (new : value.From o) : (h.setField i name value).From o :=
  All.setField from_ i name new

end Heap.From

/-! ## Declarations -/

/-- No names. -/
abbrev nothing : String → Prop := fun _ => False

/-- One heap leads to another, and all that is declared on the way is declared in one frame: frames
keep their links, their names, and what they bind to `this` and `super`; the frame takes at most the
given names, and no other frame that was there takes any. -/
structure Heap.Declares (h : Heap) (a : Address) (names : String → Prop) (h' : Heap) : Prop where
  grows : h.Grows (· = a) h'
  gains (frame frame' : Frame) (before : h.frame? a = some frame)
    (after : h'.frame? a = some frame') (name : String) (bound : frame'.bindings.binds name = true) :
    frame.bindings.binds name = true ∨ names name
  retains : h.Retains h'

namespace Heap.Declares

variable {h h₁ h₂ : Heap} {a : Address} {names more : String → Prop}

/-- Where no frame takes names, nothing is declared anywhere. -/
theorem of_still (grows : h.Grows nowhere h₁) (retains : h.Retains h₁) (a : Address)
    (names : String → Prop) : h.Declares a names h₁ where
  grows := grows.weaken fun _ => False.elim
  gains frame frame' before after name bound := by
    obtain ⟨frame₁, found, -, -, same⟩ := grows a frame before
    obtain rfl := Option.some.inj (found.symm.trans after)
    exact .inl ((same id name).symm.trans bound)
  retains := retains

theorem refl (h : Heap) (a : Address) (names : String → Prop) : h.Declares a names h :=
  of_still (.refl _ h) (.refl h) a names

theorem trans (first : h.Declares a names h₁) (second : h₁.Declares a names h₂) :
    h.Declares a names h₂ where
  grows := first.grows.trans second.grows
  gains frame frame' before after name bound := by
    obtain ⟨frame₁, between, -⟩ := first.grows a frame before
    rcases second.gains frame₁ frame' between after name bound with earlier | declared
    · exact first.gains frame frame₁ before between name earlier
    · exact .inr declared
  retains := first.retains.trans second.retains

theorem weaken (declares : h.Declares a names h₁) (le : ∀ name, names name → more name) :
    h.Declares a more h₁ where
  grows := declares.grows
  gains frame frame' before after name bound :=
    (declares.gains frame frame' before after name bound).imp id (le name)
  retains := declares.retains

/-- Where nothing is declared, no frame takes names. -/
theorem still (declares : h.Declares a nothing h₁) : h.Grows nowhere h₁ := by
  intro b frame found
  obtain ⟨frame', found', link, kept, same⟩ := declares.grows b frame found
  refine ⟨frame', found', link, kept, fun _ name => ?_⟩
  by_cases here : b = a
  · -- The frame itself gains none of no names, and loses none.
    subst here
    cases bound : frame'.bindings.binds name with
    | true =>
      rcases declares.gains frame frame' found found' name bound with before | impossible
      · exact before.symm
      · exact impossible.elim
    | false =>
      cases before : frame.bindings.binds name with
      | false => rfl
      | true => rw [kept name before] at bound; cases bound
  · exact same here name

/-- What declares nothing in one frame declares nothing in any. -/
theorem elsewhere (declares : h.Declares a nothing h₁) (b : Address) (names : String → Prop) :
    h.Declares b names h₁ :=
  of_still declares.still declares.retains b names

/-- Where nothing is declared, frames bind what they bound. -/
theorem binds_eq (declares : h.Declares a nothing h₁) {b : Address} {frame : Frame}
    (found : h.frame? b = some frame) (name : String) : h₁.binds b name = h.binds b name := by
  obtain ⟨frame', found', -, -, same⟩ := declares.still b frame found
  unfold Heap.binds
  rw [found, found']
  exact same id name

/-- What is declared in a frame that was not there declares nothing in those that were. -/
theorem fresh {new : Address} (first : h.Declares a nothing h₁) (second : h₁.Declares new names h₂)
    (absent : h.frame? new = none) : h.Declares a nothing h₂ := by
  have still : h.Grows nowhere h₂ := by
    have opened : h.Grows (· = new) h₁ := first.still.weaken fun _ => False.elim
    intro b frame found
    obtain ⟨frame₂, found₂, link, kept, same⟩ := opened.trans second.grows b frame found
    refine ⟨frame₂, found₂, link, kept, fun _ => same fun here => ?_⟩
    -- A frame that was there is not the new one.
    rw [here, absent] at found
    cases found
  exact of_still still (first.retains.trans second.retains) a nothing

theorem allocate (h : Heap) (cell : Cell) (a : Address) (names : String → Prop) :
    h.Declares a names (h.allocate cell).2 :=
  of_still (.allocate h cell) (.allocate h cell) a names

theorem setField (h : Heap) (i : Instance) (name : String) (value : Value) (a : Address)
    (names : String → Prop) : h.Declares a names (h.setField i name value) :=
  of_still (.setField h i name value) (.setField h i name value) a names

/-- A definition declares its name. -/
theorem define (h : Heap) (a : Address) {name : String} (spared : Spared name) (value : Value) :
    h.Declares a (· = name) (h.define a name value) where
  grows := .define h a name value
  gains frame frame' before after key bound := by
    rw [frame?_define, if_pos rfl, before] at after
    obtain rfl := Option.some.inj after
    rw [Bindings.binds_set, Bool.or_eq_true, beq_iff_eq] at bound
    exact bound.symm
  retains := .define h a spared value

/-- An assignment declares nothing, since its name is bound where the value is put. -/
theorem assign {b : Address} {name : String} (bound : h.binds b name = true) (spared : Spared name)
    (value : Value) (a : Address) (names : String → Prop) :
    h.Declares a names (h.define b name value) :=
  of_still (.assign bound value) (.define h b spared value) a names

end Heap.Declares

end Lox
