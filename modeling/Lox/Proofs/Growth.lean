import Lox.Heap

/-!
# How the heap grows

A frame is never unlinked and never loses a name. Two frames are told apart here: those in which a
computation declares names, and all others, which keep exactly the names that they bind. Assigning
a variable replaces a value where the name is bound already, so it adds no name either.
-/

set_option autoImplicit false

namespace Lox

namespace Heap

/-! ## Cells -/

theorem frame?_eq_some {h : Heap} {a : Address} {frame : Frame} :
    h.frame? a = some frame ↔ h.cells[a]? = some (.frame frame) := by
  unfold frame?
  cases h.cells[a]? with
  | none => exact ⟨nofun, nofun⟩
  | some cell => cases cell <;> simp

theorem fields?_eq_some {h : Heap} {a : Address} {fields : Bindings Value} :
    h.fields? a = some fields ↔ h.cells[a]? = some (.fields fields) := by
  unfold fields?
  cases h.cells[a]? with
  | none => exact ⟨nofun, nofun⟩
  | some cell => cases cell <;> simp

theorem lt_size_of_frame? {h : Heap} {a : Address} {frame : Frame}
    (found : h.frame? a = some frame) : a < h.cells.size := by
  have cell := frame?_eq_some.mp found
  exact (Array.getElem?_eq_some_iff.mp cell).1

/-- There is no frame yet at the address of a new cell. -/
theorem frame?_size (h : Heap) : h.frame? h.cells.size = none := by
  cases found : h.frame? h.cells.size with
  | none => rfl
  | some frame => exact absurd (lt_size_of_frame? found) (Nat.lt_irrefl _)

theorem frame?_setField (h : Heap) (i : Instance) (name : String) (value : Value) (a : Address) :
    (h.setField i name value).frame? a = h.frame? a := by
  simp only [frame?, setField, Array.getElem?_modify]
  by_cases here : i.id = a
  · rw [if_pos here]
    cases h.cells[a]? with
    | none => rfl
    | some cell => cases cell <;> rfl
  · rw [if_neg here]

theorem cells_define (h : Heap) (a b : Address) (name : String) (value : Value) :
    (h.define a name value).cells[b]? =
      if a = b then h.cells[b]?.map (Cell.define name value) else h.cells[b]? := by
  simp only [define, Array.getElem?_modify]

theorem cells_setField (h : Heap) (i : Instance) (b : Address) (name : String) (value : Value) :
    (h.setField i name value).cells[b]? =
      if i.id = b then h.cells[b]?.map (Cell.setField name value) else h.cells[b]? := by
  simp only [setField, Array.getElem?_modify]

theorem cells_allocate (h : Heap) (cell : Cell) (b : Address) :
    (h.allocate cell).2.cells[b]? = if b = h.cells.size then some cell else h.cells[b]? := by
  simp only [allocate, Array.getElem?_push]

theorem binds_eq_true {h : Heap} {a : Address} {name : String} :
    h.binds a name = true ↔ ∃ frame, h.frame? a = some frame ∧ frame.bindings.binds name = true := by
  unfold binds
  cases h.frame? a <;> simp

theorem exists_read? {h : Heap} {a : Address} {name : String} (bound : h.binds a name = true) :
    ∃ value, h.read? a name = some value := by
  obtain ⟨frame, found, binds⟩ := binds_eq_true.mp bound
  obtain ⟨value, holds⟩ := Option.isSome_iff_exists.mp binds
  exact ⟨value, by rw [read?, found, Option.bind_some, holds]⟩

/-! ## Looking up -/

/-- The frame exactly `distance` links outwards from `a`, if there are so many links. -/
def outer? (h : Heap) (a : Address) : Nat → Option Address
  | 0 => some a
  | distance + 1 => (h.enclosing? a).bind (h.outer? · distance)

/-- Where there are links enough, the walk along them is exact. -/
theorem ancestor_eq {h : Heap} {a frame : Address} {distance : Nat}
    (reached : h.outer? a distance = some frame) : h.ancestor a distance = frame := by
  induction distance generalizing a with
  | zero => exact Option.some.inj reached
  | succ distance ih =>
    rw [outer?] at reached
    rw [ancestor]
    cases link : h.enclosing? a with
    | none =>
      rw [link] at reached
      cases reached
    | some outer =>
      rw [link, Option.bind_some] at reached
      exact ih reached

theorem ownerAt?_eq {h : Heap} {a frame : Address} {distance : Nat} (name : String)
    (reached : h.outer? a distance = some frame) :
    h.ownerAt? a distance name = if h.binds frame name then some frame else none := by
  unfold ownerAt?
  rw [ancestor_eq reached]

theorem binds_ownerAt? {h : Heap} {a frame : Address} {distance : Nat} {name : String}
    (found : h.ownerAt? a distance name = some frame) : h.binds frame name = true := by
  unfold ownerAt? at found
  dsimp only at found
  split at found
  · next bound => exact Option.some.inj found ▸ bound
  · cases found

theorem binds_ownerWithin {h : Heap} {name : String} {n : Nat} {a frame : Address}
    (found : h.ownerWithin name n a = some frame) : h.binds frame name = true := by
  induction n generalizing a with
  | zero => cases found
  | succ n ih =>
    rw [ownerWithin] at found
    split at found
    · next bound => exact Option.some.inj found ▸ bound
    · split at found
      · exact ih found
      · cases found

theorem binds_owner? {h : Heap} {a frame : Address} {name : String}
    (found : h.owner? a name = some frame) : h.binds frame name = true :=
  binds_ownerWithin found

/-- A frame that stands by itself is the only one in which its names are looked up. -/
theorem owner?_root {h : Heap} {a : Address} {bindings : Bindings Value} (name : String)
    (root : h.frame? a = some ⟨bindings, none⟩) :
    h.owner? a name = if h.binds a name then some a else none := by
  have last : h.enclosing? a = none := by rw [enclosing?, root, Option.bind_some]
  rw [owner?, ownerWithin, last]

/-! ## Growth -/

/-- One heap grows into another: frames keep their links and their names, and only those in
`growing` take new names. -/
def Grows (growing : Address → Prop) (h h' : Heap) : Prop :=
  ∀ a frame, h.frame? a = some frame → ∃ frame', h'.frame? a = some frame' ∧
    frame'.enclosing = frame.enclosing ∧
    (∀ name, frame.bindings.binds name = true → frame'.bindings.binds name = true) ∧
    (¬ growing a → ∀ name, frame'.bindings.binds name = frame.bindings.binds name)

/-- No frame takes new names. -/
abbrev nowhere : Address → Prop := fun _ => False

namespace Grows

variable {growing other : Address → Prop} {h h₁ h₂ : Heap}

theorem refl (growing : Address → Prop) (h : Heap) : Grows growing h h :=
  fun _ frame found => ⟨frame, found, rfl, fun _ bound => bound, fun _ _ => rfl⟩

theorem trans (first : Grows growing h h₁) (second : Grows growing h₁ h₂) :
    Grows growing h h₂ := by
  intro a frame found
  obtain ⟨frame₁, found₁, link₁, kept₁, same₁⟩ := first a frame found
  obtain ⟨frame₂, found₂, link₂, kept₂, same₂⟩ := second a frame₁ found₁
  exact ⟨frame₂, found₂, link₂.trans link₁, fun name bound => kept₂ name (kept₁ name bound),
    fun still name => (same₂ still name).trans (same₁ still name)⟩

theorem weaken (grows : Grows growing h h₁) (more : ∀ a, growing a → other a) :
    Grows other h h₁ := by
  intro a frame found
  obtain ⟨frame₁, found₁, link, kept, same⟩ := grows a frame found
  exact ⟨frame₁, found₁, link, kept, fun still => same fun grown => still (more a grown)⟩

/-- What grows in a frame that was not there before does not grow the frames that were. -/
theorem fresh {new : Address} (first : Grows growing h h₁) (second : Grows (· = new) h₁ h₂)
    (absent : h.frame? new = none) : Grows growing h h₂ := by
  intro a frame found
  obtain ⟨frame₁, found₁, link₁, kept₁, same₁⟩ := first a frame found
  obtain ⟨frame₂, found₂, link₂, kept₂, same₂⟩ := second a frame₁ found₁
  have old : a ≠ new := by
    intro same
    rw [same, absent] at found
    cases found
  exact ⟨frame₂, found₂, link₂.trans link₁, fun name bound => kept₂ name (kept₁ name bound),
    fun still name => (same₂ old name).trans (same₁ still name)⟩

theorem allocate (h : Heap) (cell : Cell) : Grows nowhere h (h.allocate cell).2 := by
  intro a frame found
  refine ⟨frame, ?_, rfl, fun _ bound => bound, fun _ _ => rfl⟩
  rw [frame?_allocate h cell a (lt_size_of_frame? found), found]

theorem setField (h : Heap) (i : Instance) (name : String) (value : Value) :
    Grows nowhere h (h.setField i name value) := by
  intro a frame found
  refine ⟨frame, ?_, rfl, fun _ bound => bound, fun _ _ => rfl⟩
  rw [frame?_setField, found]

end Grows

end Heap

/-- Binding a name adds that name to those that are bound. -/
theorem Bindings.binds_set (b : Bindings Value) (name key : String) (value : Value) :
    (b.set name value).binds key = (key == name || b.binds key) := by
  unfold binds
  rw [find?_set]
  cases key == name <;> rfl

namespace Heap.Grows

/-- A definition adds a name to its own frame only. -/
theorem define (h : Heap) (a : Address) (name : String) (value : Value) :
    Grows (· = a) h (h.define a name value) := by
  intro b frame found
  rw [frame?_define, found]
  by_cases here : a = b
  · rw [if_pos here]
    refine ⟨_, rfl, rfl, fun key bound => ?_, fun still => absurd here.symm still⟩
    rw [Bindings.binds_set, bound, Bool.or_true]
  · rw [if_neg here]
    exact ⟨frame, rfl, rfl, fun _ bound => bound, fun _ _ => rfl⟩

/-- A new value for a name that is bound adds no name. -/
theorem assign {h : Heap} {a : Address} {name : String} (bound : h.binds a name = true)
    (value : Value) : Grows nowhere h (h.define a name value) := by
  intro b frame found
  rw [frame?_define, found]
  by_cases here : a = b
  · subst here
    rw [if_pos rfl]
    have already : frame.bindings.binds name = true := by
      obtain ⟨frame', found', binds⟩ := binds_eq_true.mp bound
      obtain rfl : frame = frame' := Option.some.inj (found.symm.trans found')
      exact binds
    have same : ∀ key, (frame.bindings.set name value).binds key = frame.bindings.binds key := by
      intro key
      rw [Bindings.binds_set]
      by_cases equal : key = name
      · rw [equal, already, Bool.or_true]
      · rw [beq_eq_false_iff_ne.mpr equal, Bool.false_or]
    exact ⟨_, rfl, rfl, fun key kept => (same key).trans kept, fun _ => same⟩
  · rw [if_neg here]
    exact ⟨frame, rfl, rfl, fun _ kept => kept, fun _ _ => rfl⟩

end Heap.Grows

end Lox
