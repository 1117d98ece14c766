import Lox.Proofs.Holdings
import Lox.Proofs.Instances.Deeds
import Lox.Proofs.Scoping.Nesting
import Lox.Proofs.Scoping.Slots

/-!
# The fields of instances

Between two deeds a run takes new cells and binds variables, and no field changes (`Heap.Calm`). A
property that is set changes one field of one instance, in whatever places the instance is held. So
along a story, in which each deed finds what the deeds before it have left, a field has the value
that was last set (`Story.field?_eq`).

This needs that what is set is a field of an instance that is there. All instances in a heap are
(`Heap.Standing`), and they stay (`Heap.Lasts`).
-/

set_option autoImplicit false

namespace Lox

/-! ## From one heap to a later one -/

namespace Heap

theorem fields?_of_cells {h h' : Heap} {a : Address} (same : h'.cells[a]? = h.cells[a]?) :
    h'.fields? a = h.fields? a := by
  unfold fields?
  rw [same]

/-- There are no fields yet at the address of a new cell. -/
theorem fields?_size (h : Heap) : h.fields? h.cells.size = none := by
  unfold fields?
  rw [Array.getElem?_eq_none (Nat.le_refl _)]

theorem fields?_define (h : Heap) (a b : Address) (name : String) (value : Value) :
    (h.define a name value).fields? b = h.fields? b := by
  simp only [fields?, cells_define]
  by_cases here : a = b
  · rw [if_pos here]
    cases h.cells[b]? with
    | none => rfl
    | some cell => cases cell <;> rfl
  · rw [if_neg here]

theorem fields?_setField (h : Heap) (i : Instance) (b : Address) (name : String) (value : Value) :
    (h.setField i name value).fields? b =
      if i.id = b then (h.fields? b).map (·.set name value) else h.fields? b := by
  simp only [fields?, cells_setField]
  by_cases here : i.id = b
  · rw [if_pos here, if_pos here]
    cases h.cells[b]? with
    | none => rfl
    | some cell => cases cell <;> rfl
  · rw [if_neg here, if_neg here]

/-- The field that is set is the only one that is read differently. -/
theorem field?_setField {h : Heap} {i : Instance} (there : (h.fields? i.id).isSome = true)
    (name : String) (value : Value) (j : Instance) (key : String) :
    (h.setField i name value).field? j key =
      if j.id = i.id ∧ key = name then some value else h.field? j key := by
  obtain ⟨fields, found⟩ := Option.isSome_iff_exists.mp there
  unfold field?
  rw [fields?_setField]
  by_cases same : i.id = j.id
  · rw [if_pos same, ← same, found, Option.map_some, Option.bind_some, Option.bind_some,
      Bindings.find?_set]
    by_cases named : key = name
    · rw [if_pos (beq_iff_eq.mpr named), if_pos ⟨rfl, named⟩]
    · rw [if_neg fun both => named (beq_iff_eq.mp both), if_neg fun both => named both.2]
  · rw [if_neg same, if_neg fun both => same both.1.symm]

/-- What lasts from one heap to another: what `this` and `super` are bound to, and the instances. -/
structure Lasts (h h' : Heap) : Prop where
  retains : h.Retains h'
  stands (a : Address) : (h.fields? a).isSome = true → (h'.fields? a).isSome = true

/-- Whether all fields are the same in another heap. -/
structure Calm (h h' : Heap) : Prop extends Lasts h h' where
  field?_eq (i : Instance) (name : String) : h'.field? i name = h.field? i name

variable {h h₁ h₂ : Heap}

theorem Lasts.refl (h : Heap) : h.Lasts h := ⟨.refl h, fun _ => id⟩

theorem Lasts.trans (first : h.Lasts h₁) (second : h₁.Lasts h₂) : h.Lasts h₂ :=
  ⟨first.retains.trans second.retains, fun a there => second.stands a (first.stands a there)⟩

theorem Lasts.setField (h : Heap) (i : Instance) (name : String) (value : Value) :
    h.Lasts (h.setField i name value) := by
  refine ⟨.setField h i name value, fun a there => ?_⟩
  rw [fields?_setField]
  split
  · rw [Option.isSome_map]
    exact there
  · exact there

namespace Calm

theorem refl (h : Heap) : h.Calm h := ⟨.refl h, fun _ _ => rfl⟩

theorem trans (first : h.Calm h₁) (second : h₁.Calm h₂) : h.Calm h₂ :=
  ⟨first.toLasts.trans second.toLasts, fun i name =>
    (second.field?_eq i name).trans (first.field?_eq i name)⟩

/-- A cell that is taken holds no fields yet. -/
theorem allocate (h : Heap) {cell : Cell} (blank : ∀ b, cell = .fields b → b = .empty) :
    h.Calm (h.allocate cell).2 := by
  have elsewhere (a : Address) (other : a ≠ h.cells.size) :
      (h.allocate cell).2.fields? a = h.fields? a := by
    refine fields?_of_cells ?_
    rw [cells_allocate, if_neg other]
  refine ⟨⟨.allocate h cell, fun a there => ?_⟩, fun i name => ?_⟩
  · by_cases here : a = h.cells.size
    · rw [here, fields?_size] at there
      cases there
    · rwa [elsewhere a here]
  · unfold field?
    by_cases here : i.id = h.cells.size
    · rw [here, fields?_size]
      unfold fields?
      rw [cells_allocate, if_pos rfl]
      cases cell with
      | fields b =>
        rw [blank b rfl]
        rfl
      | frame | identity => rfl
    · rw [elsewhere i.id here]

theorem define (h : Heap) (a : Address) {name : String} (spared : Spared name) (value : Value) :
    h.Calm (h.define a name value) := by
  refine ⟨⟨.define h a spared value, fun b there => ?_⟩, fun i key => ?_⟩
  · rwa [fields?_define]
  · unfold field?
    rw [fields?_define]

theorem bindMethod (h : Heap) (method : Method) (i : Instance) :
    h.Calm (h.bindMethod method i).2 := by
  let frame : Frame := ⟨Bindings.empty.set "this" (.instance i), some method.frame⟩
  have opened : h.Calm (h.allocate (.frame frame)).2 := allocate h (by rintro _ ⟨⟩)
  let inner : Heap := (h.allocate (.frame frame)).2
  have made : inner.Calm (inner.allocate .identity).2 := allocate inner (by rintro _ ⟨⟩)
  exact opened.trans made

end Calm

end Heap

/-! ## Instances that are there -/

/-- Whether a value, if it is an instance, has fields in a heap. -/
def Value.Stands (h : Heap) : Value → Prop
  | .instance i => (h.fields? i.id).isSome = true
  | .nil | .bool _ | .number _ | .string _ | .native _ | .closure _ | .class _ => True

/-- Whether all instances in a heap have fields there. -/
abbrev Heap.Standing (h : Heap) : Prop := h.All (Value.Stands h)

/-- Whether a value that a statement returns stands in a heap. -/
def Completion.Stands (h : Heap) (completion : Completion) : Prop :=
  ∀ value, completion = .returned value → value.Stands h

variable {h h₁ h₂ : Heap}

theorem Value.Stands.lasts {value : Value} (stands : value.Stands h) (lasts : h.Lasts h₁) :
    value.Stands h₁ := by
  cases value with
  | «instance» i => exact lasts.stands i.id stands
  | nil | bool | number | string | native | closure | «class» => trivial

theorem Value.stands_of_isData {value : Value} (data : value.IsData) : value.Stands h := by
  cases value with
  | nil | bool | number | string | native => trivial
  | closure | «class» | «instance» => cases data

theorem Completion.stands_normal : Completion.normal.Stands h := nofun

theorem Completion.stands_returned {value : Value} (stands : value.Stands h) :
    (Completion.returned value).Stands h := by
  rintro _ ⟨⟩
  exact stands

namespace Heap

/-- What stands in a heap stands in a later one. -/
theorem standing_of_lasts (all : h₁.All (Value.Stands h)) (lasts : h.Lasts h₁) : h₁.Standing :=
  all.imp fun _ stands => stands.lasts lasts

/-- Whether all fields are the same in another heap, and all instances there have fields. -/
structure Settles (h h' : Heap) : Prop where
  calm : h.Calm h'
  standing : h'.Standing

namespace Settles

theorem refl (standing : h.Standing) : h.Settles h := ⟨.refl h, standing⟩

theorem trans (first : h.Settles h₁) (second : h₁.Settles h₂) : h.Settles h₂ :=
  ⟨first.calm.trans second.calm, second.standing⟩

theorem allocate (standing : h.Standing) {cell : Cell}
    (blank : ∀ b, cell = .fields b → b = .empty) (holds : cell.All (Value.Stands h)) :
    h.Settles (h.allocate cell).2 :=
  have calm := Calm.allocate h blank
  ⟨calm, standing_of_lasts (All.allocate standing holds) calm.toLasts⟩

theorem define (standing : h.Standing) (a : Address) {name : String} (spared : Spared name)
    {value : Value} (stands : value.Stands h) : h.Settles (h.define a name value) :=
  have calm := Calm.define h a spared value
  ⟨calm, standing_of_lasts (All.define standing a name stands) calm.toLasts⟩

end Settles

end Heap

/-! ## Stories -/

namespace Deed

/-- Whether a deed is done as it should: where a property is set there is an instance, and a frame
for a method is opened only where a method is bound. -/
def Founded : Deed → Prop
  | opens site _ _ _ => site.isReceiver = false
  | sets i _ _ m => (m.heap.fields? i.id).isSome = true
  | evaluates _ _ | executes _ _ | uses _ _ | binds _ _ _ | reads _ _ _ => True

theorem lasts_made (deed : Deed) : deed.machine.heap.Lasts deed.made := by
  cases deed with
  | evaluates _ m | executes _ m | uses _ m | opens _ _ _ m | reads _ _ m => exact .refl m.heap
  | binds method i m => exact (Heap.Calm.bindMethod m.heap method i).toLasts
  | sets i name value m => exact .setField m.heap i name.lexeme value

/-- After a deed a field has the value that was given to it, or the one that it had. -/
theorem field?_made {deed : Deed} (founded : deed.Founded) (i : Instance) (name : String) :
    deed.made.field? i name = (deed.set? i name).or (deed.machine.heap.field? i name) := by
  cases deed with
  | evaluates | executes | uses | opens | reads => rfl
  | binds method j m => exact (Heap.Calm.bindMethod m.heap method j).field?_eq i name
  | sets j key value m =>
    unfold made set?
    dsimp only
    rw [Heap.field?_setField founded]
    by_cases same : i.id = j.id ∧ name = key.lexeme
    · rw [if_pos same, if_pos same, Option.some_or]
    · rw [if_neg same, if_neg same, Option.none_or]
      rfl

theorem lastSet_cons (deed : Deed) (deeds : List Deed) (i : Instance) (name : String) :
    lastSet (deed :: deeds) i name = (lastSet deeds i name).or (deed.set? i name) := by
  unfold lastSet
  rw [List.filterMap_cons]
  cases deed.set? i name with
  | none => rw [Option.or_none]
  | some value =>
    dsimp only
    rw [List.getLast?_cons]
    cases (deeds.filterMap (set? i name)).getLast? <;> rfl

theorem notes_append (deeds more : List Deed) :
    notes (deeds ++ more) = notes more ++ notes deeds := by
  unfold notes
  rw [List.filterMap_append, List.reverse_append]

end Deed

/-- The deeds between two heaps. Each finds the fields that the one before it has left. -/
inductive Story : Heap → List Deed → Heap → Prop
  | nil {h h' : Heap} (calm : h.Calm h') : Story h [] h'
  | cons {h h' : Heap} {deed : Deed} {deeds : List Deed} (calm : h.Calm deed.machine.heap)
      (founded : deed.Founded) (rest : Story deed.made deeds h') : Story h (deed :: deeds) h'

namespace Story

variable {deed : Deed} {deeds more : List Deed}

theorem from_earlier (first : h.Calm h₁) (story : Story h₁ deeds h₂) : Story h deeds h₂ := by
  cases story with
  | nil calm => exact .nil (first.trans calm)
  | cons calm founded rest => exact .cons (first.trans calm) founded rest

theorem append (first : Story h deeds h₁) (second : Story h₁ more h₂) :
    Story h (deeds ++ more) h₂ := by
  induction first with
  | nil calm => exact second.from_earlier calm
  | cons calm founded _ ih => exact .cons calm founded (ih second)

theorem lasts (story : Story h deeds h₁) : h.Lasts h₁ := by
  induction story with
  | nil calm => exact calm.toLasts
  | cons calm _ _ ih => exact (calm.toLasts.trans (Deed.lasts_made _)).trans ih

/-- What a deed made lasts. -/
theorem lasts_of_mem (story : Story h deeds h₁) (member : deed ∈ deeds) : deed.made.Lasts h₁ := by
  induction story with
  | nil => exact absurd member List.not_mem_nil
  | cons _ _ rest ih =>
    rcases List.mem_cons.mp member with rfl | further
    · exact rest.lasts
    · exact ih further

theorem founded (story : Story h deeds h₁) (member : deed ∈ deeds) : deed.Founded := by
  induction story with
  | nil => exact absurd member List.not_mem_nil
  | cons _ founded _ ih =>
    rcases List.mem_cons.mp member with rfl | further
    · exact founded
    · exact ih further

/-- A story is cut before a deed. -/
theorem before (story : Story h (deeds ++ deed :: more) h₁) :
    Story h deeds deed.machine.heap := by
  induction deeds generalizing h with
  | nil =>
    cases story with
    | cons calm _ _ => exact .nil calm
  | cons first deeds ih =>
    cases story with
    | cons calm founded rest => exact .cons calm founded (ih rest)

/-- **A field has the value that was last set**, or the one that it had. -/
theorem field?_eq (story : Story h deeds h₁) (i : Instance) (name : String) :
    h₁.field? i name = (Deed.lastSet deeds i name).or (h.field? i name) := by
  induction story with
  | nil calm => exact calm.field?_eq i name
  | cons calm founded _ ih =>
    rw [ih, Deed.field?_made founded, calm.field?_eq, Deed.lastSet_cons, Option.or_assoc]

end Story

end Lox
