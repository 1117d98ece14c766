import Lox.Proofs.Growth
import Lox.Proofs.Trace

/-!
# What `this` and `super` are bound to

The frame in which a method is bound holds the receiver, and the frame around the methods of a class
holds the superclass that the class statement has just looked up. Nothing else is ever put there:
programs bind and assign names that are identifiers, and `this` and `super` are none. So what these
frames hold when they are opened they hold for good (`Heap.Holds`).
-/

set_option autoImplicit false

namespace Lox

/-- Whether a name is neither `this` nor `super`. -/
def Spared (name : String) : Prop :=
  name ≠ "this" ∧ name ≠ "super"

theorem Name.IsIdentifier.spared {name : Name} (identifier : name.IsIdentifier) :
    Spared name.lexeme :=
  ⟨identifier.ne_this, identifier.ne_super⟩

namespace Heap

/-- A frame that was opened with one name holds its value. -/
theorem read?_single {h : Heap} {a : Address} {name : String} {value : Value}
    {around : Option Address}
    (found : h.frame? a = some ⟨Bindings.empty.set name value, around⟩) :
    h.read? a name = some value := by
  rw [read?, found, Option.bind_some, Bindings.find?_set, beq_self_eq_true, if_pos rfl]

/-- Whether what one heap has for `this` and `super` is the same in another. -/
def Retains (h h' : Heap) : Prop :=
  ∀ a name value, ¬Spared name → h.read? a name = some value → h'.read? a name = some value

namespace Retains

theorem refl (h : Heap) : h.Retains h := fun _ _ _ _ found => found

theorem trans {h₁ h₂ h₃ : Heap} (first : h₁.Retains h₂) (second : h₂.Retains h₃) :
    h₁.Retains h₃ :=
  fun a name value kept found => second a name value kept (first a name value kept found)

theorem allocate (h : Heap) (cell : Cell) : h.Retains (h.allocate cell).2 := by
  intro a name value _ found
  obtain ⟨frame, here, holds⟩ := Option.bind_eq_some_iff.mp found
  rw [read?, frame?_allocate h cell a (lt_size_of_frame? here), here]
  exact holds

theorem define (h : Heap) (a : Address) {name : String} (spared : Spared name) (value : Value) :
    h.Retains (h.define a name value) := by
  intro b key old kept found
  -- What is defined is another name than those two, so they are read as before.
  have other : key ≠ name := fun same => kept (same ▸ spared)
  rw [read?_define, if_neg fun both => other both.2]
  exact found

theorem setField (h : Heap) (i : Instance) (name : String) (value : Value) :
    h.Retains (h.setField i name value) := by
  intro a key old _ found
  rw [read?, frame?_setField]
  exact found

end Retains

/-- Whether a frame that was opened for a site holds what belongs there: around the methods of a
class, the superclass that was looked up just before, and around a method that was bound, an
instance. -/
def HoldsAt (h : Heap) (events : List Event) (frame around : Address) : Site → Prop
  | .superclass name parent methods => ∃ m c before,
    .opened (.superclass name parent methods) frame around :: .used parent.access m :: before
        <:+ events ∧
      Eval.superclass? (some parent) m = .ok (some c) m ∧
      h.read? frame "super" = some (.class c)
  | .receiver _ => ∃ i, h.read? frame "this" = some (.instance i)
  | .block _ | .function _ => True

/-- Whether all frames that were opened hold what belongs there. -/
def Holds (h : Heap) (events : List Event) : Prop :=
  ∀ site frame around, .opened site frame around ∈ events → h.HoldsAt events frame around site

variable {h h' : Heap} {events events' : List Event}

theorem HoldsAt.mono {site : Site} {frame around : Address}
    (holds : h.HoldsAt events frame around site) (retains : h.Retains h')
    (later : events <:+ events') : h'.HoldsAt events' frame around site := by
  cases site with
  | superclass name parent methods =>
    obtain ⟨m, c, before, noted, evaluated, found⟩ := holds
    exact ⟨m, c, before, noted.trans later, evaluated,
      retains frame "super" _ (fun spared => spared.2 rfl) found⟩
  | receiver method =>
    obtain ⟨i, found⟩ := holds
    exact ⟨i, retains frame "this" _ (fun spared => spared.1 rfl) found⟩
  | block | function => trivial

theorem Holds.retain (holds : h.Holds events) (retains : h.Retains h') : h'.Holds events :=
  fun site frame around opened =>
    (holds site frame around opened).mono retains (List.suffix_refl _)

/-- A use that is noted opens no frame. -/
theorem Holds.used (holds : h.Holds events) (access : Access) (m : Machine) :
    h.Holds (.used access m :: events) := by
  intro site frame around opened
  have earlier := (List.mem_cons.mp opened).resolve_left nofun
  exact (holds site frame around earlier).mono (fun _ _ _ _ => id) (List.suffix_cons _ _)

/-- A frame may be opened if it holds what belongs there. -/
theorem Holds.opened (holds : h.Holds events) {site : Site} {frame around : Address}
    (here : h.HoldsAt (.opened site frame around :: events) frame around site) :
    h.Holds (.opened site frame around :: events) := by
  intro site' frame' around' opened
  rcases List.mem_cons.mp opened with same | earlier
  · cases same
    exact here
  · exact (holds site' frame' around' earlier).mono (fun _ _ _ _ => id) (List.suffix_cons _ _)

end Heap

end Lox
