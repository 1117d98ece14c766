import Lox.Proofs.Heaps.Soundness

/-!
# Walks end

Of a sound heap two things matter to a program. Nothing that it meets dangles: each reference is to a
cell of the right kind, and the links go to what is older (`Heap.WellFormed`). And so each walk along
them ends (`Heap.Walkable`): the one from a frame outwards at a frame that stands by itself, after no
more links than there are older addresses, and the one from a class upwards likewise.

The walk outwards is written with as many steps as there are addresses up to that of the frame. Since
it ends earlier, this is no bound on it: any larger number of steps finds the same, and looking a name
up and assigning it are what they are in each frame, or else in the frame around it.
-/

set_option autoImplicit false

namespace Lox

/-- Whether the links in a heap go to what is older, and nothing in it dangles. -/
structure Heap.WellFormed (h : Heap) : Prop where
  links : ∀ a outer, h.enclosing? a = some outer → outer < a ∧ h.kind? outer = some .frame
  supers : ∀ a value, h.read? a "super" = some value → ∃ c, value = .class c ∧ c.id < a
  superclasses : h.All fun value => ∀ c ∈ value.class?, c.Descends
  references : h.All (Value.Denotes h)

/-- Whether so many links lead from a frame to one that stands by itself, and to no other. -/
structure Heap.EndsAfter (h : Heap) (a : Address) (n : Nat) : Prop where
  last : ∃ root, h.outer? a n = some root ∧ h.enclosing? root = none
  /-- A frame at a distance is found along these links. -/
  ancestor : ∀ distance, h.outer? a (min distance n) = some (h.ancestor a distance)
  /-- More steps than there are links find nothing else. -/
  owner : ∀ name steps, n < steps → h.ownerWithin name steps a = h.owner? a name

/-- Whether all walks in a heap end. -/
structure Heap.Walkable (h : Heap) : Prop where
  ends : ∀ a, ∃ n ≤ a, h.EndsAfter a n
  get : ∀ a name, h.get? a name =
    if h.binds a name then h.read? a name else (h.enclosing? a).bind (h.get? · name)
  assign : ∀ a name value, h.assign? a name value =
    if h.binds a name then some (h.define a name value)
    else (h.enclosing? a).bind (h.assign? · name value)
  methods : h.All fun value => ∀ c ∈ value.class?, c.lineage.length ≤ c.id + 1 ∧
    ∀ name, c.method? name = c.lineage.findSome? (·.own? name)

namespace Heap

variable {h : Heap} {a root : Address} {n : Nat}

theorem Sound.wellFormed {o : Origin} (sound : h.Sound o) : h.WellFormed where
  links _ _ link := ⟨sound.linked _ _ link, sound.kind?_enclosing link⟩
  supers _ _ bound := sound.supers bound
  superclasses := sound.all.imp fun _ sound => sound.descends
  references := sound.all.imp fun _ sound => sound.denotes

/-- The first link of a walk leads to a walk that is shorter by it. -/
theorem outer?_succ {outer : Address} (link : h.enclosing? a = some outer) (n : Nat) :
    h.outer? a (n + 1) = h.outer? outer n := by
  rw [outer?, link, Option.bind_some]

theorem ancestor_succ {outer : Address} (link : h.enclosing? a = some outer) (distance : Nat) :
    h.ancestor a (distance + 1) = h.ancestor outer distance := by
  rw [ancestor, link]

/-- The walk goes as far as it is told to, and not past its end. -/
theorem outer?_min (reached : h.outer? a n = some root) (last : h.enclosing? root = none)
    (distance : Nat) : h.outer? a (min distance n) = some (h.ancestor a distance) := by
  induction distance generalizing a n with
  | zero => rw [Nat.zero_min, outer?, ancestor]
  | succ distance ih =>
    cases n with
    | zero =>
      -- The root has no link, so both stay there.
      obtain rfl := Option.some.inj reached
      rw [Nat.min_zero, outer?, ancestor, last]
    | succ n =>
      obtain ⟨outer, link, further⟩ := Option.bind_eq_some_iff.mp reached
      rw [Nat.succ_min_succ, outer?_succ link, ancestor_succ link]
      exact ih further

/-- What is found does not depend on the number of steps, as long as the end is in reach. -/
theorem ownerWithin_congr (reached : h.outer? a n = some root) (last : h.enclosing? root = none)
    (name : String) {steps steps' : Nat} (enough : n < steps) (enough' : n < steps') :
    h.ownerWithin name steps a = h.ownerWithin name steps' a := by
  induction n generalizing a steps steps' with
  | zero =>
    obtain rfl := Option.some.inj reached
    obtain ⟨k, rfl⟩ := Nat.exists_eq_succ_of_ne_zero (Nat.ne_of_gt enough)
    obtain ⟨k', rfl⟩ := Nat.exists_eq_succ_of_ne_zero (Nat.ne_of_gt enough')
    rw [ownerWithin, ownerWithin, last]
  | succ n ih =>
    obtain ⟨outer, link, further⟩ := Option.bind_eq_some_iff.mp reached
    obtain ⟨k, rfl⟩ := Nat.exists_eq_succ_of_ne_zero (Nat.ne_zero_of_lt enough)
    obtain ⟨k', rfl⟩ := Nat.exists_eq_succ_of_ne_zero (Nat.ne_zero_of_lt enough')
    rw [ownerWithin, ownerWithin, link]
    dsimp only
    rw [ih further (Nat.lt_of_succ_lt_succ enough) (Nat.lt_of_succ_lt_succ enough')]

namespace WellFormed

/-- The links lead to a frame that stands by itself: each one leads to a lower address. -/
theorem exists_root (formed : h.WellFormed) (a : Address) :
    ∃ n ≤ a, ∃ root, h.outer? a n = some root ∧ h.enclosing? root = none := by
  induction a using Nat.strong_induction_on with
  | _ a ih =>
    cases link : h.enclosing? a with
    | none => exact ⟨0, Nat.zero_le a, a, rfl, link⟩
    | some outer =>
      have older : outer < a := (formed.links a outer link).1
      obtain ⟨n, least, root, reached, last⟩ := ih outer older
      exact ⟨n + 1, Nat.lt_of_le_of_lt least older, root, (outer?_succ link n).trans reached, last⟩

theorem walkable (formed : h.WellFormed) : h.Walkable := by
  have linked : h.Linked := fun a outer link => (formed.links a outer link).1
  refine ⟨fun a => ?_, get?_eq linked, assign?_eq linked, ?_⟩
  · obtain ⟨n, least, root, reached, last⟩ := formed.exists_root a
    exact ⟨n, least, ⟨root, reached, last⟩, outer?_min reached last, fun name steps enough =>
      ownerWithin_congr reached last name enough (Nat.lt_succ_of_le least)⟩
  · exact formed.superclasses.imp fun value descends c own =>
      ⟨c.length_lineage_le (descends c own), c.method?_eq⟩

end WellFormed

end Heap

end Lox
