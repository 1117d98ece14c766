import Lox.Proofs.Growth
import Lox.Proofs.Operations

/-!
# Forests of frames

Frames are created by themselves or inside a frame that is already there, and names are defined and
assigned in them. So every link leads to an older frame, every walk outwards ends, and the nearest
frame that binds a name is found both by the name and by the number of links up to it.

An assignment gives a value to a name that is bound, so afterwards every frame binds what it bound
before. The nearest frames therefore stay the same for all names and from all frames, whoever shares
them (`Heap.nearest_congr`), and only what is read from the one slot differs.
-/

set_option autoImplicit false

namespace Lox

namespace Heap

/-- The heaps that frames make: each is created by itself or inside another one, and names are
defined in them and assigned by name or by distance. -/
inductive Forest : Heap → Prop
  | empty : Forest .empty
  | root {h : Heap} (before : Forest h) : Forest (h.allocateFrame none .empty).2
  | child {h : Heap} {a : Address} (before : Forest h) (there : (h.frame? a).isSome = true) :
      Forest (h.allocateFrame (some a) .empty).2
  | define {h : Heap} {a : Address} (before : Forest h) (there : (h.frame? a).isSome = true)
      (name : String) (value : Value) : Forest (h.define a name value)
  | assign {h h' : Heap} {a : Address} {name : String} {value : Value} (before : Forest h)
      (there : (h.frame? a).isSome = true) (assigned : h.assign? a name value = some h') : Forest h'
  | assignAt {h h' : Heap} {a : Address} {distance : Nat} {name : String} {value : Value}
      (before : Forest h) (there : (h.frame? a).isSome = true)
      (assigned : h.assignAt? a distance name value = some h') : Forest h'

/-- From a frame outwards, `owner` is the nearest frame that binds a name, and `distance` links lead
to it. -/
inductive Nearest (h : Heap) (name : String) : Address → Nat → Address → Prop
  | here {a : Address} (binds : h.binds a name = true) : Nearest h name a 0 a
  | beyond {a outer owner : Address} {distance : Nat} (unbound : h.binds a name = false)
      (link : h.enclosing? a = some outer) (further : Nearest h name outer distance owner) :
      Nearest h name a (distance + 1) owner

/-- Whether every frame is linked to an older one. -/
def Linked (h : Heap) : Prop :=
  ∀ a outer, h.enclosing? a = some outer → outer < a

/-- Whether one heap is another one with a new value in the slot of a name that a frame binds. -/
structure Writes (h : Heap) (owner : Address) (name : String) (value : Value) (h' : Heap) :
    Prop where
  read (a : Address) (key : String) :
    h'.read? a key = if a = owner ∧ key = name then some value else h.read? a key
  links (a : Address) : h'.enclosing? a = h.enclosing? a
  size : h'.cells.size = h.cells.size

variable {h h' : Heap} {a b owner : Address} {distance : Nat} {name : String} {value : Value}

/-! ## Links lead to older frames -/

theorem linked_empty : Linked .empty := by
  intro a outer link
  cases link

theorem lt_size_of_enclosing? (link : h.enclosing? a = some b) : a < h.cells.size := by
  obtain ⟨frame, found, -⟩ := Option.bind_eq_some_iff.mp link
  exact lt_size_of_frame? found

theorem Linked.allocateFrame (linked : h.Linked) {outer? : Option Address}
    (older : ∀ outer, outer? = some outer → outer < h.cells.size) (bindings : Bindings Value) :
    (h.allocateFrame outer? bindings).2.Linked := by
  intro a outer link
  by_cases old : a < h.cells.size
  · have same : (h.allocateFrame outer? bindings).2.enclosing? a = h.enclosing? a := by
      unfold enclosing? Heap.allocateFrame
      rw [frame?_allocate h _ a old]
    exact linked a outer (same ▸ link)
  · have size : (h.allocateFrame outer? bindings).2.cells.size = h.cells.size + 1 :=
      Array.size_push _
    have below : a < h.cells.size + 1 := size ▸ lt_size_of_enclosing? link
    obtain rfl : a = h.cells.size := Nat.le_antisymm (Nat.le_of_lt_succ below) (Nat.not_lt.mp old)
    have new : (h.allocateFrame outer? bindings).2.enclosing? h.cells.size = outer? := by
      have found := frame?_allocateFrame h outer? bindings
      unfold enclosing?
      exact (congrArg (·.bind Frame.enclosing) found).trans rfl
    exact older outer (new.symm.trans link)

theorem Linked.define (linked : h.Linked) (a : Address) (name : String) (value : Value) :
    (h.define a name value).Linked := by
  intro b outer link
  rw [enclosing?_define] at link
  exact linked b outer link

theorem Forest.linked (forest : h.Forest) : h.Linked := by
  induction forest with
  | empty => exact linked_empty
  | root _ ih => exact ih.allocateFrame (fun _ none_ => by cases none_) _
  | child _ there ih =>
    obtain ⟨frame, found⟩ := Option.isSome_iff_exists.mp there
    refine ih.allocateFrame (fun outer same => ?_) _
    exact Option.some.inj same ▸ lt_size_of_frame? found
  | define _ _ name value ih => exact ih.define _ name value
  | assign _ _ assigned ih | assignAt _ _ assigned ih =>
    obtain ⟨owner, -, rfl⟩ := Option.map_eq_some_iff.mp assigned
    exact ih.define owner _ _

/-! ## The nearest frame -/

namespace Nearest

theorem binds (nearest : h.Nearest name a distance owner) : h.binds owner name = true := by
  induction nearest with
  | here binds => exact binds
  | beyond _ _ _ ih => exact ih

/-- So many links lead to it. -/
theorem outer? (nearest : h.Nearest name a distance owner) : h.outer? a distance = some owner := by
  induction nearest with
  | here => rfl
  | beyond _ link _ ih => rw [Heap.outer?, link, Option.bind_some, ih]

theorem unique {distance' : Nat} {owner' : Address} (first : h.Nearest name a distance owner)
    (second : h.Nearest name a distance' owner') : distance = distance' ∧ owner = owner' := by
  induction first generalizing distance' with
  | here binds =>
    cases second with
    | here => exact ⟨rfl, rfl⟩
    | beyond unbound => simp [binds] at unbound
  | beyond unbound link _ ih =>
    cases second with
    | here binds => simp [binds] at unbound
    | beyond _ link' further' =>
      obtain rfl := Option.some.inj (link.symm.trans link')
      obtain ⟨rfl, rfl⟩ := ih further'
      exact ⟨rfl, rfl⟩

end Nearest

/-- Where a frame does not bind a name, the nearest frame that does is that of the frame around. -/
theorem nearest_beyond_iff (unbound : h.binds a name = false) :
    (∃ distance, h.Nearest name a distance owner) ↔
      ∃ outer, h.enclosing? a = some outer ∧ ∃ distance, h.Nearest name outer distance owner := by
  constructor
  · rintro ⟨distance, nearest⟩
    cases nearest with
    | here binds => simp [unbound] at binds
    | beyond _ link further => exact ⟨_, link, _, further⟩
  · rintro ⟨outer, link, distance, further⟩
    exact ⟨distance + 1, .beyond unbound link further⟩

theorem nearest_here_iff (bound : h.binds a name = true) :
    (∃ distance, h.Nearest name a distance owner) ↔ a = owner := by
  constructor
  · rintro ⟨distance, nearest⟩
    exact (nearest.unique (.here bound)).2.symm
  · rintro rfl
    exact ⟨0, .here bound⟩

/-- With as many steps as there are addresses up to that of the frame, the walk finds the nearest
frame if there is one. -/
theorem ownerWithin_eq_some_iff (linked : h.Linked) {n : Nat} (enough : a < n) :
    h.ownerWithin name n a = some owner ↔ ∃ distance, h.Nearest name a distance owner := by
  induction n generalizing a with
  | zero => exact absurd enough (Nat.not_lt_zero a)
  | succ n ih =>
    rw [ownerWithin]
    cases bound : h.binds a name with
    | true => rw [if_pos rfl, nearest_here_iff bound, Option.some_inj]
    | false =>
      rw [if_neg Bool.false_ne_true, nearest_beyond_iff bound]
      cases link : h.enclosing? a with
      | none => simp
      | some outer =>
        -- The link leads to a lower address, so one step less is enough from there.
        have older : outer < a := linked a outer link
        have fewer : outer < n := Nat.lt_of_lt_of_le older (Nat.le_of_lt_succ enough)
        simp [ih fewer]

theorem owner?_eq_some_iff (linked : h.Linked) :
    h.owner? a name = some owner ↔ ∃ distance, h.Nearest name a distance owner :=
  ownerWithin_eq_some_iff linked (Nat.lt_succ_self a)

/-- The nearest frame is the frame itself, or else that of the frame around it. -/
theorem owner?_eq (linked : h.Linked) (a : Address) (name : String) :
    h.owner? a name =
      if h.binds a name then some a else (h.enclosing? a).bind (h.owner? · name) := by
  refine Option.ext fun owner => ?_
  rw [owner?_eq_some_iff linked]
  cases bound : h.binds a name with
  | true => rw [if_pos rfl, nearest_here_iff bound, Option.some_inj]
  | false =>
    rw [if_neg Bool.false_ne_true, nearest_beyond_iff bound, Option.bind_eq_some_iff]
    simp only [owner?_eq_some_iff linked]

/-- **A name is looked up** in the frame itself, or else from the frame around it. -/
theorem get?_eq (linked : h.Linked) (a : Address) (name : String) :
    h.get? a name =
      if h.binds a name then h.read? a name else (h.enclosing? a).bind (h.get? · name) := by
  rw [get?, owner?_eq linked]
  cases h.binds a name with
  | true => rw [if_pos rfl, if_pos rfl, Option.bind_some]
  | false =>
    rw [if_neg Bool.false_ne_true, if_neg Bool.false_ne_true, Option.bind_assoc]
    rfl

/-- **A name is assigned** in the frame itself, or else from the frame around it. -/
theorem assign?_eq (linked : h.Linked) (a : Address) (name : String) (value : Value) :
    h.assign? a name value =
      if h.binds a name then some (h.define a name value)
      else (h.enclosing? a).bind (h.assign? · name value) := by
  rw [assign?, owner?_eq linked]
  cases h.binds a name with
  | true => rw [if_pos rfl, if_pos rfl, Option.map_some]
  | false =>
    rw [if_neg Bool.false_ne_true, if_neg Bool.false_ne_true, Option.map_bind]
    rfl

theorem Nearest.get?_eq (linked : h.Linked) (nearest : h.Nearest name a distance owner) :
    h.get? a name = h.read? owner name := by
  rw [get?, (owner?_eq_some_iff linked).mpr ⟨distance, nearest⟩, Option.bind_some]

theorem Nearest.assign?_eq (linked : h.Linked) (nearest : h.Nearest name a distance owner)
    (value : Value) : h.assign? a name value = some (h.define owner name value) := by
  rw [assign?, (owner?_eq_some_iff linked).mpr ⟨distance, nearest⟩, Option.map_some]

/-! ## A frame at a distance -/

theorem isSome_read? (h : Heap) (a : Address) (name : String) :
    (h.read? a name).isSome = h.binds a name := by
  unfold read? binds
  cases h.frame? a <;> rfl

theorem getAt?_of_outer? (reached : h.outer? a distance = some owner) (name : String) :
    h.getAt? a distance name = h.read? owner name := by
  rw [getAt?, ownerAt?_eq name reached]
  cases bound : h.binds owner name with
  | true => rw [if_pos rfl, Option.bind_some]
  | false =>
    rw [if_neg Bool.false_ne_true, Option.bind_none]
    have unread := isSome_read? h owner name
    rw [bound, Option.isSome_eq_false_iff, Option.isNone_iff_eq_none] at unread
    exact unread.symm

theorem assignAt?_of_outer? (reached : h.outer? a distance = some owner) (name : String)
    (value : Value) :
    h.assignAt? a distance name value =
      if h.binds owner name then some (h.define owner name value) else none := by
  rw [assignAt?, ownerAt?_eq name reached]
  cases h.binds owner name <;> rfl

/-! ## What an assignment changes -/

theorem writes_define (bound : h.binds owner name = true) (value : Value) :
    h.Writes owner name value (h.define owner name value) where
  read a key := by
    obtain ⟨frame, found, -⟩ := binds_eq_true.mp bound
    rw [read?_define, found, Option.map_some]
    by_cases same : owner = a ∧ key = name
    · rw [if_pos same, if_pos ⟨same.1.symm, same.2⟩]
    · rw [if_neg same, if_neg fun both => same ⟨both.1.symm, both.2⟩]
  links a := enclosing?_define h owner a name value
  size := Array.size_modify

theorem Writes.binds (writes : h.Writes owner name value h') (bound : h.binds owner name = true)
    (a : Address) (key : String) : h'.binds a key = h.binds a key := by
  rw [← isSome_read?, ← isSome_read?, writes.read]
  by_cases slot : a = owner ∧ key = name
  · obtain ⟨rfl, rfl⟩ := slot
    rw [if_pos ⟨rfl, rfl⟩, isSome_read?, bound, Option.isSome_some]
  · rw [if_neg slot]

/-- **The nearest frames stay the same** where frames bind and are linked as before. -/
theorem nearest_congr (binds : ∀ a key, h'.binds a key = h.binds a key)
    (links : ∀ a, h'.enclosing? a = h.enclosing? a) {key : String} :
    h'.Nearest key a distance owner ↔ h.Nearest key a distance owner := by
  constructor
  · intro nearest
    induction nearest with
    | here bound => exact .here (binds _ _ ▸ bound)
    | beyond unbound link _ ih => exact .beyond (binds _ _ ▸ unbound) (links _ ▸ link) ih
  · intro nearest
    induction nearest with
    | here bound => exact .here (binds _ _ ▸ bound)
    | beyond unbound link _ ih =>
      exact .beyond ((binds _ _).trans unbound) ((links _).trans link) ih

section

variable (writes : h.Writes owner name value h') (bound : h.binds owner name = true)
include writes

/-- The walk outwards ends at the same frame. -/
theorem Writes.ancestor (a : Address) (distance : Nat) :
    h'.ancestor a distance = h.ancestor a distance := by
  induction distance generalizing a with
  | zero => rfl
  | succ distance ih =>
    rw [Heap.ancestor, Heap.ancestor, writes.links]
    cases h.enclosing? a with
    | none => rfl
    | some outer => exact ih outer

include bound

theorem Writes.owner? (linked : h.Linked) (a : Address) (key : String) :
    h'.owner? a key = h.owner? a key := by
  have linked' : h'.Linked := fun b outer link => linked b outer (writes.links b ▸ link)
  refine Option.ext fun found => ?_
  rw [owner?_eq_some_iff linked, owner?_eq_some_iff linked']
  exact exists_congr fun _ => nearest_congr (writes.binds bound) writes.links

/-- A name is looked up with the new value from the frames that lead to the slot, and all else as
before. -/
theorem Writes.get? (linked : h.Linked) (a : Address) (key : String) :
    ((∃ distance, h.Nearest name a distance owner) → h'.get? a name = some value) ∧
      (¬(key = name ∧ ∃ distance, h.Nearest name a distance owner) →
        h'.get? a key = h.get? a key) := by
  constructor
  · intro reaches
    have found := (owner?_eq_some_iff linked).mpr reaches
    rw [Heap.get?, writes.owner? bound linked, found, Option.bind_some, writes.read,
      if_pos ⟨rfl, rfl⟩]
  · intro elsewhere
    rw [Heap.get?, Heap.get?, writes.owner? bound linked]
    cases found : h.owner? a key with
    | none => rfl
    | some other =>
      rw [Option.bind_some, Option.bind_some, writes.read, if_neg]
      rintro ⟨rfl, rfl⟩
      exact elsewhere ⟨rfl, (owner?_eq_some_iff linked).mp found⟩

theorem Writes.getAt? (a : Address) (distance : Nat) (key : String) :
    h'.getAt? a distance key =
      if h.ancestor a distance = owner ∧ key = name then some value
      else h.getAt? a distance key := by
  unfold Heap.getAt? ownerAt?
  dsimp only
  rw [writes.ancestor, writes.binds bound]
  by_cases slot : h.ancestor a distance = owner ∧ key = name
  · obtain ⟨same, rfl⟩ := slot
    rw [same, bound, if_pos rfl, Option.bind_some, writes.read]
    simp
  · rw [if_neg slot]
    cases h.binds (h.ancestor a distance) key with
    | true => rw [if_pos rfl, Option.bind_some, Option.bind_some, writes.read, if_neg slot]
    | false => rfl

end

end Heap

/-- What a program assigns is assigned at the known distance from the current frame, or by name from
the globals; where that is refused nothing changes. -/
theorem Eval.assign_eq (id : NodeId) (name : Name) (value : Value) (m : Machine) :
    Eval.assign id name value m =
      match (match m.distances[id]? with
        | some distance => m.heap.assignAt? m.current distance name.lexeme value
        | none => m.heap.assign? m.globals name.lexeme value) with
      | some h => .ok () { m with heap := h }
      | none => .error (.error ⟨.undefinedVariable name.lexeme, name.line⟩) m := by
  unfold Eval.assign Machine.place?
  cases m.distances[id]? with
  | none =>
    dsimp only
    unfold Heap.assign?
    cases m.heap.owner? m.globals name.lexeme <;> rfl
  | some distance =>
    dsimp only
    unfold Heap.assignAt?
    cases m.heap.ownerAt? m.current distance name.lexeme <;> rfl

/-- **Variables are the same by name and by distance.** In every forest of frames, from every frame:

A name is looked up, and likewise assigned, in the frame itself if that binds it, and else from the
frame around. It can be assigned if and only if it can be looked up, and this is so if and only if some
frame from there outwards binds it. An assignment changes exactly the slot of the nearest such frame. Then
the name has the new value from exactly the frames from which that frame is the nearest, and all other
names and frames are looked up as before, by name and by distance.

At the distance of the nearest frame a name is looked up and assigned as by name. At any distance for
which there are links enough only the frame there is read or changed, and both fail if and only if it
does not bind the name.

What a running program assigns is assigned in one of these two ways, and if that fails the machine is
left as it was. -/
theorem variables_agree_by_name_and_distance {h : Heap} (forest : h.Forest) (a : Address)
    (name : String) (value : Value) :
    h.get? a name =
      (if h.binds a name then h.read? a name else (h.enclosing? a).bind (h.get? · name)) ∧
    h.assign? a name value =
      (if h.binds a name then some (h.define a name value)
      else (h.enclosing? a).bind (h.assign? · name value)) ∧
    (h.assign? a name value).isSome = (h.get? a name).isSome ∧
    ((h.get? a name).isSome = true ↔ ∃ distance owner, h.Nearest name a distance owner) ∧
    (∀ h', h.assign? a name value = some h' → ∃ distance owner,
      h.Nearest name a distance owner ∧ h.Writes owner name value h' ∧
      (∀ b, (∃ distance, h.Nearest name b distance owner) → h'.get? b name = some value) ∧
      (∀ b key, ¬(key = name ∧ ∃ distance, h.Nearest name b distance owner) →
        h'.get? b key = h.get? b key) ∧
      ∀ b distance key, h'.getAt? b distance key =
        if h.ancestor b distance = owner ∧ key = name then some value
        else h.getAt? b distance key) ∧
    (∀ distance owner, h.Nearest name a distance owner →
      h.getAt? a distance name = h.get? a name ∧
      h.assignAt? a distance name value = h.assign? a name value) ∧
    (∀ distance owner, h.outer? a distance = some owner →
      h.getAt? a distance name = h.read? owner name ∧
      (h.getAt? a distance name).isSome = h.binds owner name ∧
      (h.assignAt? a distance name value).isSome = h.binds owner name ∧
      ∀ h', h.assignAt? a distance name value = some h' → h.Writes owner name value h') ∧
    ∀ (m : Machine) (id : NodeId) (line : Nat), m.heap = h → m.globals = a →
      Eval.assign id ⟨name, line⟩ value m =
        match (match m.distances[id]? with
          | some distance => h.assignAt? m.current distance name value
          | none => h.assign? a name value) with
        | some h' => .ok () { m with heap := h' }
        | none => .error (.error ⟨.undefinedVariable name, line⟩) m := by
  have linked := forest.linked
  refine ⟨Heap.get?_eq linked a name, Heap.assign?_eq linked a name value, ?both, ?bound, ?written,
    fun distance owner nearest => ⟨?_, ?_⟩,
    fun distance owner reached => ⟨Heap.getAt?_of_outer? reached name, ?_, ?_, ?_⟩,
    fun m id line same globals => ?running⟩
  case both =>
    -- Both go by the owner of the name, and an owner binds it.
    unfold Heap.assign? Heap.get?
    cases found : h.owner? a name with
    | none => rfl
    | some owner =>
      rw [Option.bind_some, Heap.isSome_read?, Heap.binds_owner? found]
      rfl
  case bound =>
    constructor
    · intro found
      obtain ⟨value, found⟩ := Option.isSome_iff_exists.mp found
      obtain ⟨owner, here, -⟩ := Option.bind_eq_some_iff.mp found
      obtain ⟨distance, nearest⟩ := (Heap.owner?_eq_some_iff linked).mp here
      exact ⟨distance, owner, nearest⟩
    · rintro ⟨distance, owner, nearest⟩
      rw [nearest.get?_eq linked, Heap.isSome_read?, nearest.binds]
  case written =>
    intro h' assigned
    obtain ⟨owner, found, rfl⟩ := Option.map_eq_some_iff.mp assigned
    obtain ⟨distance, nearest⟩ := (Heap.owner?_eq_some_iff linked).mp found
    -- All that is said of the heap afterwards follows from which slot was written.
    have writes := Heap.writes_define nearest.binds value
    exact ⟨distance, owner, nearest, writes,
      fun b => (writes.get? nearest.binds linked b name).1,
      fun b key => (writes.get? nearest.binds linked b key).2, writes.getAt? nearest.binds⟩
  · rw [Heap.getAt?_of_outer? nearest.outer? name, nearest.get?_eq linked]
  · rw [Heap.assignAt?_of_outer? nearest.outer? name, nearest.assign?_eq linked, nearest.binds,
      if_pos rfl]
  · rw [Heap.getAt?_of_outer? reached, Heap.isSome_read?]
  · rw [Heap.assignAt?_of_outer? reached]
    cases h.binds owner name <;> rfl
  · intro h' assigned
    rw [Heap.assignAt?_of_outer? reached] at assigned
    obtain ⟨bound, same⟩ := Option.ite_none_right_eq_some.mp assigned
    exact Option.some.inj same ▸ Heap.writes_define bound value
  case running =>
    rw [Eval.assign_eq, same, globals]

/-- The globals and the frame inside them bind the same name; from a third frame inside the second, one
link out, the second is found. -/
theorem shadowed_variable_is_assigned :
    let globals := (Heap.empty.allocateFrame none .empty).2.define 0 "x" .nil
    let shadowing := (globals.allocateFrame (some 0) .empty).2.define 1 "x" .nil
    let h := (shadowing.allocateFrame (some 1) .empty).2
    h.Forest ∧ h.Nearest "x" 2 1 1 ∧
      h.assignAt? 2 1 "x" (.bool true) = h.assign? 2 "x" (.bool true) ∧
      ∃ h', h.assign? 2 "x" (.bool true) = some h' ∧ h.Writes 1 "x" (.bool true) h' ∧
        h'.get? 2 "x" = some (.bool true) ∧ h'.get? 1 "x" = some (.bool true) ∧
        h'.get? 0 "x" = some .nil := by
  intro globals shadowing h
  have forest : h.Forest := .child (.define (.child (.define (.root .empty) rfl _ _) rfl) rfl _ _) rfl
  have nearest : h.Nearest "x" 2 1 1 := .beyond rfl rfl (.here rfl)
  obtain ⟨-, -, both, bound, written, near, -⟩ :=
    variables_agree_by_name_and_distance forest 2 "x" (.bool true)
  have found : (h.assign? 2 "x" (.bool true)).isSome = true := both.trans (bound.mpr ⟨1, 1, nearest⟩)
  obtain ⟨h', assigned⟩ := Option.isSome_iff_exists.mp found
  obtain ⟨distance, owner, nearest', writes, reached, other, -⟩ := written h' assigned
  obtain ⟨-, rfl⟩ := nearest'.unique nearest
  refine ⟨forest, nearest, (near 1 1 nearest).2, h', assigned, writes, reached 2 ⟨1, nearest⟩,
    reached 1 ⟨0, .here rfl⟩, ?_⟩
  -- From the globals the name is found in their own frame.
  have unreached : ¬∃ distance, h.Nearest "x" 0 distance 1 := by
    rintro ⟨distance, nearest'⟩
    exact absurd (nearest'.unique (.here rfl)).2 (by decide)
  rw [other 0 "x" fun both => unreached both.2]
  rfl

end Lox
