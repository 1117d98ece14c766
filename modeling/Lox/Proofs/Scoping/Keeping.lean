import Lox.Proofs.Scoping.Frames
import Lox.Proofs.Scoping.Slots

/-!
# What a run keeps

A state is sound if all values in its heap are known, every use that was noted was met at a place
whose frames are those of its surroundings, and the frames of methods and classes held `this` and
`super` at that moment as they do now. The operations of the machine lead from sound states to
sound states. `Keeps` says this of a computation, together with what it may assume and what holds of
its result, and it is closed under sequencing: what is assumed of a place or of known values still
holds after a computation that declares nothing there.
-/

set_option autoImplicit false

namespace Lox

open Heap (nowhere)

/-- Whether something holds of every use that was noted, of the machine it was met in and of what
was noted before. -/
def EveryUse (holds : Access → Machine → List Event → Prop) : List Event → Prop
  | [] => True
  | .used access m :: earlier => holds access m earlier ∧ EveryUse holds earlier
  | .opened _ _ _ :: earlier => EveryUse holds earlier

theorem EveryUse.mono {holds holds' : Access → Machine → List Event → Prop} {events : List Event}
    (every : EveryUse holds events)
    (weaker : ∀ access m earlier, holds access m earlier → holds' access m earlier) :
    EveryUse holds' events := by
  induction events with
  | nil => trivial
  | cons event earlier ih =>
    cases event with
    | used access m => exact ⟨weaker access m earlier every.1, ih every.2⟩
    | opened => exact ih every

theorem EveryUse.and {first second : Access → Machine → List Event → Prop} {events : List Event}
    (left : EveryUse first events) (right : EveryUse second events) :
    EveryUse (fun access m earlier => first access m earlier ∧ second access m earlier) events := by
  induction events with
  | nil => trivial
  | cons event earlier ih =>
    cases event with
    | used access m => exact ⟨⟨left.1, right.1⟩, ih left.2 right.2⟩
    | opened => exact ih left right

/-- The scene of a machine of which something was noted. -/
def Machine.scene (m : Machine) (events : List Event) : Scene :=
  ⟨m.heap, events, m.globals⟩

/-- The scene of an observed machine. -/
def Observed.scene (s : Observed) : Scene :=
  s.machine.scene s.events

/-- Whether the globals stand by themselves. -/
def Machine.Rooted (m : Machine) : Prop :=
  ∃ bindings, m.heap.frame? m.globals = some ⟨bindings, none⟩

/-- One state leads to another. -/
structure Observed.Leads (growing : Address → Prop) (s s' : Observed) : Prop where
  control : s.machine.SameControl s'.machine
  scene : s.scene.Leads growing s'.scene

namespace Observed.Leads

variable {growing other : Address → Prop} {s s₁ s₂ : Observed}

theorem refl (growing : Address → Prop) (s : Observed) : s.Leads growing s :=
  ⟨.refl s.machine, .refl growing s.scene⟩

theorem trans (first : s.Leads growing s₁) (second : s₁.Leads growing s₂) : s.Leads growing s₂ :=
  ⟨first.control.trans second.control, first.scene.trans second.scene⟩

theorem weaken (leads : s.Leads growing s₁) (more : ∀ a, growing a → other a) : s.Leads other s₁ :=
  ⟨leads.control, leads.scene.weaken more⟩

theorem anywhere (leads : s.Leads nowhere s₁) : s.Leads growing s₁ :=
  leads.weaken fun _ => False.elim

end Observed.Leads

section

variable (uses : Use → Prop) (recorded : Use → Distances → Prop)

/-- Whether a use that was noted is a known one, with what is recorded of it, and was met at a place
whose frames are those of its surroundings. -/
def Located (access : Access) (m : Machine) (earlier : List Event) : Prop :=
  ∃ u, uses u ∧ u.access = access ∧ recorded u m.distances ∧ m.Rooted ∧
    Placed (m.scene earlier) u.around.declaring u.around.sites u.around.scopes m.current

/-- A state in which all values are known, all uses that were noted are located, and the frames of
methods and classes hold `this` and `super`, which no known use assigns. -/
structure Observed.Sound (s : Observed) : Prop where
  rooted : s.machine.Rooted
  cells : ∀ (a : Address) (cell : Cell), s.machine.heap.cells[a]? = some cell →
    cell.Known uses s.scene
  learned : ∀ u, uses u → recorded u s.machine.distances
  noted : EveryUse (Located uses recorded) s.events
  spared : ∀ u, uses u → u.access.assigns = true → Spared u.access.name
  holds : s.machine.heap.Holds s.events
  held : EveryUse (fun _ m earlier => m.heap.Holds earlier) s.events

/-- From a sound state a computation leads to sound states, and only frames in `growing` take new
names on the way. -/
def Keeps {α : Type} (growing : Address → Prop) (x : Traced α) (pre : Observed → Prop)
    (post : α → Observed → Prop) : Prop :=
  ∀ s, s.Sound uses recorded → pre s →
    match Traced.observed x s with
    | .ok a s' => s.Leads growing s' ∧ s'.Sound uses recorded ∧ post a s'
    | .error _ s' => s.Leads growing s' ∧ s'.Sound uses recorded

end

/-- Whether a property of states survives what declares nothing. -/
def Stable (holds : Observed → Prop) : Prop :=
  ∀ s s', s.Leads nowhere s' → holds s → holds s'

/-- The code that runs is placed at the frame `a`, which is the current one. -/
def At (sites : List Site) (scopes : List Scope) (declaring : Option String) (a : Address)
    (s : Observed) : Prop :=
  s.machine.current = a ∧ Placed s.scene declaring sites scopes a

section

variable {uses : Use → Prop} {recorded : Use → Distances → Prop}

theorem stable_at (sites : List Site) (scopes : List Scope) (declaring : Option String)
    (a : Address) : Stable (At sites scopes declaring a) :=
  fun _ _ leads holds => ⟨leads.control.current.trans holds.1, holds.2.mono leads.scene⟩

theorem stable_known (value : Value) : Stable fun s => value.Known uses s.scene :=
  fun _ _ leads known => known.mono leads.scene fun _ => id

theorem stable_allKnown (values : List Value) :
    Stable fun s => ∀ value ∈ values, value.Known uses s.scene :=
  fun _ _ leads known value member => (known value member).mono leads.scene fun _ => id

theorem Stable.and {P Q : Observed → Prop} (first : Stable P) (second : Stable Q) :
    Stable fun s => P s ∧ Q s :=
  fun s s' leads holds => ⟨first s s' leads holds.1, second s s' leads holds.2⟩

/-! ## Sequencing -/

section

variable {α β : Type} {growing other : Address → Prop} {x : Traced α} {f : α → Traced β}
  {pre pre' P : Observed → Prop} {mid : α → Observed → Prop} {post post' : β → Observed → Prop}

theorem keeps_pure {b : β} (holds : ∀ s, pre s → post b s) :
    Keeps uses recorded growing (pure b) pre post :=
  fun s sound given => ⟨.refl growing s, sound, holds s given⟩

theorem keeps_throw (stop : Stop) :
    Keeps uses recorded growing (Told.lift (throw stop)) pre post :=
  fun s sound _ => ⟨.refl growing s, sound⟩

/-- Where the same is noted of names and frames, the same is kept. -/
theorem Keeps.congr {x y : Traced β} (keeps : Keeps uses recorded growing x pre post)
    (same : ∀ s, Traced.observed y s = Traced.observed x s) :
    Keeps uses recorded growing y pre post := by
  intro s sound given
  rw [same]
  exact keeps s sound given

theorem Keeps.bind (first : Keeps uses recorded growing x pre mid)
    (second : ∀ a, Keeps uses recorded growing (f a) (mid a) post) :
    Keeps uses recorded growing (x >>= f) pre post := by
  intro s sound given
  have here := first s sound given
  rw [Traced.observed_bind]
  cases ends : Traced.observed x s with
  | error stop s₁ =>
    rw [ends] at here
    exact here
  | ok a s₁ =>
    rw [ends] at here
    obtain ⟨leads, sound₁, holds⟩ := here
    have there := second a s₁ sound₁ holds
    dsimp only
    cases ends' : Traced.observed (f a) s₁ with
    | error stop s₂ =>
      rw [ends'] at there
      exact ⟨leads.trans there.1, there.2⟩
    | ok b s₂ =>
      rw [ends'] at there
      exact ⟨leads.trans there.1, there.2⟩

theorem Keeps.weaken {y : Traced β} (keeps : Keeps uses recorded growing y pre post)
    (more : ∀ a, growing a → other a) (given : ∀ s, pre' s → pre s)
    (holds : ∀ b s, post b s → post' b s) : Keeps uses recorded other y pre' post' := by
  intro s sound assumed
  have here := keeps s sound (given s assumed)
  cases ends : Traced.observed y s with
  | error stop s₁ =>
    rw [ends] at here
    exact ⟨here.1.weaken more, here.2⟩
  | ok b s₁ =>
    rw [ends] at here
    exact ⟨here.1.weaken more, here.2.1, holds b s₁ here.2.2⟩

theorem Keeps.given {y : Traced β} (keeps : Keeps uses recorded growing y pre post)
    (given : ∀ s, pre' s → pre s) : Keeps uses recorded growing y pre' post :=
  keeps.weaken (fun _ => id) given fun _ _ => id

/-- The notes around an expression or a statement are no events. -/
theorem Keeps.enclosed {before : Machine → Note} {after : Option β → Machine → Note} {y : Traced β}
    (keeps : Keeps uses recorded growing y pre post) (silent : ∀ m, (before m).event? = none)
    (silent' : ∀ b m, (after b m).event? = none) :
    Keeps uses recorded growing (Told.enclosed before after y) pre post :=
  keeps.congr (Traced.observed_enclosed silent silent' y)

/-- Nor are all notes within it. -/
theorem Keeps.after_note {tell : Machine → Note} {y : Traced β}
    (keeps : Keeps uses recorded growing y pre post) (silent : ∀ m, (tell m).event? = none) :
    Keeps uses recorded growing (Told.note tell >>= fun _ => y) pre post :=
  keeps.congr (Traced.observed_note_bind silent y)

/-- What survives holds after a computation as before. -/
theorem Keeps.carry (stable : Stable P) (keeps : Keeps uses recorded nowhere x pre mid) :
    Keeps uses recorded nowhere x (fun s => P s ∧ pre s) fun a s => P s ∧ mid a s := by
  intro s sound given
  have here := keeps s sound given.2
  cases ends : Traced.observed x s with
  | error stop s₁ =>
    rw [ends] at here
    exact here
  | ok a s₁ =>
    rw [ends] at here
    exact ⟨here.1, here.2.1, stable s s₁ here.1 given.1, here.2.2⟩

/-- A sequence whose first part declares nothing: what survives it holds for the second. -/
theorem Keeps.bind_carry (stable : Stable P) (first : Keeps uses recorded nowhere x pre mid)
    (given : ∀ s, pre s → P s)
    (second : ∀ a, Keeps uses recorded growing (f a) (fun s => P s ∧ mid a s) post) :
    Keeps uses recorded growing (x >>= f) pre post :=
  .bind ((first.carry stable).weaken (fun _ => False.elim) (fun s holds => ⟨given s holds, holds⟩)
    fun _ _ => id) second

/-- A sequence whose first part declares nothing: what it assumed still holds for the second. -/
theorem Keeps.then (stable : Stable P) (first : Keeps uses recorded nowhere x P mid)
    (second : ∀ a, Keeps uses recorded growing (f a) (fun s => P s ∧ mid a s) post) :
    Keeps uses recorded growing (x >>= f) P post :=
  first.bind_carry stable (fun _ => id) second

end

/-! ## Operations -/

section

variable {α : Type} {growing : Address → Prop} {pre : Observed → Prop}
  {post : α → Observed → Prop}

/-- An operation that changes nothing. -/
theorem keeps_reading {x : Eval α}
    (ends : ∀ s, s.Sound uses recorded → pre s →
      (∃ a, x s.machine = .ok a s.machine ∧ post a s) ∨
        ∃ stop, x s.machine = .error stop s.machine) :
    Keeps uses recorded growing (Told.lift x) pre post := by
  intro s sound given
  unfold Traced.observed Told.lift
  rcases ends s sound given with ⟨a, same, holds⟩ | ⟨stop, same⟩
  · rw [same]
    exact ⟨.refl growing s, sound, holds⟩
  · rw [same]
    exact ⟨.refl growing s, sound⟩

theorem keeps_fail (cause : RuntimeError.Cause) (line : Nat) :
    Keeps uses recorded growing (Told.lift (Eval.fail cause line)) pre post :=
  keeps_reading fun _ _ _ => .inr ⟨_, rfl⟩

theorem keeps_orFail (line : Nat) (result : Except RuntimeError.Cause α)
    (holds : ∀ a, result = .ok a → ∀ s, pre s → post a s) :
    Keeps uses recorded growing (Told.lift (Eval.orFail line result)) pre post := by
  cases result with
  | ok a => exact keeps_reading fun s _ given => .inl ⟨a, rfl, holds a rfl s given⟩
  | error cause => exact keeps_fail cause line

end

namespace Observed.Sound

variable {s : Observed} {growing : Address → Prop}

theorem read? (sound : s.Sound uses recorded) {a : Address} {name : String} {value : Value}
    (found : s.machine.heap.read? a name = some value) : value.Known uses s.scene := by
  unfold Heap.read? at found
  cases here : s.machine.heap.frame? a with
  | none =>
    rw [here] at found
    cases found
  | some frame =>
    rw [here] at found
    exact sound.cells a _ (Heap.frame?_eq_some.mp here) name value found

theorem field? (sound : s.Sound uses recorded) {i : Instance} {name : String} {value : Value}
    (found : s.machine.heap.field? i name = some value) : value.Known uses s.scene := by
  unfold Heap.field? at found
  cases here : s.machine.heap.fields? i.id with
  | none =>
    rw [here] at found
    cases found
  | some fields =>
    rw [here] at found
    exact sound.cells i.id _ (Heap.fields?_eq_some.mp here) name value found

/-- Only the heap, the globals and the table of a machine matter. -/
theorem elsewhere (sound : s.Sound uses recorded) {m : Machine} (heap : m.heap = s.machine.heap)
    (globals : m.globals = s.machine.globals) (distances : m.distances = s.machine.distances) :
    Sound uses recorded ⟨m, s.events⟩ := by
  obtain ⟨rooted, cells, learned, noted, spared, holds, held⟩ := sound
  unfold Machine.Rooted at rooted
  unfold scene Machine.scene at cells
  rw [← heap, ← globals] at rooted cells
  rw [← distances] at learned
  rw [← heap] at holds
  exact ⟨rooted, cells, learned, noted, spared, holds, held⟩

/-- The heap may grow by cells that hold known values, and what is held for `this` and `super` is
retained. -/
theorem grow (sound : s.Sound uses recorded) {heap : Heap}
    (grows : s.machine.heap.Grows growing heap) (retains : s.machine.heap.Retains heap)
    (cells : ∀ (a : Address) (cell : Cell), heap.cells[a]? = some cell →
      s.machine.heap.cells[a]? = some cell ∨
        cell.Known uses ⟨heap, s.events, s.machine.globals⟩) :
    s.Leads growing ⟨{ s.machine with heap := heap }, s.events⟩ ∧
      Sound uses recorded ⟨{ s.machine with heap := heap }, s.events⟩ := by
  have leads : s.scene.Leads growing ⟨heap, s.events, s.machine.globals⟩ :=
    ⟨grows, List.suffix_refl _, rfl⟩
  refine ⟨⟨⟨rfl, rfl, rfl, rfl, rfl, rfl⟩, leads⟩, ?_, ?_, sound.learned, sound.noted,
    sound.spared, sound.holds.retain retains, sound.held⟩
  · obtain ⟨bindings, found⟩ := sound.rooted
    obtain ⟨⟨bindings', around⟩, found', link, -⟩ := grows _ _ found
    obtain rfl : around = none := link
    exact ⟨bindings', found'⟩
  · intro a cell found
    rcases cells a cell found with old | new
    · exact (sound.cells a cell old).mono leads fun _ => id
    · exact new

theorem allocate (sound : s.Sound uses recorded) (cell : Cell) (known : cell.Known uses s.scene) :
    s.Leads nowhere ⟨{ s.machine with heap := (s.machine.heap.allocate cell).2 }, s.events⟩ ∧
      Sound uses recorded
        ⟨{ s.machine with heap := (s.machine.heap.allocate cell).2 }, s.events⟩ := by
  have grows := Heap.Grows.allocate s.machine.heap cell
  have leads : s.scene.Leads nowhere
      ⟨(s.machine.heap.allocate cell).2, s.events, s.machine.globals⟩ :=
    ⟨grows, List.suffix_refl _, rfl⟩
  refine sound.grow grows (.allocate _ cell) fun a found holds => ?_
  rw [Heap.cells_allocate] at holds
  split at holds
  · obtain rfl := Option.some.inj holds
    exact .inr (known.mono leads fun _ => id)
  · exact .inl holds

/-- A value may be bound to a name other than `this` and `super` if it is known once it is bound. -/
theorem define (sound : s.Sound uses recorded) {a : Address} {name : String} {value : Value}
    (spared : Spared name)
    (grows : s.machine.heap.Grows growing (s.machine.heap.define a name value))
    (known : value.Known uses
      ⟨s.machine.heap.define a name value, s.events, s.machine.globals⟩) :
    s.Leads growing ⟨{ s.machine with heap := s.machine.heap.define a name value }, s.events⟩ ∧
      Sound uses recorded
        ⟨{ s.machine with heap := s.machine.heap.define a name value }, s.events⟩ := by
  have leads : s.scene.Leads growing
      ⟨s.machine.heap.define a name value, s.events, s.machine.globals⟩ :=
    ⟨grows, List.suffix_refl _, rfl⟩
  refine sound.grow grows (.define _ a spared value) fun b found holds => ?_
  rw [Heap.cells_define] at holds
  split at holds
  · obtain ⟨cell, here, rfl⟩ := Option.map_eq_some_iff.mp holds
    have before := (sound.cells b cell here).mono leads fun _ => id
    cases cell with
    | frame frame => exact .inr (Bindings.forall_set before known)
    | fields fields => exact .inl here
    | identity => exact .inl here
  · exact .inl holds

theorem setField (sound : s.Sound uses recorded) (i : Instance) (name : String) {value : Value}
    (known : value.Known uses s.scene) :
    s.Leads nowhere ⟨{ s.machine with heap := s.machine.heap.setField i name value }, s.events⟩ ∧
      Sound uses recorded
        ⟨{ s.machine with heap := s.machine.heap.setField i name value }, s.events⟩ := by
  have grows := Heap.Grows.setField s.machine.heap i name value
  have leads : s.scene.Leads nowhere
      ⟨s.machine.heap.setField i name value, s.events, s.machine.globals⟩ :=
    ⟨grows, List.suffix_refl _, rfl⟩
  refine sound.grow grows (.setField _ i name value) fun b found holds => ?_
  rw [Heap.cells_setField] at holds
  split at holds
  · obtain ⟨cell, here, rfl⟩ := Option.map_eq_some_iff.mp holds
    have before := (sound.cells b cell here).mono leads fun _ => id
    cases cell with
    | frame frame => exact .inl here
    | fields fields => exact .inr (Bindings.forall_set before (known.mono leads fun _ => id))
    | identity => exact .inl here
  · exact .inl holds

/-- A frame that was opened may be noted if it holds what belongs there. -/
theorem opened (sound : s.Sound uses recorded) (site : Site) (frame around : Address)
    (here : s.machine.heap.HoldsAt (.opened site frame around :: s.events) frame around site) :
    s.Leads nowhere ⟨s.machine, .opened site frame around :: s.events⟩ ∧
      Sound uses recorded ⟨s.machine, .opened site frame around :: s.events⟩ := by
  have leads : s.Leads nowhere ⟨s.machine, .opened site frame around :: s.events⟩ :=
    ⟨.refl s.machine, .note nowhere s.scene _⟩
  exact ⟨leads, sound.rooted, fun a cell found => (sound.cells a cell found).mono leads.scene
    fun _ => id, sound.learned, sound.noted, sound.spared, sound.holds.opened here, sound.held⟩

end Observed.Sound

/-- A use may be noted at a place whose frames are those of its surroundings. -/
theorem keeps_used {access : Access} {sites : List Site} {scopes : List Scope}
    {declaring : Option String} {a : Address} (known : uses ⟨access, sites, scopes, declaring⟩) :
    Keeps uses recorded nowhere (Told.note (.uses access)) (At sites scopes declaring a)
      fun _ s => ∃ before, s.events = .used access s.machine :: before := by
  intro s sound place
  have leads : s.Leads nowhere ⟨s.machine, .used access s.machine :: s.events⟩ :=
    ⟨.refl s.machine, .note nowhere s.scene _⟩
  refine ⟨leads, ⟨sound.rooted, fun a cell found => (sound.cells a cell found).mono leads.scene
    fun _ => id, sound.learned, ⟨?_, sound.noted⟩, sound.spared, sound.holds.used access _,
    ⟨sound.holds, sound.held⟩⟩, _, rfl⟩
  exact ⟨_, known, rfl, sound.learned _ known, sound.rooted, place.1 ▸ place.2⟩

end

end Lox
