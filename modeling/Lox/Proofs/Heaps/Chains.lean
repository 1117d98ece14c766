import Lox.Proofs.Heaps.Happenings

/-!
# From one happening to the next

Each happening finds a sound machine, whose heap keeps the cells of all earlier ones. A creation takes
the next addresses, those at which no heap had a cell before, and nothing else takes any. So the
happenings of a run make a chain from the heap that it starts with to the heap that it leaves
(`Chain`), and the addresses that are taken along it are consecutive (`Chain.taken`).

`Traced.Chronicled` says of a traced computation that what happens in it makes such a chain. It is
stated from a heap onwards, since the values that a computation is given are known from some earlier
heap, and stay sound in all later ones.
-/

set_option autoImplicit false

namespace Lox

/-! ## Chains of happenings -/

/-- Whether a run may come across a machine: its heap is sound, and it stands in a frame. -/
structure Machine.Sound (o : Origin) (m : Machine) : Prop where
  heap : m.heap.Sound o
  globals : m.heap.kind? m.globals = some .frame
  current : m.heap.kind? m.current = some .frame

/-- Whether a happening leads to a heap: it takes the cells at the next addresses, and the value that
comes up may be found there. -/
structure Happening.Makes (o : Origin) (x : Happening) (h : Heap) : Prop where
  gains : x.machine.heap.Gains x.addresses.length h
  next : x.addresses = List.range' x.machine.heap.cells.size x.addresses.length
  taken : ∀ a kind, (a, kind) ∈ x.cells → h.kind? a = some kind
  value : ∀ value ∈ x.value?, value.Sound o h

/-- The happenings between two heaps: each finds a sound machine with the cells that there were, and
makes what the next one finds. -/
inductive Chain (o : Origin) : Heap → List Happening → Heap → Prop
  | nil {h h' : Heap} (still : h.Gains 0 h') : Chain o h [] h'
  | cons {h h₁ h' : Heap} {x : Happening} {xs : List Happening}
      (still : h.Gains 0 x.machine.heap) (sound : x.machine.Sound o) (makes : x.Makes o h₁)
      (rest : Chain o h₁ xs h') : Chain o h (x :: xs) h'

namespace Machine.Sound

variable {o : Origin} {m : Machine}

/-- A machine may go on with a later heap. -/
theorem withHeap (sound : m.Sound o) {h : Heap} (keeps : m.heap.Keeps h) (later : h.Sound o) :
    Machine.Sound o { m with heap := h } :=
  ⟨later, keeps _ _ sound.globals, keeps _ _ sound.current⟩

/-- A machine may go on in another frame. -/
theorem inFrame (sound : m.Sound o) {frame : Address} (taken : m.heap.kind? frame = some .frame) :
    Machine.Sound o { m with current := frame } :=
  ⟨sound.heap, sound.globals, taken⟩

end Machine.Sound

namespace Chain

variable {o : Origin} {h h₁ h₂ : Heap} {xs ys : List Happening} {x : Happening}

theorem from_earlier (still : h.Gains 0 h₁) (chain : Chain o h₁ xs h₂) : Chain o h xs h₂ := by
  cases chain with
  | nil still' => exact .nil (still.trans still')
  | cons still' sound makes rest => exact .cons (still.trans still') sound makes rest

theorem append (first : Chain o h xs h₁) (second : Chain o h₁ ys h₂) :
    Chain o h (xs ++ ys) h₂ := by
  induction first with
  | nil still => exact second.from_earlier still
  | cons still sound makes _ ih => exact .cons still sound makes (ih second)

/-- **Addresses are taken one after another**, and those of the happenings are all that are. -/
theorem taken (chain : Chain o h xs h₁) :
    ∃ n, h.Gains n h₁ ∧ xs.flatMap Happening.addresses = List.range' h.cells.size n := by
  induction chain with
  | nil still => exact ⟨0, still, rfl⟩
  | @cons h h₁ h' x xs still _ makes _ ih =>
    obtain ⟨n, gains, same⟩ := ih
    -- Between two happenings no cell is taken, so the next address is where the last one left off.
    have size : x.machine.heap.cells.size = h.cells.size := still.size
    refine ⟨x.addresses.length + n, ?_, ?_⟩
    · exact Nat.zero_add (x.addresses.length + n) ▸ still.trans (makes.gains.trans gains)
    · rw [List.flatMap_cons, same, makes.next, makes.gains.size, size, List.length_range',
        List.range'_append_1]

theorem keeps (chain : Chain o h xs h₁) : h.Keeps h₁ := by
  obtain ⟨n, gains, -⟩ := chain.taken
  exact gains.keeps

/-- A chain is cut at a happening. -/
theorem split (chain : Chain o h (xs ++ x :: ys) h₂) :
    ∃ h₁, Chain o h xs x.machine.heap ∧ x.machine.Sound o ∧ x.Makes o h₁ ∧ Chain o h₁ ys h₂ := by
  induction xs generalizing h with
  | nil =>
    cases chain with
    | cons still sound makes rest => exact ⟨_, .nil still, sound, makes, rest⟩
  | cons first xs ih =>
    cases chain with
    | cons still sound makes rest =>
      obtain ⟨h₁, before, here⟩ := ih rest
      exact ⟨h₁, .cons still sound makes before, here⟩

/-- All machines along a chain are sound, and later heaps keep what was there and what came up. -/
theorem of_mem (chain : Chain o h xs h₁) (member : x ∈ xs) :
    x.machine.Sound o ∧
      (x.machine.heap.Keeps h₁ ∧ ∀ value ∈ x.value?, value.Sound o h₁) ∧
      ∀ a kind, (a, kind) ∈ x.cells → h₁.kind? a = some kind := by
  obtain ⟨before, later, rfl⟩ := List.append_of_mem member
  obtain ⟨h₂, -, sound, makes, rest⟩ := chain.split
  exact ⟨sound, ⟨makes.gains.keeps.trans rest.keeps,
    fun value up => (makes.value value up).mono rest.keeps⟩,
    fun a kind taken => rest.keeps a kind (makes.taken a kind taken)⟩

end Chain

/-! ## Computations that are told by their happenings -/

/-- Whether a computation creates something, and nothing else. -/
def Eval.Creates {α : Type} (o : Origin) (h : Heap) (fine : Heap → α → Prop) (x : Eval α)
    (creation : α → Creation) : Prop :=
  ∀ m : Machine, h.Keeps m.heap → m.Sound o → ∃ a h', x m = .ok a { m with heap := h' } ∧
    h'.Sound o ∧ Happening.Makes o (.creates (creation a) m) h' ∧ fine h' a

namespace Traced

variable {α β : Type}

/-- A result that is reached by happenings from a heap. -/
def Arrives (o : Origin) (fine : Heap → α → Prop) (h : Heap) (xs : List Happening) :
    EStateM.Result Stop Machine α → Prop
  | .ok a m => Chain o h xs m.heap ∧ m.Sound o ∧ fine m.heap a
  | .error _ m => Chain o h xs m.heap ∧ m.Sound o

/-- Whether the happenings of a computation lead to its result, on all sound machines whose heap
keeps the cells of a given one. -/
def Chronicled (o : Origin) (h : Heap) (fine : Heap → α → Prop) (x : Traced α) : Prop :=
  ∀ m : Machine, h.Keeps m.heap → m.Sound o →
    Arrives o fine m.heap (x.heard Note.happening? m) (x.plain m)

variable {o : Origin} {h h' : Heap} {fine : Heap → α → Prop} {good : Heap → β → Prop} {x : Traced α}
  {f : α → Traced β} {xs ys : List Happening} {result : EStateM.Result Stop Machine α}

theorem Arrives.onMachine (arrives : Arrives o fine h xs result) {change : Machine → Machine}
    (heap : ∀ m, (change m).heap = m.heap)
    (sound : ∀ m, h.Keeps m.heap → m.Sound o → (change m).Sound o) :
    Arrives o fine h xs (Eval.onMachine change result) := by
  cases result with
  | ok a m =>
    obtain ⟨chain, before, holds⟩ := arrives
    show Chain o h xs (change m).heap ∧ (change m).Sound o ∧ fine (change m).heap a
    rw [heap]
    exact ⟨chain, sound m chain.keeps before, holds⟩
  | error stop m =>
    obtain ⟨chain, before⟩ := arrives
    show Chain o h xs (change m).heap ∧ (change m).Sound o
    rw [heap]
    exact ⟨chain, sound m chain.keeps before⟩

/-- What is reached from a place that was reached is reached. -/
theorem Arrives.from_chain (first : Chain o h xs h') (second : Arrives o fine h' ys result) :
    Arrives o fine h (xs ++ ys) result := by
  cases result with
  | ok a m => exact ⟨first.append second.1, second.2⟩
  | error stop m => exact ⟨first.append second.1, second.2⟩

namespace Chronicled

theorem mono (chronicled : Chronicled o h fine x) (keeps : h.Keeps h') : Chronicled o h' fine x :=
  fun m later sound => chronicled m (keeps.trans later) sound

/-- The second part may rely on what the first part gives, in all heaps that come later. -/
theorem bind (first : Chronicled o h fine x)
    (second : ∀ h' a, h.Keeps h' → fine h' a → Chronicled o h' good (f a)) :
    Chronicled o h good (x >>= f) := by
  intro m later sound
  have before := first m later sound
  rw [Told.heard_bind, Told.plain_bind, Eval.bind_eq]
  cases ran : x.plain m with
  | error stop m' =>
    rw [ran] at before
    dsimp only
    rw [List.append_nil]
    exact before
  | ok a m' =>
    rw [ran] at before
    obtain ⟨chain, sound', holds⟩ := before
    exact .from_chain chain
      (second m'.heap a (later.trans chain.keeps) holds m' (.refl m'.heap) sound')

/-- A note of which nothing is heard makes no difference. -/
theorem after_note {tell : Machine → Note} (silent : ∀ m, (tell m).happening? = none)
    (rest : Chronicled o h fine x) : Chronicled o h fine (Told.note tell >>= fun _ => x) := by
  intro m later sound
  rw [Told.heard_note_bind silent]
  exact rest m later sound

/-- What is created is there from then on. -/
theorem creating {y : Eval α} {creation : α → Creation} (creates : Eval.Creates o h fine y creation) :
    Chronicled o h fine (Told.telling y fun a => .creates (creation a)) := by
  intro m later sound
  obtain ⟨a, h', ran, sound', makes, holds⟩ := creates m later sound
  rw [Told.heard_telling, Told.plain_telling, ran]
  exact ⟨.cons (.refl m.heap) sound makes (.nil (.refl h')),
    sound.withHeap makes.gains.keeps sound', holds⟩

/-- Entering and leaving take no address. -/
theorem within {before : Machine → Note} {after : Option α → Machine → Note}
    {given? : Option α → Option Value} (entered : ∀ m, (before m).happening? = some (.enters m))
    (left : ∀ a m, (after a m).happening? = some (.leaves (given? a) m))
    (nothing : given? none = none)
    (given : ∀ h' a, fine h' a → ∀ value ∈ given? (some a), value.Sound o h')
    (inside : Chronicled o h fine x) : Chronicled o h fine (Told.enclosed before after x) := by
  intro m later sound
  have ended := inside m later sound
  have enters : Happening.Makes o (.enters m) m.heap := ⟨.refl m.heap, rfl, nofun, nofun⟩
  -- The machine that is left is the one of the result, which the inner happenings lead to already.
  have leaves {m' : Machine} {value? : Option Value} (chain : Chain o m.heap _ m'.heap)
      (sound' : m'.Sound o) (up : ∀ value ∈ value?, value.Sound o m'.heap) :
      Chain o m.heap (.enters m :: (x.heard Note.happening? m ++ [.leaves value? m'])) m'.heap :=
    .cons (.refl m.heap) sound enters (chain.append
      (.cons (.refl m'.heap) sound' ⟨.refl m'.heap, rfl, nofun, up⟩ (.nil (.refl m'.heap))))
  rw [Told.heard_enclosed, Told.plain_enclosed, List.filterMap_cons, entered]
  cases ran : x.plain m with
  | ok a m' =>
    rw [ran] at ended
    obtain ⟨chain, sound', holds⟩ := ended
    dsimp only
    rw [List.filterMap_cons, left]
    exact ⟨leaves chain sound' (given m'.heap a holds), sound', holds⟩
  | error stop m' =>
    rw [ran] at ended
    obtain ⟨chain, sound'⟩ := ended
    dsimp only
    rw [List.filterMap_cons, left, nothing]
    exact ⟨leaves chain sound' nofun, sound'⟩

theorem inFrame {frame : Address} (taken : h.kind? frame = some .frame)
    (inside : Chronicled o h fine x) : Chronicled o h fine (Told.inFrame frame x) := by
  intro m later sound
  rw [Told.plain_inFrame, Eval.inFrame_eq frame x.plain m]
  exact (inside { m with current := frame } later (sound.inFrame (later _ _ taken))).onMachine
    (fun _ => rfl) fun m' keeps sound' => sound'.inFrame (keeps _ _ sound.current)

theorem carryOut (site : CallSite) (callee : Value) (declaration : FunctionDecl)
    (inside : Chronicled o h fine x) :
    Chronicled o h fine (carryOut site callee declaration x) := by
  intro m later sound
  rcases carryOut_cases Note.happening? (fun _ _ _ => rfl) (fun _ _ => rfl) (fun _ => rfl) site
    callee declaration x m with ⟨nothing, same⟩ | ⟨heard, same⟩
  · rw [nothing, same]
    exact ⟨.nil (.refl m.heap), sound⟩
  · rw [heard, same]
    exact (inside { m with depth := m.depth + 1 } later ⟨sound.heap, sound.globals, sound.current⟩)
      |>.onMachine (fun _ => rfl) fun _ _ sound' => ⟨sound'.heap, sound'.globals, sound'.current⟩

end Chronicled

end Traced

end Lox
