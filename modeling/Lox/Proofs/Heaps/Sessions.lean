import Lox.Proofs.Heaps.Runs
import Lox.Proofs.Heaps.Walks
import Lox.Proofs.Origin.Sessions

/-!
# Heaps of sessions

The happenings of a session make one chain from the heap with which it begins, which holds the clock
and the globals, to the heap that it has after its inputs. So all machines that it reaches are sound,
also those that a failure leaves behind, and the addresses that it takes are those from the third one
on, each of them once. Whatever has come up before an address is taken does not refer to it: neither
a value in a heap, nor one that an expression has given and that is held nowhere.
-/

set_option autoImplicit false

namespace Lox

open Eval

variable {o : Origin} {m : Machine} {a : Address}

/-! ## What refers to an address -/

/-- Whether nothing in a machine refers to an address: no value that its heap holds, no link, and
neither of the frames in which it stands. -/
structure Machine.Free (m : Machine) (a : Address) : Prop where
  values : m.heap.All fun value => ¬value.RefersTo a
  links : ∀ b, m.heap.enclosing? b ≠ some a
  globals : m.globals ≠ a
  current : m.current ≠ a

/-- Whether a machine is well-formed: its heap is, and it stands in frames. -/
structure Machine.WellFormed (m : Machine) : Prop where
  heap : m.heap.WellFormed
  globals : m.heap.kind? m.globals = some .frame
  current : m.heap.kind? m.current = some .frame

theorem Heap.Keeps.size_le {h h' : Heap} (keeps : h.Keeps h') : h.cells.size ≤ h'.cells.size := by
  by_contra less
  have old : h'.cells.size < h.cells.size := Nat.not_le.mp less
  -- The cell at the first address that is missing would have been given up.
  have found : h.kind? h'.cells.size = some h.cells[h'.cells.size].kind := by
    rw [Heap.kind?, Array.getElem?_eq_getElem old, Option.map_some]
  exact absurd (Heap.lt_size_of_kind? (keeps _ _ found)) (Nat.lt_irrefl _)

theorem Value.Sound.not_refersTo {h : Heap} {value : Value} (sound : value.Sound o h)
    (new : h.cells.size ≤ a) : ¬value.RefersTo a := by
  rintro ⟨kind, refers⟩
  exact Nat.not_lt.mpr new (Heap.lt_size_of_kind? (sound.denotes a kind refers))

namespace Machine.Sound

theorem wellFormed (sound : m.Sound o) : m.WellFormed :=
  ⟨sound.heap.wellFormed, sound.globals, sound.current⟩

/-- Nothing refers to an address that has not been taken. -/
theorem free (sound : m.Sound o) (new : m.heap.cells.size ≤ a) : m.Free a := by
  have other {b : Address} {kind : Cell.Kind} (taken : m.heap.kind? b = some kind) : b ≠ a :=
    Nat.ne_of_lt (Nat.lt_of_lt_of_le (Heap.lt_size_of_kind? taken) new)
  exact ⟨sound.heap.all.imp fun _ sound => sound.not_refersTo new,
    fun _ link => other (sound.heap.kind?_enclosing link) rfl, other sound.globals,
    other sound.current⟩

end Machine.Sound

/-- **What is created is fresh**: its addresses have not been taken, and nothing that has come up
refers to them. -/
theorem Chain.fresh {h h' : Heap} {before later : List Happening} {x : Happening}
    (chain : Chain o h (before ++ x :: later) h') (created : a ∈ x.addresses) :
    x.machine.heap.kind? a = none ∧ x.machine.Free a ∧
      ∀ y ∈ before, y.machine.Free a ∧ ∀ value ∈ y.value?, ¬value.RefersTo a := by
  obtain ⟨h₁, earlier, sound, makes, -⟩ := chain.split
  have new : x.machine.heap.cells.size ≤ a := by
    rw [makes.next] at created
    exact (List.mem_range'_1.mp created).1
  refine ⟨Heap.kind?_eq_none new, sound.free new, fun y member => ?_⟩
  obtain ⟨sound', ⟨keeps, up⟩, -⟩ := earlier.of_mem member
  exact ⟨sound'.free (Nat.le_trans keeps.size_le new),
    fun value came => (up value came).not_refersTo new⟩

/-! ## Inputs -/

/-- The happenings of a computation lead to the machine that it leaves. -/
theorem Traced.Chronicled.leaves {α : Type} {fine : Heap → α → Prop} {x : Traced α}
    (chronicled : x.Chronicled o m.heap fine) (sound : m.Sound o) :
    Chain o m.heap (x.heard Note.happening? m) (x.plain.leaves m).heap ∧
      (x.plain.leaves m).Sound o := by
  have ended := chronicled m (.refl m.heap) sound
  unfold Eval.leaves
  cases ran : x.plain m with
  | ok a m' =>
    rw [ran] at ended
    exact ⟨ended.1, ended.2.1⟩
  | error stop m' =>
    rw [ran] at ended
    exact ended

namespace Session

variable {session : Session} {inputs : List Input}

theorem chain_receive {input : Input} (sound : session.machine.Sound o)
    (known : ∀ program ∈ session.accepted input, ∀ s ∈ program.statements, s.From o) :
    Chain o session.machine.heap (session.happeningsOf input)
        (session.receive input).2.machine.heap ∧
      (session.receive input).2.machine.Sound o := by
  unfold accepted at known
  unfold happeningsOf
  cases checked : (checkSource input.source session.nextId).outcome with
  | error faults =>
    rw [receive_of_error checked, notes_of_error checked]
    exact ⟨.nil (.refl _), sound.heap, sound.globals, sound.current⟩
  | ok program =>
    rw [checked] at known
    have prepared : (session.prepared program).Sound o :=
      ⟨sound.heap, sound.globals, sound.current⟩
    obtain ⟨chain, left⟩ := (Traced.chronicled_executeProgram _ input.bound
      (known program List.mem_cons_self)).leaves prepared
    rw [Traced.plain_executeProgram] at chain left
    -- The flush at the end changes the sink only.
    obtain ⟨sink, same⟩ :=
      leaves_interpret input.bound program.statements (session.prepared program)
    rw [receive_of_ok checked, same, notes_of_ok checked]
    exact ⟨chain, left.heap, left.globals, left.current⟩

theorem chain_after (sound : session.machine.Sound o)
    (known : ∀ program ∈ session.programs inputs, ∀ s ∈ program.statements, s.From o) :
    Chain o session.machine.heap (session.happenings inputs)
        (session.after inputs).machine.heap ∧
      (session.after inputs).machine.Sound o := by
  induction inputs generalizing session with
  | nil => exact ⟨.nil (.refl _), sound⟩
  | cons input inputs ih =>
    obtain ⟨first, rest⟩ := List.forall_mem_append.mp known
    obtain ⟨chain, sound'⟩ := chain_receive sound first
    obtain ⟨chain', sound''⟩ := ih sound' rest
    exact ⟨chain.append chain', sound''⟩

/-- At first there are the clock and the globals. -/
theorem sound_fresh (o : Origin) (policy : Sink.Policy) (maxDepth : Nat) (clock : Clock) :
    (fresh policy maxDepth clock).machine.Sound o := by
  have empty : Heap.empty.Sound o := fun _ _ => nofun
  have identity : Cell.identity.Sound o .empty Heap.empty.cells.size := trivial
  let clocked : Heap := (Heap.empty.allocate .identity).2
  have clock : (Value.native ⟨0, "clock", 0, .clock⟩).Sound o clocked := by
    refine ⟨fun a kind refers => ?_, nofun, trivial⟩
    cases List.mem_singleton.mp refers
    rfl
  have globals : Frame.Sound o clocked clocked.cells.size
      ⟨Bindings.empty.set "clock" (.native ⟨0, "clock", 0, .clock⟩), none⟩ :=
    ⟨nofun, nofun, Bindings.forall_single clock⟩
  have globals' : Cell.Sound o clocked clocked.cells.size (.frame _) := globals
  exact ⟨(empty.allocate identity).allocate globals', rfl, rfl⟩

end Session

/-- The happenings of a session make a chain. -/
theorem Session.exists_chain (policy : Sink.Policy) (maxDepth : Nat) (clock : Clock)
    (inputs : List Input) :
    let session := Session.fresh policy maxDepth clock
    ∃ o, Chain o session.machine.heap (session.happenings inputs)
        (session.after inputs).machine.heap ∧
      (session.after inputs).machine.Sound o := by
  let o : Origin := { toLexicon := .ofSources (inputs.map Input.source), bare := True }
  have tokens : ∀ input ∈ inputs, ∀ t ∈ (scan input.source).1, o.tokens t :=
    fun input member t inside => ⟨input.source, List.mem_map_of_mem member, inside⟩
  exact ⟨o, chain_after (sound_fresh o policy maxDepth clock) (from_programs tokens fun _ => trivial)⟩

/-- Happenings at different places of a chain take different addresses. -/
theorem Chain.disjoint {h h' : Heap} {xs : List Happening} (chain : Chain o h xs h') {i j : Nat}
    (other : i ≠ j) {x y : Happening} (first : xs[i]? = some x) (second : xs[j]? = some y) :
    ∀ a ∈ x.addresses, a ∉ y.addresses := by
  obtain ⟨n, -, taken⟩ := chain.taken
  -- The addresses of all happenings are one range, in which none occurs twice.
  have distinct : (xs.flatMap Happening.addresses).Nodup := taken ▸ List.nodup_range'
  obtain ⟨-, apart⟩ := List.nodup_flatMap.mp distinct
  have ordered {i j : Nat} {x y : Happening} (less : i < j) (first : xs[i]? = some x)
      (second : xs[j]? = some y) : x.addresses.Disjoint y.addresses := by
    obtain ⟨hi, rfl⟩ := List.getElem?_eq_some_iff.mp first
    obtain ⟨hj, rfl⟩ := List.getElem?_eq_some_iff.mp second
    exact List.pairwise_iff_getElem.mp apart i j hi hj less
  rcases Nat.lt_or_gt_of_ne other with less | greater
  · exact fun a mine yours => ordered less first second mine yours
  · exact fun a mine yours => ordered greater second first yours mine

/-- **Heaps stay well-formed** in every state that a session reaches, and every walk along their links
ends. What is created is fresh: nothing that has come up before refers to it. The addresses from the
third on are taken one after another, each once, and hold cells of the kind that they were taken for,
to which the values that come up refer; so no two calls share a frame. -/
theorem heaps_stay_well_formed (policy : Sink.Policy) (maxDepth : Nat) (clock : Clock)
    (inputs : List Input) :
    let session := Session.fresh policy maxDepth clock
    let happenings := session.happenings inputs
    let heap := (session.after inputs).machine.heap
    (∀ m, session.Reaches inputs m → m.WellFormed ∧ m.heap.Walkable) ∧
    (∀ before x later, happenings = before ++ x :: later → ∀ a ∈ x.addresses,
      x.machine.heap.kind? a = none ∧ x.machine.Free a ∧
        ∀ y ∈ before, y.machine.Free a ∧ ∀ value ∈ y.value?, ¬value.RefersTo a) ∧
    (∃ n, heap.cells.size = 2 + n ∧
      happenings.flatMap Happening.addresses = List.range' 2 n) ∧
    (∀ x ∈ happenings, (∀ a kind, (a, kind) ∈ x.cells → heap.kind? a = some kind) ∧
      ∀ value ∈ x.value?, value.Denotes heap ∧ ∀ c ∈ value.class?, c.Descends) ∧
    ∀ (i j : Nat) (f g : Closure) (frame frame' : Address) (m m' : Machine), i ≠ j →
      happenings[i]? = some (.creates (.call f frame) m) →
      happenings[j]? = some (.creates (.call g frame') m') → frame ≠ frame' := by
  intro session happenings heap
  obtain ⟨o, chain, last⟩ := Session.exists_chain policy maxDepth clock inputs
  refine ⟨?_, ?_, ?_, ?_, ?_⟩
  · rintro m (⟨x, member, rfl⟩ | rfl)
    · have formed := (chain.of_mem member).1.wellFormed
      exact ⟨formed, formed.heap.walkable⟩
    · exact ⟨last.wellFormed, last.wellFormed.heap.walkable⟩
  · intro before x later same a created
    have chain' : Chain o session.machine.heap (before ++ x :: later) heap := same ▸ chain
    exact chain'.fresh created
  · obtain ⟨n, gains, taken⟩ := chain.taken
    exact ⟨n, gains.size, taken⟩
  · intro x member
    obtain ⟨-, ⟨-, up⟩, taken⟩ := chain.of_mem member
    exact ⟨taken, fun value came => ⟨(up value came).denotes, (up value came).descends⟩⟩
  · intro i j f g frame frame' m m' other first second shared
    exact chain.disjoint other first second frame List.mem_cons_self
      (shared ▸ List.mem_cons_self)

/-- A function and the frames of two calls of it, one inside the other. -/
example : ((Session.fresh .accepting 5 (.steady 0)).happenings
    [⟨"fun f(again) \x7b if (again) f(false); \x7d f(true);", 40⟩]).flatMap Happening.addresses
      = [2, 3, 4] := by
  decide +kernel

end Lox
