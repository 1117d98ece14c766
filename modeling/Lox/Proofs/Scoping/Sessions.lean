import Lox.Proofs.History
import Lox.Proofs.Sources
import Lox.Proofs.Scoping.Alignment

/-!
# Sessions under observation

A session adds to its table the distances of each program that it accepts. As long as no more ids are
given out than there are, a program brings entries for its own uses only, and later programs leave
them alone: the entry of a use is the distance that the analysis found for it. All else that is said
here of the uses in a session holds however many ids are given out.
-/

set_option autoImplicit false

namespace Lox

open Heap (nowhere)

/-! ## The table of a session -/

/-- What is learned hides what was known of the same uses. -/
theorem Machine.distances_learn (m : Machine) (distances : Distances) (id : NodeId) :
    (m.learn distances).distances[id]? = (distances[id]?).or m.distances[id]? := by
  unfold Machine.learn
  show (m.distances.insertMany distances.toList)[id]? = _
  cases found : distances[id]? with
  | some d =>
    exact Std.TreeMap.getElem?_insertMany_list_of_mem (Nat.compare_eq_eq.mpr rfl)
      Std.TreeMap.distinct_keys_toList (Std.TreeMap.mem_toList_iff_getElem?_eq_some.mpr found)
  | none =>
    refine Std.TreeMap.getElem?_insertMany_list_of_contains_eq_false ?_
    cases present : (distances.toList.map Prod.fst).contains id with
    | false => rfl
    | true =>
      obtain ⟨entry, member, rfl⟩ := List.mem_map.mp (List.contains_iff_mem.mp present)
      rw [Std.TreeMap.mem_toList_iff_getElem?_eq_some.mp member] at found
      cases found

/-- A use of one of some programs. -/
def UsedIn (programs : List Program) (u : Use) : Prop :=
  ∃ program ∈ programs, u ∈ programUses program.statements

namespace Program.Accepted

variable {program : Program} {lo hi : Nat}

theorem walk (accepted : program.Accepted lo hi) :
    Resolver.initial.Walks (programUses program.statements)
      (Resolver.statements program.statements .initial) :=
  Resolver.walks_statements [] program.statements (accepted.declared.formed trivial) .initial

theorem ids_uses (program : Program) :
    (programUses program.statements).map (·.access.id)
      = (Stmt.accessesOfAll program.statements).map Access.id := by
  rw [← map_access_programUses, List.map_map]
  rfl

theorem mem_uses {u : Use} (member : u ∈ programUses program.statements) :
    u.access ∈ Stmt.accessesOfAll program.statements := by
  rw [← map_access_programUses]
  exact List.mem_map_of_mem member

/-- As long as there are ids enough, the uses of a program have ids of their own. -/
theorem id_mem (accepted : program.Accepted lo hi) (few : hi ≤ Parser.idCount) {u : Use}
    (member : u ∈ programUses program.statements) : lo ≤ u.access.id ∧ u.access.id < hi :=
  (accepted.declared.issued.ids few).2 u.access (mem_uses member)

/-- The distance of a use is where the scopes around it declare its name. -/
theorem distance (accepted : program.Accepted lo hi) (few : hi ≤ Parser.idCount) {u : Use}
    (member : u ∈ programUses program.statements) :
    program.distances[u.access.id]? = u.distance := by
  have distinct : ((programUses program.statements).map (·.access.id)).Nodup := by
    rw [ids_uses]
    exact (accepted.declared.issued.ids few).1
  rw [accepted.distances]
  exact accepted.walk.records accepted.silent distinct (fun _ _ => rfl) u member

/-- What a program assigns is named by identifiers. -/
theorem spared (accepted : program.Accepted lo hi) {u : Use}
    (member : u ∈ programUses program.statements) (assigns : u.access.assigns = true) :
    Spared u.access.name := by
  have named := accepted.declared.issued.named trivial u.access (mem_uses member)
  cases access : u.access with
  | assign id name =>
    rw [access] at named
    exact Name.IsIdentifier.spared named
  | read | this | super =>
    rw [access] at assigns
    cases assigns

/-- A program has no entries but for its own uses. -/
theorem distance_of_not_mem (accepted : program.Accepted lo hi) (few : hi ≤ Parser.idCount)
    {id : NodeId} (outside : ¬(lo ≤ id ∧ id < hi)) : program.distances[id]? = none := by
  rw [accepted.distances]
  refine (accepted.walk.others id fun member => outside ?_).trans rfl
  obtain ⟨u, used, rfl⟩ := List.mem_map.mp member
  exact accepted.id_mem few used

end Program.Accepted

/-! ## Observing a session -/

/-- What a computation leaves behind is sound, with what was noted in it. -/
theorem Keeps.leaves {α : Type} {uses : Use → Prop} {recorded : Use → Distances → Prop}
    {growing : Address → Prop} {x : Traced α} {pre : Observed → Prop} {post : α → Observed → Prop}
    (keeps : Keeps uses recorded growing x pre post) {s : Observed}
    (sound : s.Sound uses recorded) (given : pre s) :
    Observed.Sound uses recorded ⟨(Told.plain x).leaves s.machine,
      ((x.told s.machine).filterMap Note.event?).reverse ++ s.events⟩ := by
  have here := keeps s sound given
  unfold Traced.observed at here
  unfold Eval.leaves Told.plain Told.told
  cases ends : x s.machine with
  | mk notes ending =>
    rw [ends] at here
    cases ending with
    | ok a m => exact here.2.1
    | error stop m => exact here.2

namespace Session

/-- An input that is refused leaves the machine as it is. -/
theorem receive_of_error {session : Session} {input : Input} {faults : List Fault}
    (refused : (checkSource input.source session.nextId).outcome = .error faults) :
    session.receive input
      = (.failed faults, ⟨session.machine, (checkSource input.source session.nextId).nextId⟩) :=
  runWithin_of_error refused

/-- An input that is accepted leaves what its program leaves. -/
theorem receive_of_ok {session : Session} {input : Input} {program : Program}
    (accepted : (checkSource input.source session.nextId).outcome = .ok program) :
    (session.receive input).2
      = ⟨(interpret input.bound program.statements).leaves (session.prepared program),
        (checkSource input.source session.nextId).nextId⟩ :=
  runWithin_of_ok accepted

/-- What is noted of names and frames up to the end of an input, after the given events. -/
def noted (session : Session) (events : List Event) (input : Input) : List Event :=
  ((session.notes input).filterMap Note.event?).reverse ++ events

/-- What is noted of names and frames up to the end of some inputs, after the given events. -/
def trace (session : Session) (events : List Event) : List Input → List Event
  | [] => events
  | input :: inputs => (session.receive input).2.trace (session.noted events input) inputs

/-- The program as which a session accepts an input, if it does. -/
def accepted (session : Session) (input : Input) : List Program :=
  match (checkSource input.source session.nextId).outcome with
  | .error _ => []
  | .ok program => [program]

/-- The programs that a session accepts. -/
def programs (session : Session) : List Input → List Program
  | [] => []
  | input :: inputs => session.accepted input ++ (session.receive input).2.programs inputs

/-- How many ids a session gives out for some inputs. -/
def idsTaken (session : Session) : List Input → Nat
  | [] => 0
  | input :: inputs =>
    Lox.idsTaken input.source session.nextId + (session.receive input).2.idsTaken inputs

theorem idsTaken_append (session : Session) (inputs later : List Input) :
    session.idsTaken (inputs ++ later)
      = session.idsTaken inputs + (session.after inputs).idsTaken later := by
  induction inputs generalizing session with
  | nil => exact (Nat.zero_add _).symm
  | cons input inputs ih =>
    show _ + (session.receive input).2.idsTaken (inputs ++ later) = _
    rw [ih, ← Nat.add_assoc]
    rfl

end Session

/-- Flushing aside, a program leaves what its statements leave. -/
theorem leaves_interpret (bound : Nat) (program : List Stmt) (m : Machine) :
    ∃ sink, (interpret bound program).leaves m
      = { (executeProgram bound program).leaves m with sink := sink } := by
  unfold Eval.leaves interpret
  cases executeProgram bound program m with
  | ok _ m' =>
    dsimp only
    rcases m'.sink.flush with ⟨refusal, sink⟩
    cases refusal <;> exact ⟨sink, rfl⟩
  | error stop m' =>
    cases stop with
    | error e => exact ⟨m'.sink.flush.2, rfl⟩
    | exhausted => exact ⟨m'.sink, rfl⟩

/-- The table after a program that was accepted: its own entries hide those from before. -/
theorem Session.distances_receive {session : Session} {input : Input} {program : Program}
    (accepted : (checkSource input.source session.nextId).outcome = .ok program) (id : NodeId) :
    (session.receive input).2.machine.distances[id]?
      = (program.distances[id]?).or session.machine.distances[id]? := by
  have kept := restores_interpret input.bound program.statements (session.prepared program)
  rw [Session.receive_of_ok accepted]
  refine (congrArg (·[id]?) kept.distances).trans ?_
  exact Machine.distances_learn _ program.distances id

/-- A program keeps states sound, whatever its statements return. -/
theorem keeps_executeProgram {uses : Use → Prop} {recorded : Use → Distances → Prop} (bound : Nat)
    {a : Address} (ss : List Stmt) {r : Resolver} (outside : r.scopes = [])
    (formed : Stmt.AllFormed ss) (known : ∀ u ∈ Stmt.usesOfAll [] ss r, uses u)
    (silent : (Resolver.statements ss r).errors = []) :
    Keeps uses recorded (· = a) (Traced.executeProgram bound ss) (At [] [] none a)
      fun _ _ => True := by
  induction ss generalizing r with
  | nil => exact keeps_pure fun _ _ => trivial
  | cons s ss ih =>
    have after := Resolver.scopes_statement_nil formed.1 outside
    have walked := (Resolver.walks_statements [] ss formed.2 _).silent silent
    have first := (aligned uses recorded bound).execute s formed.1
      (fun u member => known u (List.mem_append_left _ member)) walked (a := a)
    rw [outside] at first
    -- A place among the globals is left by nothing, also where the statement returned.
    have still : ∀ st st', At [] [] none a st → st.Leads (· = a) st' → At [] [] none a st' := by
      intro st st' place leads
      refine ⟨leads.control.current.trans place.1, ?_⟩
      have globals : a = st'.machine.globals := place.2.eq_globals.trans leads.control.globals.symm
      rw [globals]
      exact .globals
    have once : Keeps uses recorded (· = a) (Traced.execute bound s) (At [] [] none a)
        fun _ => At [] [] none a := by
      intro st sound place
      have here := first st sound place
      cases ends : Traced.observed (Traced.execute bound s) st with
      | ok completion st' =>
        rw [ends] at here
        exact ⟨here.1, here.2.1, still st st' place here.1⟩
      | error stop st' =>
        rw [ends] at here
        exact here
    exact once.bind fun _ =>
      ih after formed.2 (fun u member => known u (List.mem_append_right _ member)) silent

/-! ## What holds after every input -/

/-- What is recorded of a use: if there are ids enough, the distance that the analysis found. -/
def Recorded (few : Prop) (u : Use) (distances : Distances) : Prop :=
  few → distances[u.access.id]? = u.distance

/-- A session that has accepted some programs and given out a number of ids. -/
structure Consistent (few : Prop) (programs : List Program) (total : Nat) (events : List Event)
    (session : Session) : Prop where
  sound : Observed.Sound (UsedIn programs) (Recorded few) ⟨session.machine, events⟩
  rest : session.AtRest
  nextId : session.nextId = total % Parser.idCount
  table : few → ∀ id, total ≤ id → session.machine.distances[id]? = none
  below : few → ∀ u, UsedIn programs u → u.access.id < total

theorem consistent_fresh (few : Prop) (policy : Sink.Policy) (maxDepth : Nat) (clock : Clock) :
    Consistent few [] 0 [] (.fresh policy maxDepth clock) where
  sound := by
    refine ⟨⟨_, Heap.frame?_allocateFrame _ none _⟩, ?_, fun _ member => ?_, trivial,
      fun _ member => ?_, fun _ _ _ opened => absurd opened List.not_mem_nil, trivial⟩
    · intro a cell found
      rcases a with _ | _ | a
      · obtain rfl : Cell.identity = cell := Option.some.inj found
        trivial
      · obtain rfl : Cell.frame ⟨Bindings.empty.set "clock" (.native ⟨0, "clock", 0, .clock⟩), none⟩
          = cell := Option.some.inj found
        exact Bindings.forall_single trivial
      · cases found
    · obtain ⟨_, absent, _⟩ := member
      exact absurd absent List.not_mem_nil
    · obtain ⟨_, absent, _⟩ := member
      exact absurd absent List.not_mem_nil
  rest := Session.atRest_fresh policy maxDepth clock
  nextId := rfl
  table _ _ _ := rfl
  below _ _ member := by
    obtain ⟨_, absent, _⟩ := member
    exact absurd absent List.not_mem_nil

namespace Consistent

variable {few : Prop} {programs : List Program} {total : Nat} {events : List Event}
  {session : Session}

theorem nextId_receive (consistent : Consistent few programs total events session)
    (source : String) :
    (checkSource source session.nextId).nextId
      = (total + idsTaken source session.nextId) % Parser.idCount := by
  have small : session.nextId < Parser.idCount := by
    rw [consistent.nextId]
    exact Nat.mod_lt _ (by decide)
  calc (checkSource source session.nextId).nextId
      = (session.nextId + idsTaken source session.nextId) % Parser.idCount :=
        nextId_checkSource source small
    _ = (total % Parser.idCount + idsTaken source session.nextId) % Parser.idCount := by
        rw [← consistent.nextId]
    _ = (total + idsTaken source session.nextId) % Parser.idCount := Nat.mod_add_mod _ _ _

/-- As long as there are ids enough, an input is numbered from where the last one ended, or takes no
ids at all. -/
theorem range (consistent : Consistent few programs total events session) {taken : Nat}
    (enough : total + taken ≤ Parser.idCount) :
    session.nextId + taken ≤ Parser.idCount ∧
      ∀ id, session.nextId ≤ id ∧ id < session.nextId + taken ↔ total ≤ id ∧ id < total + taken := by
  rw [consistent.nextId]
  by_cases last : total = Parser.idCount
  · have none_ : taken = 0 := by omega
    have wrapped : total % Parser.idCount = 0 := by rw [last, Nat.mod_self]
    rw [wrapped, none_]
    refine ⟨Nat.zero_le _, fun id => ⟨fun inside => ?_, fun inside => ?_⟩⟩
    · exact absurd inside.2 (Nat.not_lt_zero id)
    · exact absurd inside.2 (Nat.not_lt.mpr inside.1)
  · have same : total % Parser.idCount = total := Nat.mod_eq_of_lt (by omega)
    rw [same]
    exact ⟨enough, fun _ => Iff.rfl⟩

/-- A program that was accepted may run: the table has the distances of all its uses, and those of
earlier programs as before. -/
theorem prepared (consistent : Consistent few programs total events session) {input : Input}
    {program : Program} (accepted : program.Accepted session.nextId
      (session.nextId + idsTaken input.source session.nextId))
    (enough : few → total + idsTaken input.source session.nextId ≤ Parser.idCount) :
    Observed.Sound (UsedIn (programs ++ [program])) (Recorded few)
      ⟨session.prepared program, events⟩ := by
  have all : ∀ u, UsedIn programs u → UsedIn (programs ++ [program]) u :=
    fun u ⟨earlier, member, used⟩ => ⟨earlier, List.mem_append_left _ member, used⟩
  refine ⟨consistent.sound.rooted, ?_, ?_, ?_, ?_, consistent.sound.holds, consistent.sound.held⟩
  · intro a cell found
    exact (consistent.sound.cells a cell found).mono (.refl nowhere _) all
  · rintro u ⟨other, member, used⟩ plenty
    -- The entries of the program are for its own ids only, so each use has one entry in the table.
    have range := consistent.range (enough plenty)
    show (Machine.learn _ program.distances).distances[u.access.id]? = u.distance
    rw [Machine.distances_learn]
    rcases List.mem_append.mp member with old | new
    · have before := consistent.below plenty u ⟨other, old, used⟩
      have outside : ¬(session.nextId ≤ u.access.id ∧
          u.access.id < session.nextId + idsTaken input.source session.nextId) := by
        rw [range.2]
        exact fun inside => absurd inside.1 (Nat.not_le.mpr before)
      rw [accepted.distance_of_not_mem range.1 outside, Option.none_or]
      exact consistent.sound.learned u ⟨other, old, used⟩ plenty
    · obtain rfl := List.mem_singleton.mp new
      have inside := (range.2 _).mp (accepted.id_mem range.1 used)
      have unknown : session.machine.distances[u.access.id]? = none :=
        consistent.table plenty _ inside.1
      rw [accepted.distance range.1 used, unknown, Option.or_none]
  · refine consistent.sound.noted.mono fun access m earlier located => ?_
    obtain ⟨u, used, rest⟩ := located
    exact ⟨u, all u used, rest⟩
  · rintro u ⟨other, member, used⟩ assigns
    rcases List.mem_append.mp member with old | new
    · exact consistent.sound.spared u ⟨other, old, used⟩ assigns
    · obtain rfl := List.mem_singleton.mp new
      exact accepted.spared used assigns

/-- **What an input leaves is consistent again**, also where it is refused or fails. -/
theorem receive (consistent : Consistent few programs total events session) (input : Input)
    (enough : few → total + idsTaken input.source session.nextId ≤ Parser.idCount) :
    Consistent few (programs ++ session.accepted input)
      (total + idsTaken input.source session.nextId) (session.noted events input)
      (session.receive input).2 := by
  have nextId := consistent.nextId_receive input.source
  have rest := Session.atRest_receive session input consistent.rest
  unfold Session.accepted Session.noted
  cases checked : (checkSource input.source session.nextId).outcome with
  | error faults =>
    -- What is refused notes nothing and learns nothing, but its ids are taken.
    rw [Session.notes_of_error checked]
    rw [Session.receive_of_error checked] at rest ⊢
    refine ⟨?_, rest, nextId, fun plenty id above => ?_, fun plenty u used => ?_⟩
    · rw [List.append_nil]
      exact consistent.sound.elsewhere rfl rfl rfl
    · exact consistent.table plenty id (Nat.le_trans (Nat.le_add_right _ _) above)
    · rw [List.append_nil] at used
      exact Nat.lt_of_lt_of_le (consistent.below plenty u used) (Nat.le_add_right _ _)
  | ok program =>
    have learned : ∀ id, (session.receive input).2.machine.distances[id]?
        = (program.distances[id]?).or session.machine.distances[id]? :=
      Session.distances_receive checked
    rw [Session.notes_of_ok checked]
    rw [Session.receive_of_ok checked] at rest learned ⊢
    have accepted := accepted_checkSource checked
    have prepared := consistent.prepared accepted enough
    have place : At [] [] none session.machine.globals
        ⟨session.prepared program, events⟩ :=
      ⟨consistent.rest.1, .globals⟩
    -- The traced run keeps the state sound, and it leaves the machine that the input leaves.
    have ran := (keeps_executeProgram input.bound program.statements rfl
      (accepted.declared.formed trivial)
      (fun u used => ⟨program, List.mem_append_right _ List.mem_cons_self, used⟩)
      accepted.silent).leaves prepared place
    obtain ⟨sink, flushed⟩ := leaves_interpret input.bound program.statements
      (session.prepared program)
    refine ⟨?_, rest, nextId, fun plenty id above => ?_, fun plenty u used => ?_⟩
    · show Observed.Sound _ _ ⟨(interpret input.bound program.statements).leaves
        (session.prepared program), _⟩
      rw [flushed, ← Traced.plain_executeProgram]
      exact ran.elsewhere rfl rfl rfl
    · have range := consistent.range (enough plenty)
      have outside : ¬(session.nextId ≤ id ∧
          id < session.nextId + idsTaken input.source session.nextId) := by
        rw [range.2]
        exact fun inside => absurd inside.2 (Nat.not_lt.mpr above)
      refine (learned id).trans ?_
      rw [accepted.distance_of_not_mem range.1 outside, Option.none_or]
      exact consistent.table plenty id (Nat.le_trans (Nat.le_add_right _ _) above)
    · have range := consistent.range (enough plenty)
      obtain ⟨other, member, used⟩ := used
      rcases List.mem_append.mp member with old | new
      · exact Nat.lt_of_lt_of_le (consistent.below plenty u ⟨other, old, used⟩)
          (Nat.le_add_right _ _)
      · obtain rfl := List.mem_singleton.mp new
        exact ((range.2 _).mp (accepted.id_mem range.1 used)).2

/-- What some inputs leave is consistent again. -/
theorem after (consistent : Consistent few programs total events session) (inputs : List Input)
    (enough : few → total + session.idsTaken inputs ≤ Parser.idCount) :
    Consistent few (programs ++ session.programs inputs) (total + session.idsTaken inputs)
      (session.trace events inputs) (session.after inputs) := by
  induction inputs generalizing programs total events session with
  | nil =>
    unfold Session.programs
    rw [List.append_nil]
    exact consistent
  | cons input inputs ih =>
    unfold Session.idsTaken at enough
    have step := consistent.receive input fun plenty => by
      have sum := enough plenty
      omega
    have rest := ih step fun plenty => by
      have sum := enough plenty
      omega
    unfold Session.programs Session.idsTaken Session.trace
    rw [← List.append_assoc, ← Nat.add_assoc]
    exact rest

end Consistent

/-- Every program that a session accepts is one that comes from a source. -/
theorem Session.accepted_of_mem {session : Session} {inputs : List Input} {program : Program}
    (member : program ∈ session.programs inputs) : ∃ lo hi, program.Accepted lo hi := by
  induction inputs generalizing session with
  | nil => exact absurd member List.not_mem_nil
  | cons input inputs ih =>
    rcases List.mem_append.mp member with here | later
    · unfold Session.accepted at here
      split at here
      · exact absurd here List.not_mem_nil
      · next other checked =>
        obtain rfl := List.mem_singleton.mp here
        exact ⟨_, _, accepted_checkSource checked⟩
    · exact ih later

end Lox
