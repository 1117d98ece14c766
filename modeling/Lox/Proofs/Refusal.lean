import Mathlib
import Lox.Proofs.Pieces
import Lox.Proofs.Parser.Renumbering
import Lox.Proofs.Relabelling.Agreement

/-!
# Inputs that are refused

An input that is refused runs nothing, but it takes ids. So every program that is read afterwards has
other ids than it would have had: the same ones moved on by as many as were taken, while the code
from before keeps its own. The session in which the input was refused therefore stays a mirror of
the session in which it was never given. Each input ends in the same way in both, and the sinks hold
the same and have been asked the same.

The mirror is the same one from the beginning: up to the refused input a session is its own mirror.
-/

set_option autoImplicit false

namespace Lox

/-! ## Moving ids -/

/-- An id from `old` on, moved by `k`. -/
def moved (old k id : Nat) : Nat :=
  if id < old then id else id + k

theorem moved_injective (old k a b : Nat) (same : moved old k a = moved old k b) : a = b := by
  unfold moved at same
  split at same <;> split at same <;> omega

/-- Before their end is reached, no id is turned round. -/
theorem turned_of_lt {k id : Nat} (few : id + k < Parser.idCount) : turned k id = id + k := by
  unfold turned
  rw [if_pos (Nat.lt_of_le_of_lt (Nat.le_add_right id k) few), Nat.mod_eq_of_lt few]

/-- Moves the ids on, from `old`, by `k`. -/
def Relabelling.shift (old k : Nat) : Relabelling :=
  .ofIds (moved old k) (moved_injective old k)

/-! ## Reading with other ids -/

section

variable (σ : Renumbering) (lines : ∀ l, σ.line l = l)
include lines

theorem parseSource_renumbered (source : String) :
    (parseSource source σ.second).outcome
        = (parseSource source σ.first).outcome.map (List.map (Stmt.relabel σ.toRelabelling)) ∧
      idsTaken source σ.second = idsTaken source σ.first := by
  have tokens : (scan source).1.map (Token.relabel σ.toRelabelling) = (scan source).1 :=
    List.map_id'' (fun t => congrArg (Token.mk t.kind t.lexeme ·) (lines t.line)) _
  obtain ⟨outcome, taken⟩ := Parser.parse_renumbered σ (scan source).1
  rw [tokens] at outcome taken
  refine ⟨?_, taken⟩
  unfold parseSource
  dsimp only
  rw [outcome]
  cases (Parser.parse (scan source).1 σ.first).outcome with
  | error faults =>
    have same : faults.map (SyntaxError.relabel σ.toRelabelling) = faults :=
      List.map_id'' (fun e => congrArg (SyntaxError.mk e.cause ·) (lines e.line)) faults
    simp only [Parser.renumberedOutcome, same]
    rfl
  | ok statements =>
    dsimp only [Parser.renumberedOutcome]
    split <;> rfl

/-- The static analysis finds the same faults whatever the ids are, and the same distances. -/
theorem checkStatements_renumbered (statements : List Stmt) :
    match checkStatements statements with
    | .error faults =>
      checkStatements (statements.map (Stmt.relabel σ.toRelabelling)) = .error faults
    | .ok program => ∃ program',
      checkStatements (statements.map (Stmt.relabel σ.toRelabelling)) = .ok program' ∧
        program'.statements = program.statements.map (Stmt.relabel σ.toRelabelling) ∧
        ∀ id : NodeId, program'.distances[σ.id id]? = program.distances[id]? := by
  have follows : Resolver.Follows σ.toRelabelling ∅ (Resolver.statements statements .initial)
      (Resolver.statements (Stmt.relabelAll σ.toRelabelling statements) .initial) :=
    .statements statements ⟨rfl, rfl, rfl, rfl, fun _ => rfl⟩
  rw [Stmt.relabelAll_eq_map] at follows
  have errors : (Resolver.statements (statements.map (Stmt.relabel σ.toRelabelling))
      .initial).errors = (Resolver.statements statements .initial).errors :=
    follows.errors.trans
      (List.map_id'' (fun e => congrArg (ScopeError.mk e.cause ·) (lines e.line)) _)
  unfold checkStatements resolve
  dsimp only
  rw [errors]
  by_cases silent : (Resolver.statements statements .initial).errors.reverse.isEmpty = true
  · rw [if_pos silent, if_pos silent]
    exact ⟨_, rfl, rfl, fun id => (follows.distances id).trans Option.or_none⟩
  · rw [if_neg silent, if_neg silent]

/-- **A source is checked the same wherever its ids begin.** -/
theorem checkSource_renumbered (source : String) :
    match (checkSource source σ.first).outcome with
    | .error faults => (checkSource source σ.second).outcome = .error faults
    | .ok program => ∃ program', (checkSource source σ.second).outcome = .ok program' ∧
        program'.statements = program.statements.map (Stmt.relabel σ.toRelabelling) ∧
        ∀ id : NodeId, program'.distances[σ.id id]? = program.distances[id]? := by
  unfold checkSource
  dsimp only
  rw [(parseSource_renumbered σ lines source).1]
  cases (parseSource source σ.first).outcome with
  | error faults => rfl
  | ok statements => exact checkStatements_renumbered σ lines statements

end

/-! ## Running with other ids -/

namespace Eval

/-- A program with other ids is run and flushed alike. -/
theorem mirrors_interpret {μ : Mirror} {ids : NodeId → Prop} (flushes : ∀ n, μ.flushes n = n)
    (bound : Nat) {program : List Stmt} (within : ∀ s ∈ program, s.Within ids) :
    Mirrors μ ids (interpret bound program)
      (interpret bound (program.map (Stmt.relabel μ.toRelabelling))) := by
  intro m fits
  have here := mirrors_executeProgram bound within m fits
  -- The mirror counts flushes as they are, so a sink is its own mirror.
  have sinks (sink : Sink) : sink.mirror μ = sink := by
    unfold Sink.mirror
    rw [flushes]
  have flushed (r : Machine) (sink : Sink) :
      ({ r.mirror μ with sink := sink } : Machine)
        = ({ r with sink := sink } : Machine).mirror μ := by
    unfold Machine.mirror
    rw [sinks sink]
  have answer (r : Machine) : (r.mirror μ).sink.flush = r.sink.flush := congrArg _ (sinks r.sink)
  unfold interpret
  cases ends : executeProgram bound program m with
  | ok _ r =>
    rw [ends] at here
    obtain ⟨fits', -, same⟩ := here
    have fits'' : Machine.Fits μ ids { r with sink := r.sink.flush.2 } :=
      ⟨fits'.heap, fits'.distances, fits'.writes⟩
    rw [same]
    dsimp only
    rw [answer r]
    cases flush : r.sink.flush with
    | mk refusal sink =>
      rw [flush] at fits''
      cases refusal with
      | none => exact ⟨fits'', trivial, congrArg _ (flushed r sink)⟩
      | some reason =>
        refine ⟨fits'', ?_⟩
        dsimp only [Stop.relabel]
        -- An error of the flush stands at no line.
        rw [μ.line_zero, flushed r sink]
  | error stop r =>
    rw [ends] at here
    obtain ⟨fits', same⟩ := here
    rw [same]
    cases stop with
    | error e =>
      refine ⟨⟨fits'.heap, fits'.distances, fits'.writes⟩, ?_⟩
      dsimp only [Stop.relabel]
      rw [answer r, flushed r r.sink.flush.2]
    | exhausted => exact ⟨fits', rfl⟩

/-- With its lines kept, a program ends in a mirror as it does outside. -/
theorem Mirrors.outcome {μ : Mirror} {ids : NodeId → Prop} {x y : Eval Unit}
    (mirrors : Mirrors μ ids x y) (lines : ∀ l, μ.line l = l) {m : Machine}
    (fits : m.Fits μ ids) :
    Session.Outcome.of (y (m.mirror μ)) = .of (x m) ∧
      y.leaves (m.mirror μ) = (x.leaves m).mirror μ := by
  have here := mirrors m fits
  unfold Eval.leaves
  cases ends : x m with
  | ok _ r =>
    rw [ends] at here
    rw [here.2.2]
    exact ⟨rfl, rfl⟩
  | error stop r =>
    rw [ends] at here
    rw [here.2]
    cases stop with
    | error e =>
      dsimp only [Stop.relabel]
      rw [lines]
      exact ⟨rfl, rfl⟩
    | exhausted => exact ⟨rfl, rfl⟩

end Eval

/-! ## Sessions with other ids -/

/-- Shows a machine with other ids. -/
def Mirror.ofIds (ρ : Relabelling) (distances : Distances) : Mirror :=
  ⟨ρ, fun n => n, distances⟩

/-- Of two sessions the second has given out `k` more ids than the first, and is a mirror of it. -/
structure Session.Shifted (ρ : Relabelling) (k total : Nat) (s s' : Session) : Prop where
  consistent : ∃ programs events, Consistent True programs total events s
  consistent' : ∃ programs events, Consistent True programs (total + k) events s'
  machine : s'.machine = s.machine.mirror (.ofIds ρ s'.machine.distances)
  distances : ∀ id, id < total → s'.machine.distances[ρ.id id]? = s.machine.distances[id]?

/-- A relabelling for two sessions at a time when some ids were given out: it keeps lines, moves ids
that are given out next by `k`, and gives ids from before no new ones. -/
structure Relabelling.Continues (ρ : Relabelling) (k total taken : Nat) : Prop where
  lines : ∀ l, ρ.line l = l
  next : ∀ id, total ≤ id → id < total + taken → ρ.id id = id + k
  before : ∀ id, id < total → ρ.id id < total + k

namespace Session.Shifted

variable {ρ : Relabelling} {k total : Nat} {s s' : Session} {input : Input}

theorem sink (shifted : Shifted ρ k total s s') : s'.machine.sink = s.machine.sink := by
  rw [shifted.machine]
  rfl

/-- The second session reads with turned ids. -/
theorem nextId (shifted : Shifted ρ k total s s') :
    s'.nextId = (Renumbering.rotation s.nextId k).second := by
  obtain ⟨_, _, consistent⟩ := shifted.consistent
  obtain ⟨_, _, consistent'⟩ := shifted.consistent'
  calc s'.nextId
      = (total + k) % Parser.idCount := consistent'.nextId
    _ = (total % Parser.idCount + k) % Parser.idCount := (Nat.mod_add_mod _ _ _).symm
    _ = (s.nextId + k) % Parser.idCount := by rw [← consistent.nextId]

theorem idsTaken (shifted : Shifted ρ k total s s') (source : String) :
    Lox.idsTaken source s'.nextId = Lox.idsTaken source s.nextId := by
  rw [shifted.nextId]
  exact (parseSource_renumbered (.rotation s.nextId k) (fun _ => rfl) source).2

section

variable (shifted : Shifted ρ k total s s')
  (enough : total + Lox.idsTaken input.source s.nextId + k ≤ Parser.idCount)
include shifted enough

/-- What both sessions are asked to check is refused by both for the same reasons, or accepted by
both as the same program with other ids. -/
theorem checked (continues : ρ.Continues k total (Lox.idsTaken input.source s.nextId)) :
    match (checkSource input.source s.nextId).outcome with
    | .error faults => (checkSource input.source s'.nextId).outcome = .error faults
    | .ok program => ∃ program', (checkSource input.source s'.nextId).outcome = .ok program' ∧
        program'.statements = program.statements.map (Stmt.relabel ρ) ∧
        ∀ id, total ≤ id → id < total + Lox.idsTaken input.source s.nextId →
          program'.distances[ρ.id id]? = program.distances[id]? := by
  obtain ⟨_, _, consistent⟩ := shifted.consistent
  have range := consistent.range
    (show total + Lox.idsTaken input.source s.nextId ≤ Parser.idCount by omega)
  have same : ∀ id, total ≤ id → id < total + Lox.idsTaken input.source s.nextId →
      turned k id = ρ.id id :=
    fun id low high => (turned_of_lt (by omega)).trans (continues.next id low high).symm
  have both := checkSource_renumbered (.rotation s.nextId k) (fun _ => rfl) input.source
  rw [← shifted.nextId] at both
  change match (checkSource input.source s.nextId).outcome with
    | .error faults => _
    | .ok program => _ at both
  cases checked : (checkSource input.source s.nextId).outcome with
  | error faults =>
    rw [checked] at both
    exact both
  | ok program =>
    rw [checked] at both
    obtain ⟨program', checked', statements, distances⟩ := both
    refine ⟨program', checked', ?_, fun id low high => ?_⟩
    · rw [statements]
      refine List.map_congr_left fun stmt member => stmt.relabel_congr ⟨?_, fun a used => ?_⟩
      · exact fun l => (continues.lines l).symm
      · have inside := (range.2 _).mp
          ((accepted_checkSource checked).within range.1 stmt member a used)
        exact same a.id inside.1 inside.2
    · rw [← same id low high]
      exact distances id

/-- The tables of both sessions, with the distances of a program that both accept. -/
theorem learned (continues : ρ.Continues k total (Lox.idsTaken input.source s.nextId))
    {program program' : Program}
    (checked : (checkSource input.source s.nextId).outcome = .ok program)
    (checked' : (checkSource input.source s'.nextId).outcome = .ok program')
    (same : ∀ id, total ≤ id → id < total + Lox.idsTaken input.source s.nextId →
      program'.distances[ρ.id id]? = program.distances[id]?) :
    ∀ id, id < total + Lox.idsTaken input.source s.nextId →
      (s'.prepared program').distances[ρ.id id]?
        = (s.prepared program).distances[id]? := by
  obtain ⟨_, _, consistent⟩ := shifted.consistent
  obtain ⟨_, _, consistent'⟩ := shifted.consistent'
  have taken := shifted.idsTaken input.source
  intro id high
  have known := Machine.distances_learn s.machine program.distances id
  have known' :=
    Machine.distances_learn s'.machine program'.distances (ρ.id id)
  refine known'.trans (Eq.trans ?_ known.symm)
  by_cases old : id < total
  · -- An id from before has its entry in the tables.
    have absent := consistent.distance_old checked (by omega) old
    have absent' := consistent'.distance_old checked' (by omega) (continues.before id old)
    rw [absent, absent']
    exact shifted.distances id old
  · -- An id of the program has its entry there.
    have low := Nat.le_of_not_lt old
    have above : total + k ≤ ρ.id id := by
      rw [continues.next id low high]
      omega
    have absent := consistent.table trivial id low
    have absent' := consistent'.table trivial (ρ.id id) above
    rw [same id low high]
    exact congrArg _ (absent'.trans absent.symm)

/-- The sessions after an input are shifted if their machines are. -/
theorem next
    (machine : (s'.receive input).2.machine = (s.receive input).2.machine.mirror
      (.ofIds ρ (s'.receive input).2.machine.distances))
    (distances : ∀ id, id < total + Lox.idsTaken input.source s.nextId →
      (s'.receive input).2.machine.distances[ρ.id id]?
        = (s.receive input).2.machine.distances[id]?) :
    Shifted ρ k (total + Lox.idsTaken input.source s.nextId) (s.receive input).2
      (s'.receive input).2 := by
  obtain ⟨_, _, consistent⟩ := shifted.consistent
  obtain ⟨_, _, consistent'⟩ := shifted.consistent'
  have taken := shifted.idsTaken input.source
  have after := consistent.receive input fun _ => by omega
  have after' := consistent'.receive input fun _ => by omega
  rw [taken, Nat.add_right_comm] at after'
  exact ⟨⟨_, _, after⟩, ⟨_, _, after'⟩, machine, distances⟩

/-- **An input ends in the same way in both sessions**, and leaves them shifted as before. -/
theorem receive (continues : ρ.Continues k total (Lox.idsTaken input.source s.nextId)) :
    (s'.receive input).1 = (s.receive input).1 ∧
      Shifted ρ k (total + Lox.idsTaken input.source s.nextId) (s.receive input).2
        (s'.receive input).2 := by
  obtain ⟨_, _, consistent⟩ := shifted.consistent
  obtain ⟨_, _, consistent'⟩ := shifted.consistent'
  have both := shifted.checked enough continues
  cases checked : (checkSource input.source s.nextId).outcome with
  | error faults =>
    rw [checked] at both
    -- Nothing runs. Only ids are taken, and neither table has entries for these.
    have ends := Session.receive_of_error checked
    have ends' := Session.receive_of_error both
    refine ⟨by rw [ends, ends'], shifted.next enough ?_ fun id high => ?_⟩
    · rw [ends, ends']
      exact shifted.machine
    · rw [ends, ends']
      by_cases before : id < total
      · exact shifted.distances id before
      · have low := Nat.le_of_not_lt before
        have above : total + k ≤ ρ.id id := by
          rw [continues.next id low high]
          omega
        exact (consistent'.table trivial _ above).trans (consistent.table trivial id low).symm
  | ok program =>
    rw [checked] at both
    obtain ⟨program', checked', statements, same⟩ := both
    have learned := shifted.learned enough continues checked checked' same
    -- Both run the program, the second session on the mirror of the machine of the first.
    let μ := Mirror.ofIds ρ (s'.prepared program').distances
    have prepared : s'.prepared program' = (s.prepared program).mirror μ := by
      unfold μ Session.prepared
      rw [shifted.machine]
      rfl
    have statements : program'.statements
        = program.statements.map (Stmt.relabel μ.toRelabelling) := statements
    have heap : s.machine.heap.Within (· < total + Lox.idsTaken input.source s.nextId) :=
      consistent.within.mono fun _ small => Nat.lt_of_lt_of_le small (Nat.le_add_right _ _)
    have fits : (s.prepared program).Fits μ
        (· < total + Lox.idsTaken input.source s.nextId) := ⟨heap, learned, fun _ => rfl⟩
    have within := consistent.within_accepted checked (by omega)
    obtain ⟨outcome, leaves⟩ := (Eval.mirrors_interpret (μ := μ) (fun _ => rfl) input.bound
      within).outcome continues.lines fits
    rw [← prepared, ← statements] at outcome leaves
    have kept := (restores_interpret input.bound program.statements
      (s.prepared program)).distances
    have kept' := (restores_interpret input.bound program'.statements
      (s'.prepared program')).distances
    refine ⟨?_, shifted.next enough ?_ fun id high => ?_⟩
    · rw [Session.receive_fst checked, Session.receive_fst checked', outcome]
    · rw [Session.receive_of_ok checked, Session.receive_of_ok checked']
      show _ = Machine.mirror (.ofIds ρ ((interpret _ _).leaves _).distances) _
      rw [kept', leaves]
    · rw [Session.receive_of_ok checked, Session.receive_of_ok checked']
      show ((interpret _ _).leaves _).distances[_]? = ((interpret _ _).leaves _).distances[_]?
      rw [kept, kept']
      exact learned id high

end

end Session.Shifted

namespace Session

/-- How some inputs end, and what each leaves in the sink. -/
def transcript (session : Session) : List Input → List (Outcome × Sink)
  | [] => []
  | input :: inputs =>
    ((session.receive input).1, (session.receive input).2.machine.sink)
      :: (session.receive input).2.transcript inputs

/-- **Inputs end in the same way in both sessions**, one after another. -/
theorem Shifted.inputs {ρ : Relabelling} {k total : Nat} {s s' : Session} (inputs : List Input)
    (shifted : Shifted ρ k total s s')
    (continues : ∀ t n, total ≤ t → t + n ≤ total + s'.idsTaken inputs → ρ.Continues k t n)
    (enough : total + s'.idsTaken inputs + k ≤ Parser.idCount) :
    s'.transcript inputs = s.transcript inputs ∧
      Shifted ρ k (total + s'.idsTaken inputs) (s.after inputs) (s'.after inputs) := by
  induction inputs generalizing s s' total with
  | nil => exact ⟨rfl, shifted⟩
  | cons input inputs ih =>
    have taken := shifted.idsTaken input.source
    have sum : s'.idsTaken (input :: inputs)
        = Lox.idsTaken input.source s.nextId + (s'.receive input).2.idsTaken inputs := by
      rw [← taken]
      rfl
    rw [sum] at continues enough ⊢
    obtain ⟨outcome, shifted'⟩ := shifted.receive
      (show total + Lox.idsTaken input.source s.nextId + k ≤ Parser.idCount by omega)
      (continues total _ (Nat.le_refl _) (by omega))
    obtain ⟨rest, last⟩ := ih shifted'
      (fun t n from_ upTo => continues t n (by omega) (by omega)) (by omega)
    unfold transcript
    rw [outcome, shifted'.sink, rest, ← Nat.add_assoc]
    exact ⟨rfl, last⟩

/-- A new session is its own mirror. -/
theorem shifted_fresh (ρ : Relabelling) (policy : Sink.Policy) (maxDepth : Nat) (clock : Clock) :
    Shifted ρ 0 0 (.fresh policy maxDepth clock) (.fresh policy maxDepth clock) where
  consistent := ⟨_, _, consistent_fresh True policy maxDepth clock⟩
  consistent' := ⟨_, _, consistent_fresh True policy maxDepth clock⟩
  machine := by
    -- The heap holds the globals with `clock`, and no code.
    have heap : (fresh policy maxDepth clock).machine.heap.relabel ρ
        = (fresh policy maxDepth clock).machine.heap := by
      simp [fresh, new, Machine.new, Heap.newNative, Heap.allocateFrame, Heap.allocate, Heap.empty,
        Heap.relabel, Cell.relabel, Frame.relabel, Value.relabel]
    unfold Machine.mirror Mirror.ofIds
    rw [heap]
    rfl
  distances _ small := absurd small (Nat.not_lt_zero _)

end Session

/-- **An input that is refused leaves no trace**: it does nothing but take ids, and all inputs
after it end as they would without it, with the same text in the sink. This holds in every
session, as long as there are ids enough for all inputs. -/
theorem refused_input_leaves_no_trace (policy : Sink.Policy) (maxDepth : Nat) (clock : Clock)
    (history : List Input) {session : Session}
    (reached : (Session.fresh policy maxDepth clock).after history = session) (input : Input)
    {faults : List Fault}
    (refused : (checkSource input.source session.nextId).outcome = .error faults)
    (later : List Input)
    (enough : (Session.fresh policy maxDepth clock).idsTaken (history ++ input :: later)
      ≤ Parser.idCount) :
    (session.receive input).1 = .failed faults ∧
      (session.receive input).2.machine = session.machine ∧
      (session.receive input).2.transcript later = session.transcript later := by
  have ends := Session.receive_of_error refused
  refine ⟨by rw [ends], by rw [ends], ?_⟩
  have sum : (Session.fresh policy maxDepth clock).idsTaken (history ++ input :: later)
      = (Session.fresh policy maxDepth clock).idsTaken history
        + (idsTaken input.source session.nextId + (session.receive input).2.idsTaken later) := by
    rw [Session.idsTaken_append, reached]
    rfl
  rw [sum] at enough
  generalize total : (Session.fresh policy maxDepth clock).idsTaken history = old at enough
  generalize taken : idsTaken input.source session.nextId = k at enough
  -- Up to the input the session is its own mirror, since no id moves.
  have own : Session.Shifted (.shift old k) 0 old session session := by
    have shifted := ((Session.shifted_fresh (.shift old k) policy maxDepth clock).inputs history
      (fun t n _ upTo => ⟨fun _ => rfl, fun id _ high => ?_, fun id low => ?_⟩) (by omega)).2
    · rwa [total, reached, Nat.zero_add] at shifted
    · exact if_pos (by omega)
    · show moved old k id < t
      unfold moved
      rw [if_pos (by omega)]
      exact low
  -- The input moves the ids that come after it.
  have apart : Session.Shifted (.shift old k) k old session (session.receive input).2 := by
    obtain ⟨_, _, consistent⟩ := own.consistent
    have next := consistent.receive input fun _ => by omega
    rw [taken] at next
    refine ⟨⟨_, _, consistent⟩, ⟨_, _, next⟩, ?_, ?_⟩
    · rw [ends]
      exact own.machine
    · rw [ends]
      exact own.distances
  have after := (apart.inputs later (fun t n from_ _ => ⟨fun _ => rfl, fun id low _ => ?_,
    fun id low => ?_⟩) (by omega)).1
  · exact after
  · exact if_neg (by omega)
  · show moved old k id < t + k
    unfold moved
    split <;> omega

/-- What comes after an input that takes two ids and then breaks off. -/
theorem broken_off_input_leaves_no_trace :
    (checkSource "f; f(" (checkSource "fun f() {}" 0).nextId).nextId = 2 ∧
      (((Session.fresh .accepting 5 (.steady 0)).after [⟨"fun f() {}", 9⟩]).receive
          ⟨"f; f(", 9⟩).2.transcript [⟨"print f;", 9⟩]
        = ((Session.fresh .accepting 5 (.steady 0)).after [⟨"fun f() {}", 9⟩]).transcript
          [⟨"print f;", 9⟩] := by
  have refused : (checkSource "f; f("
      ((Session.fresh .accepting 5 (.steady 0)).after [⟨"fun f() {}", 9⟩]).nextId).outcome
        = .error [.source ⟨.syntactic, 1, "Expected expression"⟩] := by cbv
  have enough : (Session.fresh .accepting 5 (.steady 0)).idsTaken
      ([⟨"fun f() {}", 9⟩] ++ ⟨"f; f(", 9⟩ :: [⟨"print f;", 9⟩]) ≤ Parser.idCount := by
    cbv
  constructor
  · cbv
  · exact (refused_input_leaves_no_trace .accepting 5 (.steady 0) [⟨"fun f() {}", 9⟩] rfl ⟨"f; f(", 9⟩
      refused [⟨"print f;", 9⟩] enough).2.2

end Lox
