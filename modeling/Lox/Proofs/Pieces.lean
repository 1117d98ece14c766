import Mathlib
import Lox.Proofs.Scanning
import Lox.Proofs.Relabelling.Analysis
import Lox.Proofs.Relabelling.Runs
import Lox.Proofs.Relabelling.Sessions

/-!
# Programs in pieces

Two sources that are accepted one after the other may also be joined by a line break. The joined
source is accepted, its statements are those of both, with the same ids, and its table of distances
is that of both. So it does what the two do one after the other, apart from the lines in its code
and from the flush between the two.
-/

set_option autoImplicit false

namespace Lox

/-! ## The analysis of joined programs -/

namespace Resolver

theorem statements_append (ss ss' : List Stmt) (r : Resolver) :
    statements (ss ++ ss') r = statements ss' (statements ss r) := by
  induction ss generalizing r with
  | nil => rfl
  | cons s ss ih => exact ih (statement s r)

/-- No scope is left open after statements outside all scopes. -/
theorem scopes_statements_nil {ss : List Stmt} (formed : Stmt.AllFormed ss) {r : Resolver}
    (outside : r.scopes = []) : (statements ss r).scopes = [] := by
  induction ss generalizing r with
  | nil => exact outside
  | cons s ss ih => exact ih formed.2 (scopes_statement_nil formed.1 outside)

/-- Programs that violate no rule violate none when they are joined, and their uses have the same
distances. -/
theorem statements_joined {ρ τ : Relabelling} (keeps : ∀ id, ρ.id id = id)
    (keeps' : ∀ id, τ.id id = id) {ss ss' : List Stmt} (formed : Stmt.AllFormed ss)
    (silent : (statements ss .initial).errors = [])
    (silent' : (statements ss' .initial).errors = []) :
    (statements (ss.map (Stmt.relabel ρ) ++ ss'.map (Stmt.relabel τ)) .initial).errors = [] ∧
      ∀ id : NodeId, (statements (ss.map (Stmt.relabel ρ) ++ ss'.map (Stmt.relabel τ))
          .initial).distances[id]?
        = ((statements ss' .initial).distances[id]?).or (statements ss .initial).distances[id]? := by
  have first : Follows ρ ∅ (statements ss .initial)
      (statements (Stmt.relabelAll ρ ss) .initial) :=
    Follows.statements ss ⟨rfl, rfl, rfl, rfl, fun _ => rfl⟩
  rw [Stmt.relabelAll_eq_map] at first
  -- Between the programs the analysis is in the state in which it began, but for the distances.
  have scopes := first.scopes.trans (scopes_statements_nil formed rfl)
  have contexts := contexts_statements ss .initial
  have second : Follows τ (statements (ss.map (Stmt.relabel ρ)) .initial).distances
      (statements ss' .initial)
      (statements (Stmt.relabelAll τ ss') (statements (ss.map (Stmt.relabel ρ)) .initial)) := by
    refine Follows.statements ss' ⟨scopes, ?_, ?_, ?_, fun id => ?_⟩
    · exact first.functionContext.trans (congrArg Prod.fst contexts)
    · exact first.classContext.trans (congrArg Prod.snd contexts)
    · rw [first.errors, silent]
      rfl
    · exact (Option.none_or).symm
  rw [Stmt.relabelAll_eq_map] at second
  rw [statements_append]
  constructor
  · rw [second.errors, silent']
    rfl
  · intro id
    have later := second.distances id
    have earlier := first.distances id
    rw [keeps'] at later
    rw [keeps] at earlier
    rw [later, earlier]
    exact congrArg _ (Option.or_none)

end Resolver

/-! ## Joined sources -/

/-- A source is accepted if it has no errors, is read as a program and violates no static rule. -/
theorem checkSource_ok_iff (source : String) (firstId : NodeId) (program : Program) :
    (checkSource source firstId).outcome = .ok program ↔
      (Reading.ofSource source).Clean ∧
      (Parser.parse (Tokens.ofSource source).all firstId).outcome = .ok program.statements ∧
      (Resolver.statements program.statements .initial).errors = [] ∧
      program.distances = (Resolver.statements program.statements .initial).distances := by
  rw [← scan_snd_eq_nil_iff, ← scan_fst]
  unfold checkSource parseSource checkStatements resolve
  dsimp only
  cases (Parser.parse (scan source).1 firstId).outcome with
  | error faults => exact ⟨nofun, nofun⟩
  | ok statements =>
    cases (scan source).2 with
    | cons e es => exact ⟨nofun, nofun⟩
    | nil =>
      show (if (Resolver.statements statements .initial).errors.reverse.isEmpty then
        Except.ok (Program.mk statements (Resolver.statements statements .initial).distances)
        else Except.error _) = .ok program ↔ _
      constructor
      · intro ok
        split at ok
        · next silent =>
          obtain rfl := Except.ok.inj ok
          exact ⟨rfl, rfl, List.reverse_eq_nil_iff.mp (List.isEmpty_iff.mp silent), rfl⟩
        · cases ok
      · rintro ⟨-, read, silent, distances⟩
        obtain rfl := Except.ok.inj read
        rw [silent, ← distances]
        rfl

theorem nextId_checkSource_eq (source : String) (firstId : NodeId) :
    (checkSource source firstId).nextId
      = (Parser.parse (Tokens.ofSource source).all firstId).nextId := by
  rw [← scan_fst]
  rfl

/-- **Joined sources** are accepted if both are, as the program of both. -/
theorem checkSource_joined {source other : String} {firstId : NodeId} {first second : Program}
    (ok : (checkSource source firstId).outcome = .ok first)
    (ok' : (checkSource other (checkSource source firstId).nextId).outcome = .ok second) :
    ∃ whole : Program, ∃ k,
      (checkSource (source ++ "\n" ++ other) firstId).outcome = .ok whole ∧
      (checkSource (source ++ "\n" ++ other) firstId).nextId
        = (checkSource other (checkSource source firstId).nextId).nextId ∧
      whole.statements = first.statements.map (Stmt.relabel (.below 0))
        ++ second.statements.map (Stmt.relabel (.below k)) ∧
      ∀ id : NodeId, whole.distances[id]? = (second.distances[id]?).or first.distances[id]? := by
  have formed := (accepted_checkSource ok).declared.formed trivial
  obtain ⟨clean, read, silent, distances⟩ := (checkSource_ok_iff _ _ _).mp ok
  obtain ⟨clean', read', silent', distances'⟩ := (checkSource_ok_iff _ _ _).mp ok'
  have tokens := Tokens.ofSource_joined other clean
  have unmoved : (Tokens.ofSource source).relabel (.below 0) = Tokens.ofSource source :=
    Tokens.relabel_below_zero _
  rw [← unmoved] at tokens
  rw [nextId_checkSource_eq] at read'
  have parsed := Parser.parse_append (ρ := .below 0)
    (τ := .below (Reading.ofSource source).line) (fun _ => rfl) (fun _ => rfl)
    (Tokens.ofSource source) (Tokens.ofSource other) read read'
  rw [← tokens] at parsed
  obtain ⟨none, table⟩ := Resolver.statements_joined (ρ := .below 0)
    (τ := .below (Reading.ofSource source).line) (fun _ => rfl) (fun _ => rfl) formed silent silent'
  let whole := first.statements.map (Stmt.relabel (.below 0))
    ++ second.statements.map (Stmt.relabel (.below (Reading.ofSource source).line))
  refine ⟨⟨whole, (Resolver.statements whole .initial).distances⟩, _, ?_, ?_, rfl, ?_⟩
  · exact (checkSource_ok_iff _ _ _).mpr
      ⟨clean.joined clean', congrArg Parsed.outcome parsed, none, rfl⟩
  · rw [nextId_checkSource_eq, nextId_checkSource_eq, nextId_checkSource_eq, parsed]
  · intro id
    rw [distances, distances']
    exact table id

/-! ## Runs that are alike -/

/-- Whether a policy decides without regard to the flushes that were asked for. -/
def Sink.Policy.IgnoresFlushes (policy : Sink.Policy) : Prop :=
  ∀ (tally : Sink.Tally) (n : Nat),
    policy.refusesWrite { tally with flushes := n } = policy.refusesWrite tally ∧
      policy.refusesFlush { tally with flushes := n } = policy.refusesFlush tally

/-- Shows a machine without lines and flushes. -/
def Mirror.plain (distances : Distances) : Mirror :=
  ⟨.lineless, fun _ => 0, distances⟩

section

variable {μ : Mirror} {ids : NodeId → Prop} {m m' : Machine} {program program' : List Stmt}

/-- Two computations end in the same way, as far as a mirror shows it. -/
def Mirror.SameEnd (μ : Mirror) (ids : NodeId → Prop) {α : Type}
    (x y : EStateM.Result Stop Machine α) :
    Prop :=
  match x, y with
  | .ok _ r, .ok _ r' => r.Fits μ ids ∧ r'.Fits μ ids ∧ r'.mirror μ = r.mirror μ
  | .error stop r, .error stop' r' =>
    stop'.relabel μ.toRelabelling = stop.relabel μ.toRelabelling ∧ r'.mirror μ = r.mirror μ
  | _, _ => False

/-- Programs that look alike in a mirror do the same on machines that look alike. -/
theorem executeProgram_alike (bound : Nat)
    (same : program'.map (Stmt.relabel μ.toRelabelling)
      = program.map (Stmt.relabel μ.toRelabelling))
    (within : ∀ s ∈ program, s.Within ids) (within' : ∀ s ∈ program', s.Within ids)
    (fits : m.Fits μ ids) (fits' : m'.Fits μ ids) (alike : m'.mirror μ = m.mirror μ) :
    μ.SameEnd ids (executeProgram bound program m) (executeProgram bound program' m') := by
  have here := mirrors_executeProgram bound within m fits
  have there := mirrors_executeProgram bound within' m' fits'
  rw [alike, same] at there
  cases ends : executeProgram bound program m with
  | ok _ r =>
    rw [ends] at here
    rw [here.2.2] at there
    cases ends' : executeProgram bound program' m' with
    | ok _ r' =>
      rw [ends'] at there
      injection there.2.2 with _ alike'
      exact ⟨here.1, there.1, alike'.symm⟩
    | error stop' r' =>
      rw [ends'] at there
      cases there.2
  | error stop r =>
    rw [ends] at here
    rw [here.2] at there
    cases ends' : executeProgram bound program' m' with
    | ok _ r' =>
      rw [ends'] at there
      cases there.2.2
    | error stop' r' =>
      rw [ends'] at there
      injection there.2 with stops alike'
      exact ⟨stops.symm, alike'.symm⟩

end

/-- Machines that look alike without lines and flushes get the same answer when they flush. -/
theorem Sink.flush_alike {distances : Distances} {r r' : Machine}
    (alike : r'.mirror (.plain distances) = r.mirror (.plain distances))
    (ignores : r.sink.policy.IgnoresFlushes) : r'.sink.flush.1 = r.sink.flush.1 := by
  have sinks : r'.sink.mirror (.plain distances) = r.sink.mirror (.plain distances) :=
    congrArg Machine.sink alike
  have policy : r'.sink.policy = r.sink.policy := congrArg (·.policy) sinks
  have tally : { r'.sink.tally with flushes := 0 } = { r.sink.tally with flushes := 0 } :=
    congrArg (·.tally) sinks
  calc r'.sink.flush.1
      = r.sink.policy.refusesFlush r'.sink.tally := by rw [← policy]; rfl
    _ = r.sink.policy.refusesFlush { r'.sink.tally with flushes := 0 } := (ignores _ 0).2.symm
    _ = r.sink.policy.refusesFlush { r.sink.tally with flushes := 0 } := by rw [tally]
    _ = r.sink.flush.1 := (ignores _ 0).2

/-- Where the first of two programs ends, the second goes on. -/
theorem interpret_append {bound : Nat} {ss : List Stmt} {m r : Machine}
    (ends : executeProgram bound ss m = .ok () r) (ss' : List Stmt) :
    interpret bound (ss ++ ss') m = interpret bound ss' r := by
  have both : executeProgram bound (ss ++ ss') m = executeProgram bound ss' r := by
    rw [executeProgram_append, Eval.bind_eq, ends]
  unfold interpret
  rw [both]

/-! ## Sessions that are alike -/

namespace Session

/-- An outcome without the lines of runtime errors. -/
def Outcome.lineless : Outcome → Outcome
  | .finished => .finished
  | .failed faults => .failed (faults.map fun
    | .runtime e => .runtime { e with line := 0 }
    | fault => fault)
  | .exhausted => .exhausted

/-- Flushing included, programs that end alike have outcomes that are alike. -/
theorem interpret_alike {bound : Nat} {distances : Distances} {ids : NodeId → Prop}
    {m m' : Machine} {program program' : List Stmt} (ignores : m.sink.policy.IgnoresFlushes)
    (same : (Mirror.plain distances).SameEnd ids (executeProgram bound program m)
      (executeProgram bound program' m')) :
    (Outcome.of (interpret bound program' m')).lineless
        = (Outcome.of (interpret bound program m)).lineless ∧
      ((interpret bound program').leaves m').mirror (.plain distances)
        = ((interpret bound program).leaves m).mirror (.plain distances) := by
  have kept := (restores_executeProgram bound program m).policy
  unfold Eval.leaves at kept ⊢
  unfold interpret
  cases ends : executeProgram bound program m with
  | ok _ r =>
    rw [ends] at same kept
    cases ends' : executeProgram bound program' m' with
    | error stop' r' =>
      rw [ends'] at same
      exact same.elim
    | ok _ r' =>
      rw [ends'] at same
      obtain ⟨-, -, alike⟩ := same
      -- The flush is answered alike, since the policy does not look at how often it was asked.
      have answer := Sink.flush_alike alike (by rw [kept]; exact ignores)
      unfold Sink.flush at answer ⊢
      dsimp only at answer ⊢
      rw [answer]
      cases r.sink.policy.refusesFlush r.sink.tally <;> exact ⟨rfl, alike⟩
  | error stop r =>
    rw [ends] at same
    cases ends' : executeProgram bound program' m' with
    | ok _ r' =>
      rw [ends'] at same
      exact same.elim
    | error stop' r' =>
      rw [ends'] at same
      obtain ⟨stops, alike⟩ := same
      cases stop with
      | error e =>
        cases stop' with
        | error e' =>
          injection stops with errors
          exact ⟨congrArg (fun e => Outcome.failed [.runtime e]) errors, alike⟩
        | exhausted => cases stops
      | exhausted =>
        cases stop' with
        | error e' => cases stops
        | exhausted => exact ⟨rfl, alike⟩

/-- Two sessions agree but for the lines in their code and the flushes that they asked for. -/
structure Alike (s s' : Session) : Prop where
  globals : s'.machine.globals = s.machine.globals
  heap : s'.machine.heap.relabel .lineless = s.machine.heap.relabel .lineless
  distances : ∀ id : NodeId, s'.machine.distances[id]? = s.machine.distances[id]?
  pieces : s'.machine.sink.pieces = s.machine.sink.pieces
  clock : s'.machine.clock = s.machine.clock
  nextId : s'.nextId = s.nextId

end Session

/-- The sink of a session keeps its policy. -/
theorem Session.policy_after (policy : Sink.Policy) (maxDepth : Nat) (clock : Clock)
    (inputs : List Input) :
    ((Session.fresh policy maxDepth clock).after inputs).machine.sink.policy = policy := by
  refine Session.after_induction (motive := (·.machine.sink.policy = policy)) rfl ?_ inputs
  intro session input before
  cases checked : (checkSource input.source session.nextId).outcome with
  | error faults =>
    rw [Session.receive_of_error checked]
    exact before
  | ok program =>
    rw [Session.receive_of_ok checked]
    exact (restores_interpret input.bound program.statements _).policy.trans before

theorem Session.receive_fst {session : Session} {input : Input} {program : Program}
    (accepted : (checkSource input.source session.nextId).outcome = .ok program) :
    (session.receive input).1
      = .of (interpret input.bound program.statements (session.prepared program)) :=
  Session.runWithin_fst accepted

/-- An input that finishes was accepted, and its program ended before the flush. -/
theorem Session.receive_finished {session : Session} {input : Input}
    (finished : (session.receive input).1 = .finished) :
    ∃ (program : Program) (r : Machine),
      (checkSource input.source session.nextId).outcome = .ok program ∧
      executeProgram input.bound program.statements (session.prepared program) = .ok () r ∧
      (session.receive input).2.machine = { r with sink := r.sink.flush.2 } := by
  cases checked : (checkSource input.source session.nextId).outcome with
  | error faults =>
    rw [Session.receive_of_error checked] at finished
    cases finished
  | ok program =>
    rw [Session.receive_fst checked] at finished
    have machine := congrArg Session.machine (Session.receive_of_ok checked)
    unfold Eval.leaves at machine
    unfold interpret at finished machine
    cases ends : executeProgram input.bound program.statements (session.prepared program) with
    | ok _ r =>
      refine ⟨program, r, rfl, ends, ?_⟩
      rw [ends] at finished machine
      unfold Sink.flush at finished machine ⊢
      dsimp only at finished machine ⊢
      cases refusal : r.sink.policy.refusesFlush r.sink.tally with
      | none =>
        rw [refusal] at machine
        exact machine
      | some reason =>
        rw [refusal] at finished
        cases finished
    | error stop r =>
      rw [ends] at finished
      cases stop <;> cases finished

/-- An input and a source behind it. -/
def Input.withSource (input : Input) (source : String) : Input :=
  { input with source := source }

/-- Without lines it does not show from which line they are counted. -/
theorem map_relabel_below (k : Nat) (ss : List Stmt) :
    (ss.map (Stmt.relabel (.below k))).map (Stmt.relabel .lineless)
      = ss.map (Stmt.relabel .lineless) := by
  rw [List.map_map]
  exact List.map_congr_left fun s _ => Stmt.relabel_relabel s

theorem within_below {ids : NodeId → Prop} (k : Nat) {ss : List Stmt}
    (within : ∀ s ∈ ss, s.Within ids) : ∀ s ∈ ss.map (Stmt.relabel (.below k)), s.Within ids := by
  intro s member
  obtain ⟨old, found, rfl⟩ := List.mem_map.mp member
  intro a uses
  rw [Stmt.accesses_relabel] at uses
  obtain ⟨b, used, rfl⟩ := List.mem_map.mp uses
  rw [Access.id_relabel]
  exact within old found b used

namespace Consistent

variable {programs : List Program} {total : Nat} {events : List Event} {session : Session}
  {input : Input}

/-- A session is ready for a program that it accepts, seen without lines and flushes. -/
theorem fits (consistent : Consistent True programs total events session)
    (ignores : session.machine.sink.policy.IgnoresFlushes) {ids : NodeId → Prop}
    (old : ∀ id, id < total → ids id) (program : Program) {distances : Distances}
    (table : ∀ id, ids id →
      distances[id]? = (program.distances[id]?).or session.machine.distances[id]?) :
    (session.prepared program).Fits (.plain distances) ids where
  heap := consistent.within.mono old
  distances id inside :=
    (table id inside).trans (Machine.distances_learn _ program.distances id).symm
  writes tally := (ignores tally 0).1

/-- The statements of a program that is accepted are within the ids that are given out then. -/
theorem within_accepted (consistent : Consistent True programs total events session)
    {program : Program} (checked : (checkSource input.source session.nextId).outcome = .ok program)
    (few : total + idsTaken input.source session.nextId ≤ Parser.idCount) :
    ∀ s ∈ program.statements, s.Within (· < total + idsTaken input.source session.nextId) := by
  have range := consistent.range few
  intro s member a used
  exact ((range.2 _).mp ((accepted_checkSource checked).within range.1 s member a used)).2

/-- A program that is accepted has no entries for ids that were given out before. -/
theorem distance_old (consistent : Consistent True programs total events session)
    {program : Program} (checked : (checkSource input.source session.nextId).outcome = .ok program)
    (few : total + idsTaken input.source session.nextId ≤ Parser.idCount) {id : NodeId}
    (old : id < total) : program.distances[id]? = none := by
  have range := consistent.range few
  refine (accepted_checkSource checked).distance_of_not_mem range.1 fun inside => ?_
  exact absurd ((range.2 id).mp inside).1 (Nat.not_le.mpr old)

/-- The first program does the same alone and as the first part of a whole. -/
theorem first_part (consistent : Consistent True programs total events session)
    (ignores : session.machine.sink.policy.IgnoresFlushes) {first whole : Program}
    (checked : (checkSource input.source session.nextId).outcome = .ok first)
    (few : total + idsTaken input.source session.nextId ≤ Parser.idCount)
    (table : ∀ id, id < total + idsTaken input.source session.nextId →
      whole.distances[id]? = first.distances[id]?)
    {r : Machine}
    (ends : executeProgram input.bound first.statements (session.prepared first) = .ok () r) :
    ∃ r', executeProgram input.bound (first.statements.map (Stmt.relabel (.below 0)))
        (session.prepared whole) = .ok () r' ∧
      r'.heap.Within (· < total + idsTaken input.source session.nextId) ∧
      ∀ distances, r'.mirror (.plain distances) = r.mirror (.plain distances) := by
  have old : ∀ id, id < total → id < total + idsTaken input.source session.nextId :=
    fun id small => Nat.lt_of_lt_of_le small (Nat.le_add_right _ _)
  have within := consistent.within_accepted checked few
  have learned (id : NodeId) := Machine.distances_learn session.machine
    first.distances id
  have alone := consistent.fits ignores old first fun id _ => learned id
  have inside := consistent.fits ignores old whole
    fun id small => (learned id).trans (by rw [table id small])
  have same := executeProgram_alike input.bound (map_relabel_below 0 first.statements) within
    (within_below 0 within) alone inside rfl
  rw [ends] at same
  cases ends' : executeProgram input.bound (first.statements.map (Stmt.relabel (.below 0)))
      (session.prepared whole) with
  | error stop r' =>
    rw [ends'] at same
    exact same.elim
  | ok _ r' =>
    rw [ends'] at same
    obtain ⟨-, fits, alike⟩ := same
    -- The table in a mirror has nothing to do with the machine.
    exact ⟨r', rfl, fits.heap, fun distances => congrArg ({ · with distances := distances }) alike⟩

/-- The second program does the same after the first and as the second part of a whole. -/
theorem second_part (consistent : Consistent True programs total events session)
    (ignores : session.machine.sink.policy.IgnoresFlushes) {second : Program}
    (checked : (checkSource input.source session.nextId).outcome = .ok second)
    (few : total + idsTaken input.source session.nextId ≤ Parser.idCount) {r : Machine}
    (within : r.heap.Within (· < total))
    (table : ∀ id : NodeId,
      (session.prepared second).distances[id]? = r.distances[id]?)
    (policy : r.sink.policy = session.machine.sink.policy)
    (alike : ∀ distances, r.mirror (.plain distances)
      = (session.prepared second).mirror (.plain distances)) (k : Nat) :
    (Session.Outcome.of
        (interpret input.bound (second.statements.map (Stmt.relabel (.below k))) r)).lineless
        = (session.receive input).1.lineless ∧
      ∀ distances, ((interpret input.bound
          (second.statements.map (Stmt.relabel (.below k)))).leaves r).mirror (.plain distances)
        = (session.receive input).2.machine.mirror (.plain distances) := by
  have old : ∀ id, id < total → id < total + idsTaken input.source session.nextId :=
    fun id small => Nat.lt_of_lt_of_le small (Nat.le_add_right _ _)
  have alone := consistent.fits ignores old second fun id _ =>
    Machine.distances_learn session.machine second.distances id
  have inside : r.Fits (.plain (session.prepared second).distances)
      (· < total + idsTaken input.source session.nextId) := by
    refine ⟨within.mono old, fun id _ => table id, fun tally => ?_⟩
    rw [policy]
    exact (ignores tally 0).1
  have statements := consistent.within_accepted checked few
  have same := executeProgram_alike input.bound (map_relabel_below k second.statements) statements
    (within_below k statements) alone inside (alike _)
  have policy' : (session.prepared second).sink.policy.IgnoresFlushes := ignores
  obtain ⟨outcome, leaves⟩ := Session.interpret_alike policy' same
  rw [Session.receive_fst checked, Session.receive_of_ok checked]
  exact ⟨outcome, fun distances => congrArg ({ · with distances := distances }) leaves⟩

/-- **A source in two parts**: if the first part finishes, the whole does what the second part does
after it. -/
theorem joined (consistent : Consistent True programs total events session)
    {other : String} (ignores : session.machine.sink.policy.IgnoresFlushes)
    (enough : total + session.idsTaken [input, input.withSource other] ≤ Parser.idCount)
    (finished : (session.receive input).1 = .finished) {second : Program}
    (accepted : (checkSource other (session.receive input).2.nextId).outcome = .ok second)
    {source : String} (parts : source = input.source ++ "\n" ++ other) :
    (session.receive (input.withSource source)).1.lineless
        = ((session.receive input).2.receive (input.withSource other)).1.lineless ∧
      ((session.receive input).2.receive (input.withSource other)).2.Alike
        (session.receive (input.withSource source)).2 := by
  obtain ⟨first, r, checked, ends, machine⟩ := Session.receive_finished finished
  obtain ⟨whole, k, checkedWhole, nextIdWhole, statements, distances⟩ :=
    checkSource_joined checked (Session.nextId_receive session input ▸ accepted)
  rw [← parts] at checkedWhole nextIdWhole
  change (checkSource (input.withSource source).source session.nextId).outcome = _ at checkedWhole
  change (checkSource (input.withSource other).source _).outcome = _ at accepted
  unfold Session.idsTaken Session.idsTaken Session.idsTaken at enough
  have few : total + idsTaken input.source session.nextId ≤ Parser.idCount := by omega
  have few' : total + idsTaken input.source session.nextId
      + idsTaken (input.withSource other).source (session.receive input).2.nextId
        ≤ Parser.idCount := by omega
  have consistent' := consistent.receive input fun _ => few
  obtain ⟨r', ends', within, alike⟩ := consistent.first_part ignores checked few
    (fun id small => by
      rw [distances, consistent'.distance_old accepted few' small,
        Option.none_or])
    ends
  have kept := (restores_executeProgram _ _).of_ok ends
  have kept' := (restores_executeProgram _ _).of_ok ends'
  have policy : (session.receive input).2.machine.sink.policy = session.machine.sink.policy := by
    rw [machine]
    exact kept.policy
  -- The tables have the same entries, whether they were learned together or one by one.
  have merged : ∀ id : NodeId, (second.distances[id]?).or
      (session.receive input).2.machine.distances[id]?
        = (whole.distances[id]?).or session.machine.distances[id]? := by
    intro id
    rw [Session.distances_receive checked, distances, Option.or_assoc]
  have table : ∀ id : NodeId,
      ((session.receive input).2.prepared second).distances[id]?
        = r'.distances[id]? := by
    intro id
    calc ((session.receive input).2.prepared second).distances[id]?
        = (second.distances[id]?).or (session.receive input).2.machine.distances[id]? :=
          Machine.distances_learn _ second.distances id
      _ = (whole.distances[id]?).or session.machine.distances[id]? := merged id
      _ = (session.prepared whole).distances[id]? :=
          (Machine.distances_learn _ whole.distances id).symm
      _ = r'.distances[id]? := congrArg (·[id]?) kept'.distances.symm
  have seam : ∀ d, r'.mirror (.plain d)
      = ((session.receive input).2.prepared second).mirror (.plain d) := by
    intro d
    rw [alike d]
    unfold Session.prepared
    rw [machine]
    rfl
  obtain ⟨outcome, leaves⟩ := consistent'.second_part
    (by rw [policy]; exact ignores) accepted few' within table (kept'.policy.trans policy.symm) seam k
  have goesOn := interpret_append ends' (second.statements.map (Stmt.relabel (.below k)))
  rw [← statements] at goesOn
  have wholeEnds := Session.receive_fst checkedWhole
  have wholeLeaves := Session.receive_of_ok checkedWhole
  have both : (interpret input.bound whole.statements).leaves
      (session.prepared whole)
        = (interpret input.bound (second.statements.map (Stmt.relabel (.below k)))).leaves r' := by
    unfold Eval.leaves
    rw [goesOn]
  have globals := congrArg Machine.globals (leaves ∅)
  have heap := congrArg Machine.heap (leaves ∅)
  have pieces := congrArg (·.sink.pieces) (leaves ∅)
  have clock := congrArg Machine.clock (leaves ∅)
  refine ⟨?_, ?_, ?_, fun id => ?_, ?_, ?_, ?_⟩
  · rw [wholeEnds]
    exact (congrArg (Session.Outcome.lineless <| .of ·) goesOn).trans outcome
  · rw [wholeLeaves]
    exact (congrArg Machine.globals both).trans globals
  · rw [wholeLeaves]
    exact (congrArg (·.heap.relabel .lineless) both).trans heap
  · rw [Session.distances_receive checkedWhole, Session.distances_receive accepted]
    exact (merged id).symm
  · rw [wholeLeaves]
    exact (congrArg (·.sink.pieces) both).trans pieces
  · rw [wholeLeaves]
    exact (congrArg Machine.clock both).trans clock
  · rw [Session.nextId_receive, Session.nextId_receive, Session.nextId_receive]
    exact nextIdWhole

end Consistent

/-- **A program may be given in pieces.** If the first of two sources finishes and the second is
accepted after it, then both in one source, with a line break between them, end as the second one
does and leave a session that agrees with what is left then: it has the same globals, its heap has
the same contents but for the lines in code, the same text was printed, and the clock was read as
often. This holds in every session, as long as there are ids enough and the sink does not count
flushes. -/
theorem whole_runs_as_pieces {policy : Sink.Policy} (ignores : policy.IgnoresFlushes)
    (maxDepth : Nat) (clock : Clock) (inputs : List Input) {session : Session}
    (reached : (Session.fresh policy maxDepth clock).after inputs = session) (input : Input)
    (other : String)
    (enough : (Session.fresh policy maxDepth clock).idsTaken
      (inputs ++ [input, input.withSource other]) ≤ Parser.idCount)
    (finished : (session.receive input).1 = .finished)
    (accepted : (checkSource other (session.receive input).2.nextId).outcome.isOk = true) :
    (session.receive (input.withSource (input.source ++ "\n" ++ other))).1.lineless
        = ((session.receive input).2.receive (input.withSource other)).1.lineless ∧
      ((session.receive input).2.receive (input.withSource other)).2.Alike
        (session.receive (input.withSource (input.source ++ "\n" ++ other))).2 := by
  subst reached
  rw [Session.idsTaken_append] at enough
  have consistent := (consistent_fresh True policy maxDepth clock).after inputs fun _ => by omega
  rw [List.nil_append, Nat.zero_add] at consistent
  have policy' := Session.policy_after policy maxDepth clock inputs
  cases checked : (checkSource other _).outcome with
  | error faults =>
    rw [checked] at accepted
    cases accepted
  | ok second =>
    exact consistent.joined (by rw [policy']; exact ignores) enough finished checked rfl

/-- A declaration and its use, given in pieces to a session that has seen another input. -/
theorem declaration_and_use_run_as_pieces :
    ((Session.fresh .accepting 5 (.steady 0)).after
        [⟨"var b = true;", 20⟩, ⟨"var a = nil;\nprint a;", 20⟩]).machine.sink.text = "nil\n" ∧
      ((Session.fresh .accepting 5 (.steady 0)).after
        [⟨"var b = true;", 20⟩, ⟨"var a = nil;", 20⟩, ⟨"print a;", 20⟩]).Alike
      ((Session.fresh .accepting 5 (.steady 0)).after
        [⟨"var b = true;", 20⟩, ⟨"var a = nil;\nprint a;", 20⟩]) := by
  have ignores : Sink.Policy.accepting.IgnoresFlushes := fun _ _ => ⟨rfl, rfl⟩
  constructor
  · cbv
  · exact (whole_runs_as_pieces ignores 5 (.steady 0) [⟨"var b = true;", 20⟩] rfl
      ⟨"var a = nil;", 20⟩ "print a;" (by cbv) (by cbv) (by cbv)).2

end Lox
