import Mathlib
import Lox.Proofs.Pieces

/-!
# Ids in a session

An id is given out once. The counter never goes back, so the uses in a program have ids of their own,
between the counter before and after. Each program of a session brings entries for its own ids only,
and those of earlier programs are below them: what is learned adds to the table and changes nothing
in it. All code in the heap comes from earlier programs, so its uses keep their distances.
-/

set_option autoImplicit false

namespace Lox

namespace Parser

variable {α : Type}

/-- The cursor that a rule leaves behind, whether it succeeds or fails. -/
def leaves (p : Parser α) (c : Cursor) : Cursor :=
  match p c with
  | .ok _ c' => c'
  | .error _ c' => c'

theorem Yields.nextId_le {p : Parser α} {post : Nat → Nat → α → Prop}
    (yields : Yields False p post) (c : Cursor) : c.nextId ≤ (leaves p c).nextId := by
  have here := yields c False.elim
  unfold leaves
  cases ends : p c with
  | ok a c' =>
    rw [ends] at here
    exact here.2.1
  | error e c' =>
    rw [ends] at here
    exact here.2

/-- Before the end of the ids is reached, the counter after a program is as many ids further as
were taken. -/
theorem nextId_parse_of_lt {tokens : List Token} {firstId : NodeId}
    (few : firstId + idsTaken tokens firstId < idCount) :
    (parse tokens firstId).nextId = firstId + idsTaken tokens firstId := by
  have small : firstId < idCount := Nat.lt_of_le_of_lt (Nat.le_add_right _ _) few
  rw [nextId_parse tokens small, Nat.mod_eq_of_lt few]

end Parser

/-! ## Sessions -/

namespace Consistent

variable {programs : List Program} {total : Nat} {events : List Event} {session : Session}

/-- **What a program brings was not in the table.** -/
theorem not_mem_distances (consistent : Consistent True programs total events session)
    {input : Input} {program : Program}
    (checked : (checkSource input.source session.nextId).outcome = .ok program)
    (few : total + idsTaken input.source session.nextId ≤ Parser.idCount) {id : NodeId}
    (new : id ∈ program.distances) : id ∉ session.machine.distances := by
  intro known
  rw [Std.TreeMap.mem_iff_isSome_getElem?] at new known
  by_cases old : id < total
  · rw [consistent.distance_old checked few old] at new
    cases new
  · rw [consistent.table trivial id (Nat.le_of_not_lt old)] at known
    cases known

/-- An input changes no entry for an id that was given out before. -/
theorem distances_receive_old (consistent : Consistent True programs total events session)
    {input : Input} (few : total + idsTaken input.source session.nextId ≤ Parser.idCount)
    {id : NodeId} (old : id < total) :
    (session.receive input).2.machine.distances[id]? = session.machine.distances[id]? := by
  cases checked : (checkSource input.source session.nextId).outcome with
  | error faults => rw [Session.receive_of_error checked]
  | ok program =>
    rw [Session.distances_receive checked, consistent.distance_old checked few old,
      Option.none_or]

/-- **Later inputs leave the entries of earlier ids alone.** -/
theorem distances_after_old (consistent : Consistent True programs total events session)
    (inputs : List Input) (few : total + session.idsTaken inputs ≤ Parser.idCount) {id : NodeId}
    (old : id < total) :
    (session.after inputs).machine.distances[id]? = session.machine.distances[id]? := by
  induction inputs generalizing programs total events session with
  | nil => rfl
  | cons input inputs ih =>
    unfold Session.idsTaken at few
    have next := consistent.receive input fun _ => by omega
    have rest : total + Lox.idsTaken input.source session.nextId
        + (session.receive input).2.idsTaken inputs ≤ Parser.idCount := by omega
    calc (session.after (input :: inputs)).machine.distances[id]?
        = (session.receive input).2.machine.distances[id]? :=
          ih next rest (Nat.lt_of_lt_of_le old (Nat.le_add_right _ _))
      _ = session.machine.distances[id]? := consistent.distances_receive_old (by omega) old

/-- The uses in the programs that were accepted have ids that were given out. -/
theorem id_lt (consistent : Consistent True programs total events session) {program : Program}
    (member : program ∈ programs) {a : Access} (used : a ∈ Stmt.accessesOfAll program.statements) :
    a.id < total := by
  rw [← map_access_programUses] at used
  obtain ⟨u, found, rfl⟩ := List.mem_map.mp used
  exact consistent.below trivial u ⟨program, member, found⟩

end Consistent

/-- **Ids never collide**, as long as there are enough of them. No declaration takes the counter of
ids back, nor does a whole program, also where it is refused; the uses in a program have distinct ids
between the counter before and after. So in a session no program brings an entry for an id that has
one, and no later input changes what the table has for a use in an earlier program or in code that
the heap holds. -/
theorem ids_never_collide :
    (∀ bound c, c.nextId ≤ (Parser.leaves (Parser.declaration bound) c).nextId) ∧
    (∀ (tokens : List Token) (firstId : NodeId),
      firstId + Parser.idsTaken tokens firstId < Parser.idCount →
        firstId ≤ (Parser.parse tokens firstId).nextId ∧
        ∀ program, (Parser.parse tokens firstId).outcome = .ok program →
          ((Stmt.accessesOfAll program).map Access.id).Nodup ∧
          ∀ a ∈ Stmt.accessesOfAll program,
            firstId ≤ a.id ∧ a.id < (Parser.parse tokens firstId).nextId) ∧
    ∀ (policy : Sink.Policy) (maxDepth : Nat) (clock : Clock) (history : List Input) (input : Input)
      (later : List Input) (before after : Session),
      (Session.fresh policy maxDepth clock).idsTaken (history ++ input :: later) ≤ Parser.idCount →
      (Session.fresh policy maxDepth clock).after history = before →
      before.after (input :: later) = after →
        (∀ program, (checkSource input.source before.nextId).outcome = .ok program →
          ∀ id ∈ program.distances, id ∉ before.machine.distances) ∧
        (∀ program ∈ (Session.fresh policy maxDepth clock).programs history,
          ∀ a ∈ Stmt.accessesOfAll program.statements,
            after.machine.distances[a.id]? = before.machine.distances[a.id]?) ∧
        before.machine.heap.Within fun id =>
          after.machine.distances[id]? = before.machine.distances[id]? := by
  refine ⟨fun bound c => (Parser.yields_statement bound).2.nextId_le c, ?_, ?_⟩
  · intro tokens firstId few
    have next := Parser.nextId_parse_of_lt few
    refine ⟨next ▸ Nat.le_add_right _ _, fun program ok => ?_⟩
    have declared := Parser.declared_parse False.elim ok
    rw [next]
    exact declared.issued.ids (Nat.le_of_lt few)
  · rintro policy maxDepth clock history input later before after few rfl rfl
    rw [Session.idsTaken_append] at few
    -- What the session holds before the input has ids below those that the input takes.
    have consistent := (consistent_fresh True policy maxDepth clock).after history fun _ => by omega
    rw [List.nil_append, Nat.zero_add] at consistent
    have same : ∀ id, id < (Session.fresh policy maxDepth clock).idsTaken history → _ :=
      fun id old => consistent.distances_after_old (input :: later) few old
    refine ⟨fun program checked id new => ?_, fun program member a used => ?_, ?_⟩
    · have few' : (Session.fresh policy maxDepth clock).idsTaken history
          + (idsTaken input.source _ + _) ≤ Parser.idCount := few
      exact consistent.not_mem_distances checked (by omega) new
    · exact same a.id (consistent.id_lt member used)
    · exact consistent.within.mono same

/-- The three ids of an assignment that starts at the seventh, and what a second input learns about
its own use. -/
theorem ids_of_inputs_never_collide :
    ((Parser.parse (scan "a = b + c;").1 7).nextId = 10 ∧
      (Parser.parse (scan "a = b + c;").1 7).outcome.isOk = true ∧
      ∀ program, (Parser.parse (scan "a = b + c;").1 7).outcome = .ok program →
        ((Stmt.accessesOfAll program).map Access.id).Nodup) ∧
    ((checkSource "{ var a; a; }" 1).outcome.isOk = true ∧
      ∀ program, (checkSource "{ var a; a; }"
          ((Session.fresh .accepting 5 (.steady 0)).after [⟨"fun f(n) { n; }", 9⟩]).nextId).outcome
          = .ok program →
        ∀ id ∈ program.distances, id ∉ ((Session.fresh .accepting 5 (.steady 0)).after
          [⟨"fun f(n) { n; }", 9⟩]).machine.distances) := by
  obtain ⟨-, parsed, learned⟩ := ids_never_collide
  refine ⟨⟨by cbv, by cbv, fun program ok => ?_⟩, by cbv, ?_⟩
  · exact ((parsed (scan "a = b + c;").1 7 (by cbv)).2 program ok).1
  · exact (learned .accepting 5 (.steady 0) [⟨"fun f(n) { n; }", 9⟩] ⟨"{ var a; a; }", 9⟩ [] _ _
      (by cbv) rfl rfl).1

end Lox
