import Mathlib
import Lox.Proofs.Renaming.Choices
import Lox.Proofs.Renaming.Runs

/-!
# Renaming the variables of a program

If the new name occurs nowhere in a program, then the program renamed is analysed to the same table
and runs as the program does: both start on the same machine, on which there is no code yet.
-/

set_option autoImplicit false

namespace Lox

/-! ## Runs -/

/-- Runs a program on a new machine. -/
def Program.run (program : Program) (bound : Nat) (policy : Sink.Policy) (maxDepth : Nat)
    (clock : Clock) : EStateM.Result Stop Machine Unit :=
  interpret bound program.statements
    ((Machine.new .empty policy maxDepth clock).learn program.distances)

/-- Two runs end alike: they leave the same output, and both end, or both stop for the same reason
but for the name in it. -/
inductive Renaming.Alike (ρ : Renaming) :
    EStateM.Result Stop Machine Unit → EStateM.Result Stop Machine Unit → Prop
  | finished {m m' : Machine} (output : m'.sink = m.sink) : ρ.Alike (.ok () m) (.ok () m')
  | stopped {stop stop' : Stop} {m m' : Machine} (why : stop.Renamed ρ stop')
    (output : m'.sink = m.sink) : ρ.Alike (.error stop m) (.error stop' m')

theorem Renaming.Alike.of_ends {ρ : Renaming} {world : World} {marks : List Bool}
    {ends ends' : EStateM.Result Stop Machine Unit}
    (same : Eval.EndsRenamed ρ world marks Eval.Same ends ends') : ρ.Alike ends ends' := by
  cases same with
  | ok _ machine _ => exact .finished (by rw [machine.rest])
  | error _ machine why => exact .stopped why (by rw [machine.rest])

/-- What the analysis finds for a program that is accepted. -/
theorem Program.Accepted.resolve {program : Program} {lo hi : Nat}
    (accepted : program.Accepted lo hi) :
    Lox.resolve program.statements = ⟨program.distances, []⟩ := by
  unfold Lox.resolve
  dsimp only
  rw [accepted.silent, accepted.distances]
  rfl

/-- On a new machine there is nothing to rename yet. -/
theorem Machine.renamed_new {ρ : Renaming} {distances distances' : Distances}
    (table : ∀ id : NodeId, distances[id]? = ρ.table[id]?)
    (table' : ∀ id : NodeId, distances'[id]? = ρ.table[id]?)
    (policy : Sink.Policy) (maxDepth : Nat) (clock : Clock) :
    Machine.Renamed ρ [[], []] [] ((Machine.new .empty policy maxDepth clock).learn distances)
      ((Machine.new .empty policy maxDepth clock).learn distances') where
  heap := by
    refine ⟨rfl, rfl, fun a marks found => ?_⟩
    rcases a with _ | _ | a
    · obtain rfl : [] = marks := Option.some.inj found
      exact ⟨.identity, .identity, rfl, rfl, .identity⟩
    · obtain rfl : [] = marks := Option.some.inj found
      exact ⟨_, _, rfl, rfl, .frame ⟨rfl, .outermost, .of_data (Bindings.forall_single trivial)⟩⟩
    · cases found
  rest := rfl
  root := rfl
  here := rfl
  table id := (Machine.distances_learn _ _ id).trans (Option.or_none.trans (table id))
  table' id := (Machine.distances_learn _ _ id).trans (Option.or_none.trans (table' id))

/-- **Renaming a local variable changes nothing.** In a program that is accepted, some scopes are
chosen, each of which declares the old name as a variable or a parameter; to rename a single
declaration, only its own scope is. The declarations and the uses that lead to them get a name that
occurs nowhere in the program. Then the program renamed is accepted with the same table, and it
prints what the program prints and ends as the program ends. -/
theorem renaming_changes_nothing {source : String} {firstId : NodeId} {program : Program}
    (accepted : (checkSource source firstId).outcome = .ok program) (ρ : Renaming)
    (table : ρ.table = program.distances) (chosen : Choice)
    (fresh : ρ.new ∉ Stmt.namesOfAll program.statements)
    (declare : Stmt.AllDeclare ρ.old program.statements chosen) :
    ∃ renamed : Program,
      checkStatements (Stmt.renameAll ρ program.statements chosen []) = .ok renamed ∧
      (∀ id : NodeId, renamed.distances[id]? = program.distances[id]?) ∧
      ∀ (bound : Nat) (policy : Sink.Policy) (maxDepth : Nat) (clock : Clock),
        ρ.Alike (program.run bound policy maxDepth clock)
          (renamed.run bound policy maxDepth clock) := by
  have accepted := accepted_checkSource accepted
  have spared : Stmt.AllSpare ρ.old program.statements chosen false :=
    Stmt.allSpare_of_declare program.statements (accepted.declared.formed trivial) chosen false
      accepted.silent declare fun marked => absurd marked Bool.false_ne_true
  have code : Stmt.AllRenamed ρ [] program.statements _ :=
    Stmt.allRenamed_renameAll program.statements chosen []
      (fun name member same => fresh (same ▸ member)) spared
  have found := accepted.resolve
  obtain ⟨silent, same⟩ := resolve_renamed code (by rw [found]) (by rw [found, table])
  rw [found] at same
  refine ⟨⟨Stmt.renameAll ρ program.statements chosen [],
    (resolve (Stmt.renameAll ρ program.statements chosen [])).distances⟩, ?_, same, ?_⟩
  · unfold checkStatements
    dsimp only
    rw [silent]
    rfl
  · intro bound policy maxDepth clock
    refine .of_ends (Eval.renames_interpret bound [[], []] code _ _ ?_)
    exact Machine.renamed_new (fun id => by rw [table]) (fun id => by rw [table, same id]) policy
      maxDepth clock

/-- Of two variables with one name only the outer one is renamed, with its use in the function that
captures it. -/
theorem renaming_a_captured_variable :
    ∃ program renamed : Program,
      (checkSource "{ var a; fun f() { print a; } { var a = f; f(); } }" 0).outcome = .ok program ∧
      (checkSource "{ var b; fun f() { print b; } { var a = f; f(); } }" 0).outcome = .ok renamed ∧
      (∀ id : NodeId, renamed.distances[id]? = program.distances[id]?) ∧
      ∃ ρ : Renaming, ρ.old = "a" ∧ ρ.new = "b" ∧
        ∀ (bound : Nat) (policy : Sink.Policy) (maxDepth : Nat) (clock : Clock),
          ρ.Alike (program.run bound policy maxDepth clock)
            (renamed.run bound policy maxDepth clock) := by
  have accepted : (checkSource "{ var a; fun f() { print a; } { var a = f; f(); } }" 0).outcome
      = .ok ⟨[.block [.var ⟨"a", 1⟩ none,
          .function (.mk ⟨"f", 1⟩ [] [.print (.variable 0 ⟨"a", 1⟩)]),
          .block [.var ⟨"a", 1⟩ (some (.variable 1 ⟨"f", 1⟩)),
            .expression (.call (.variable 2 ⟨"f", 1⟩) [] 1)]]],
        .ofList [(0, 1), (1, 1), (2, 1)]⟩ := by cbv
  obtain ⟨renamed, checked, same, alike⟩ := renaming_changes_nothing accepted
    ⟨"a", "b", _, by decide, by decide, by decide⟩ rfl (.single [0]) (by decide)
    (by simp [Stmt.AllDeclare, Stmt.Declares, FunctionDecl.Declares, Stmt.variable?, Choice.single,
      Choice.part, Choice.rest])
  refine ⟨_, renamed, accepted, ?_, same, _, rfl, rfl, alike⟩
  rw [← checked]
  cbv

end Lox
