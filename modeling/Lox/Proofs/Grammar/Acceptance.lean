import Lox.Proofs.Grammar.Nearest

/-!
# The parser accepts its grammar

A program is read exactly if its tokens are derived by the grammar, and the tree is that of the
derivation in which each `else` is at the nearest `if`.

Read tokens are derived by soundness, and derived tokens have a derivation with each `else` at the
nearest `if`, which completeness reads. So soundness need not keep track of the `if` that an `else`
was read for: the tree that is read is the one that completeness gives.
-/

set_option autoImplicit false

namespace Lox.Parser

open Cursor Grammar

variable {last : Token} {n m k bound : Nat}

/-- Where the declarations are read without a fault, they are derived. -/
theorem derived_of_declarations (ended : last.kind.agrees .eof = true) {ts : List Token}
    (unended : ∀ t ∈ ts, t.kind.agrees .eof = false) (turns : ts.length < n)
    (few : ts.length ≤ bound) {read program : List Stmt} {c : Cursor}
    (ok : declarations bound n read [] (before ts last m) = (program, [], c)) :
    ∃ as k, program = read.reverse ++ as ∧ Program False ts m as k := by
  induction n generalizing ts m read with
  | zero => exact absurd turns (Nat.not_lt_zero _)
  | succ n ih =>
    unfold declarations at ok
    cases ts with
    | nil =>
      rw [atEnd_before_nil, if_pos rfl] at ok
      cases ok
      exact ⟨[], m, (List.append_nil _).symm, .nil⟩
    | cons t ts =>
      rw [atEnd_before_cons, unended t List.mem_cons_self, if_neg Bool.false_ne_true] at ok
      cases here : declaration bound (before (t :: ts) last m) with
      | error fault c' =>
        rw [here] at ok
        exact absurd (faults_declarations (congrArg (·.2.1) ok)) (List.cons_ne_nil _ _)
      | ok s c' =>
        rw [here] at ok
        obtain ⟨us, ts', k, split, rfl, derived⟩ :=
          (sound_statement_declaration ended bound).2 (t :: ts) m few s c' here
        have length := congrArg List.length split
        rw [List.length_append] at length
        have pos := derived.pos
        have unended' : ∀ t' ∈ ts', t'.kind.agrees .eof = false := fun t' member =>
          unended t' (split ▸ List.mem_append_right us member)
        obtain ⟨as, k', rfl, rest⟩ := ih unended' (by omega) (by omega) ok
        refine ⟨s :: as, k', ?_, split ▸ .cons derived rest⟩
        rw [List.reverse_cons, List.append_assoc, List.singleton_append]

/-- Declarations that are derived with each `else` at the nearest `if` are read without a fault. -/
theorem declarations_of_derived {us : List Token} {as : List Stmt} (it : Program True us m as k)
    (turns : us.length ≤ n) (few : us.length ≤ bound) (read : List Stmt) :
    declarations bound n read [] (before us last m) = (read.reverse ++ as, [], before [] last k) := by
  induction it generalizing n read with
  | nil => rw [declarations_at_end n read atEnd_before_nil, List.append_nil]
  | @cons us vs _ _ _ s as first rest ih =>
    rw [List.length_append] at turns few
    have pos := first.pos
    obtain ⟨n, rfl⟩ := Nat.exists_eq_add_one.mpr (show 0 < n by omega)
    have behind : Unbranched vs := by
      have none : Unbranched [] := nofun
      have whole := unbranched_of_many rest none
      rwa [List.append_nil] at whole
    have taken : declaration bound (before (us ++ vs) last _) = .ok s (before vs last _) :=
      (takes_statement_declaration bound).2 _ _ _ _ first (by omega) vs behind
    obtain ⟨t, us', rfl, begins⟩ := first.first
    rw [declarations, List.cons_append, atEnd_before_cons, unended_of_beginsDeclaration begins,
      if_neg Bool.false_ne_true, ← List.cons_append, taken]
    dsimp only
    rw [ih (by omega) (by omega) (s :: read), List.reverse_cons, List.append_assoc,
      List.singleton_append]

/-- A program is read from the cursor before its tokens. -/
theorem start_eq_before (tokens : Tokens) (firstId : NodeId) {first : Token} {rest : List Token}
    (here : tokens.all = first :: rest) :
    start first rest firstId = before tokens.body tokens.last firstId := by
  unfold Tokens.all at here
  cases body : tokens.body with
  | nil =>
    rw [body] at here
    cases here
    rfl
  | cons t ts =>
    rw [body] at here
    cases here
    rfl

/-- What is derived with each `else` at the nearest `if` is the program that is read. -/
theorem parse_of_derived (tokens : Tokens) {firstId : NodeId} {program : List Stmt}
    (it : Program True tokens.body firstId program n) :
    parse tokens.all firstId = ⟨.ok program, n % idCount⟩ := by
  obtain ⟨first, rest, here⟩ := tokens.exists_cons
  have few : tokens.body.length ≤ (first :: rest).length := by
    rw [← here, tokens.length_all]
    exact Nat.le_succ _
  rw [here]
  unfold parse
  dsimp only
  rw [start_eq_before tokens firstId here, declarations_of_derived it few few []]
  rfl

/-- With each `else` at the nearest `if` the grammar is not ambiguous. -/
theorem derived_unique (tokens : Tokens) {firstId m : NodeId} {program program' : List Stmt}
    (it : Program True tokens.body firstId program n)
    (it' : Program True tokens.body firstId program' m) : program = program' :=
  Except.ok.inj (congrArg Parsed.outcome
    ((parse_of_derived tokens it).symm.trans (parse_of_derived tokens it')))

/-- A program that is read is derived. -/
theorem derived_of_parse (tokens : Tokens) {firstId : NodeId} {program : List Stmt}
    (ok : (parse tokens.all firstId).outcome = .ok program) :
    ∃ m, Program False tokens.body firstId program m := by
  obtain ⟨first, rest, here⟩ := tokens.exists_cons
  obtain ⟨c, loop, -⟩ := declarations_of_parse here ok
  rw [start_eq_before tokens firstId here, tokens.length_all] at loop
  obtain ⟨as, m, rfl, derived⟩ := derived_of_declarations tokens.ended tokens.unended
    (Nat.lt_succ_self _) (Nat.le_succ _) loop
  exact ⟨m, derived⟩

/-- **The parser accepts its grammar.** Tokens are read as a program if and only if they are derived
as one, and they are read as the tree that is derived with each `else` at the nearest `if`. -/
theorem parse_ok_iff_derived (tokens : Tokens) (firstId : NodeId) :
    ((∃ program, (parse tokens.all firstId).outcome = .ok program) ↔
        ∃ program n, Program False tokens.body firstId program n) ∧
      ∀ program, (parse tokens.all firstId).outcome = .ok program ↔
        ∃ n, Program True tokens.body firstId program n := by
  have accepts {program : List Stmt} {n : Nat}
      (it : Program True tokens.body firstId program n) :
      (parse tokens.all firstId).outcome = .ok program :=
    congrArg Parsed.outcome (parse_of_derived tokens it)
  refine ⟨⟨?_, ?_⟩, fun program => ⟨fun ok => ?_, ?_⟩⟩
  · rintro ⟨program, ok⟩
    exact ⟨program, derived_of_parse tokens ok⟩
  · rintro ⟨program, n, it⟩
    obtain ⟨program', nearest⟩ := Program.nearest it
    exact ⟨program', accepts nearest⟩
  · obtain ⟨n, it⟩ := derived_of_parse tokens ok
    obtain ⟨program', nearest⟩ := Program.nearest it
    -- The two trees have been read from the same tokens.
    obtain rfl : program = program' := Except.ok.inj (ok.symm.trans (accepts nearest))
    exact ⟨n, nearest⟩
  · rintro ⟨n, it⟩
    exact accepts it

end Lox.Parser
