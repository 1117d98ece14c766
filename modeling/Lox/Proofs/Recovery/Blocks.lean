import Lox.Proofs.Recovery.Nesting

/-!
# Programs with a malformed statement in blocks

After a fault in blocks the loop over the declarations goes on with what is left behind the last of
the boundaries, as it would with a program of its own. So the faults of a program with a malformed
statement in it are the fault of this statement and those of what is left.
-/

set_option autoImplicit false

namespace Lox.Parser

open Cursor Grammar

variable {last : Token} {ts us ws : List Token} {n m b k : Nat} {e : SyntaxError} {c : Cursor}

theorem declarations_past {bound : Nat} {as : List Stmt} (it : Program True us n as m)
    (few : us.length ≤ bound) (behind : Unbranched ws) {turns left : Nat}
    (count : turns = left + as.length) (read : List Stmt) (faults : List SyntaxError) :
    declarations bound turns read faults (before (us ++ ws) last n)
      = declarations bound left (as.reverse ++ read) faults (before ws last m) := by
  subst count
  induction it generalizing read with
  | nil => rfl
  | @cons us vs _ _ _ s as first rest ih =>
    rw [List.length_append] at few
    have taken : declaration bound (before (us ++ (vs ++ ws)) last _) = .ok s _ :=
      (takes_statement_declaration bound).2 _ _ _ _ first (by omega) _
        (unbranched_of_many rest behind)
    obtain ⟨t, us', rfl, begins⟩ := first.first
    have within (id : Nat) : (before (t :: us' ++ (vs ++ ws)) last id).atEnd = false :=
      atEnd_before_cons.trans (unended_of_beginsDeclaration begins)
    rw [List.append_assoc, List.length_cons, ← Nat.add_assoc, declarations_of_ok (within _) taken,
      ih (by omega), List.reverse_cons, List.append_assoc, List.singleton_append]

/-- A fault at the place is noted, and the loop goes on behind as many boundaries as there are
declarations around the place. -/
theorem declarations_of_before (fails : Fails last ts m b e c) (it : Before k us n m)
    (few : us.length + ts.length ≤ b) {turns : Nat} (enough : us.length + ts.length ≤ turns) :
    ∃ read left, ts.length ≤ left + 1 ∧
      declarations b turns [] [] (before (us ++ ts) last n)
        = declarations b left read [e] (synchronized^[k] c) := by
  have within {ts : List Token} {n : Nat} (ready : Ready ts) :
      (before ts last n).atEnd = false := by
    obtain ⟨t, rest, rfl, unended⟩ := ready.within
    exact atEnd_before_cons.trans unended
  obtain ⟨t, rest, some, -⟩ := fails.ready.within
  have pos : 0 < ts.length := some ▸ Nat.succ_pos _
  cases it with
  | @here _ _ _ as it =>
    obtain ⟨left, count, more⟩ := turns_of_many (fun _ _ _ _ it => it.pos) it
      (show us.length < turns by omega)
    refine ⟨as.reverse ++ [], left, by omega, ?_⟩
    rw [declarations_past it (by omega) fails.ready.unbranched count,
      declarations_of_error (within fails.ready) fails.here]
    rfl
  | @inside _ us vs _ i _ as it opened =>
    rw [List.length_append] at few enough
    obtain ⟨left, count, more⟩ := turns_of_many (fun _ _ _ _ it => it.pos) it
      (show us.length < turns by omega)
    have next : Ready (vs ++ ts) := by
      obtain ⟨t, rest, rfl, begins⟩ := opened.first
      exact .of_begins begins
    refine ⟨as.reverse ++ [], left, by omega, ?_⟩
    rw [List.append_assoc, declarations_past it (by omega) next.unbranched count,
      declarations_of_error (within next) (fails.declarations _ _ _ opened (by omega))]

/-- The faults that were found are in front of those that are found later. -/
theorem faults_declarations_append (b n : Nat) (read read' : List Stmt)
    (faults : List SyntaxError) (c : Cursor) :
    (declarations b n read faults c).2.1
      = faults.reverse ++ (declarations b n read' [] c).2.1 := by
  induction n generalizing read read' faults c with
  | zero => exact (List.append_nil _).symm
  | succ n ih =>
    unfold declarations
    split
    · exact (List.append_nil _).symm
    · cases declaration b c with
      | ok s d => exact ih (s :: read) (s :: read') faults d
      | error e d =>
        dsimp only
        rw [ih read [] (e :: faults) d, ih read' [] [e] d, List.reverse_cons, List.append_assoc]
        rfl

/-- The faults that a program is refused for. -/
def faultsOf : Except (List SyntaxError) (List Stmt) → List SyntaxError
  | .ok _ => []
  | .error faults => faults

theorem faultsOf_parse (tokens : Tokens) {bound turns : Nat} (above : tokens.body.length < bound)
    (enough : tokens.body.length ≤ turns) (id : NodeId) :
    faultsOf (parse tokens.all id).outcome
      = (declarations bound turns [] [] (before tokens.body tokens.last id)).2.1 := by
  rw [parse_eq_declarations tokens above enough rfl]
  dsimp only
  cases none : (declarations bound turns [] [] (before tokens.body tokens.last id)).2.1 with
  | nil => rfl
  | cons e faults => rfl

/-- A program is refused for its faults. -/
theorem outcome_of_faults (tokens : Tokens) (id : NodeId) {e : SyntaxError}
    {faults : List SyntaxError} (some : faultsOf (parse tokens.all id).outcome = e :: faults) :
    (parse tokens.all id).outcome = .error (e :: faults) := by
  cases outcome : (parse tokens.all id).outcome with
  | ok program =>
    rw [outcome] at some
    cases some
  | error all =>
    rw [outcome] at some
    exact congrArg Except.error some

/-- A program without faults is read. -/
theorem ok_of_no_faults (tokens : Tokens) (id : NodeId)
    (none : faultsOf (parse tokens.all id).outcome = []) :
    ∃ program, (parse tokens.all id).outcome = .ok program := by
  rw [faultsOf_parse tokens (Nat.lt_succ_self _) (Nat.le_refl _)] at none
  rw [parse_eq_declarations tokens (Nat.lt_succ_self _) (Nat.le_refl _) rfl]
  dsimp only
  rw [none]
  exact ⟨_, rfl⟩

/-- The faults are the same with all ids. -/
theorem faultsOf_parse_renumbered (tokens : List Token) (id id' : NodeId) :
    faultsOf (parse tokens id').outcome = faultsOf (parse tokens id).outcome := by
  have renumbered := (parse_renumbered (renumberingTo id id') tokens).1
  have same : tokens.map (Token.relabel (renumberingTo id id').toRelabelling) = tokens :=
    List.map_id tokens
  rw [same] at renumbered
  show faultsOf (parse tokens (renumberingTo id id').second).outcome = _
  rw [renumbered]
  show faultsOf (renumberedOutcome _ (parse tokens id).outcome) = _
  cases (parse tokens id).outcome with
  | ok program => rfl
  | error faults => exact List.map_id faults

/-- **A malformed statement in blocks.** The faults of a program with a malformed statement that
stands `k` blocks deep are the one which the statement has when it is parsed alone, and then those
of what is left behind `k` boundaries more. So the first fault is the only one if and only if what
is left is a program. -/
theorem fault_in_blocks (tokens : Tokens) {pre post : List Token} {firstId : NodeId}
    (M : SimpleStatement) (split : tokens.body = pre ++ (M.tokens ++ post))
    (malformed : M.Malformed) (unbranched : Unbranched M.tokens) (it : Before k pre firstId m) :
    ∃ e, (∀ (last : Token) (id : NodeId), last.kind.agrees .eof = true →
          (parse (M.tokens ++ [last]) id).outcome = .error [e]) ∧
        (∀ id, (parse tokens.all firstId).outcome = .error
          (e :: faultsOf (parse (resynchronized^[k] post ++ [tokens.last]) id).outcome)) ∧
        ((parse tokens.all firstId).outcome = .error [e] ↔
          ∃ id program n, Program False (resynchronized^[k] post) id program n) := by
  obtain ⟨e, j, fault⟩ := malformed.fault
  have length := congrArg List.length split
  rw [List.length_append, List.length_append, M.length_tokens] at length
  have unended : ∀ t ∈ post, t.kind.agrees .eof = false := fun t member => tokens.unended t <| by
    rw [split]
    exact List.mem_append_right _ (List.mem_append_right _ member)
  have suffix := resynchronized_suffix k post
  have shorter := suffix.length_le
  let left : Tokens := ⟨resynchronized^[k] post, tokens.last,
    fun t member => unended t (suffix.subset member), tokens.ended⟩
  -- The loop finds the fault in front, passes as many boundaries as there are blocks, and goes on.
  have faults (id : NodeId) : faultsOf (parse tokens.all firstId).outcome
      = e :: faultsOf (parse left.all id).outcome := by
    have fails : Fails tokens.last (M.tokens ++ post) m (tokens.body.length + 1) e
        (before post tokens.last (m + j)) := by
      refine fails_of_here (ready_tokens M unbranched) (fun b few => ?_) ?_
      · rw [List.length_append, M.length_tokens] at few
        exact (fault m).1 b (by omega) tokens.last post
      · rw [List.length_append, M.length_tokens]
        omega
    have enough : pre.length + (M.tokens ++ post).length ≤ tokens.body.length + 1 := by
      rw [List.length_append, M.length_tokens]
      omega
    obtain ⟨read, turns, more, loop⟩ := declarations_of_before fails it enough enough
    rw [List.length_append, M.length_tokens] at more
    have fewer : left.body.length ≤ turns := by
      show (resynchronized^[k] post).length ≤ turns
      omega
    have above : left.body.length < tokens.body.length + 1 := by
      show (resynchronized^[k] post).length < tokens.body.length + 1
      omega
    -- The ids of what is left are counted on from those in front, which its faults do not show.
    calc faultsOf (parse tokens.all firstId).outcome
        = (declarations (tokens.body.length + 1) turns read [e]
            (synchronized^[k] (before post tokens.last (m + j)))).2.1 := by
          rw [faultsOf_parse tokens (Nat.lt_succ_self _) (Nat.le_succ _), ← loop, ← split]
      _ = e :: (declarations (tokens.body.length + 1) turns [] []
            (before left.body left.last (m + j))).2.1 := by
          rw [faults_declarations_append _ _ read [], iterate_synchronized_before k unended]
          rfl
      _ = e :: faultsOf (parse left.all id).outcome := by
          rw [← faultsOf_parse left above fewer, faultsOf_parse_renumbered left.all id]
  refine ⟨e, fun last id ended => congrArg Parsed.outcome ((fault id).2 last ended),
    fun id => outcome_of_faults tokens firstId (faults id), ?_, ?_⟩
  · intro single
    have none := faults 0
    rw [single] at none
    obtain ⟨program, ok⟩ := ok_of_no_faults left 0 (List.cons.inj none).2.symm
    obtain ⟨n, derived⟩ := derived_of_parse left ok
    exact ⟨0, program, n, derived⟩
  · rintro ⟨id, program, n, derived⟩
    obtain ⟨program', nearest⟩ := Program.nearest derived
    have all := faults id
    rw [parse_of_derived left nearest] at all
    exact outcome_of_faults tokens firstId all

/-- The statement behind a malformed one is passed, and then the closing brace begins what is left. -/
theorem fault_in_front_of_a_brace :
    let opening : Token := ⟨.punctuation .leftBrace, "\x7b", 1⟩
    let x : Token := ⟨.identifier, "x", 2⟩
    let plus : Token := ⟨.punctuation .plus, "+", 2⟩
    let stop : Token := ⟨.punctuation .semicolon, ";", 2⟩
    let closing : Token := ⟨.punctuation .rightBrace, "\x7d", 3⟩
    let eof : Token := ⟨.eof, "", 3⟩
    resynchronized^[1] [x, stop, closing] = [closing] ∧
      (parse [opening, x, plus, stop, x, stop, closing, eof] 0).outcome
        = .error (⟨.expected "expression", 2⟩ :: faultsOf (parse [closing, eof] 0).outcome) := by
  intro opening x plus stop closing eof
  let sum : SimpleStatement := ⟨[x, plus], stop, rfl, by decide, by decide, head_ne rfl rfl⟩
  let tokens : Tokens := ⟨[opening, x, plus, stop, x, stop, closing], eof, by decide, rfl⟩
  have malformed : sum.Malformed := ⟨eof, 0, _, rfl, rfl⟩
  have place : Before 1 [opening] 0 0 := .inside .nil (.statement (.block rfl (.here .nil)))
  obtain ⟨e, alone, whole, -⟩ :=
    fault_in_blocks tokens sum rfl malformed (head_ne rfl rfl) place
  have same : [⟨.expected "expression", 2⟩] = [e] := Except.error.inj (alone eof 0 rfl)
  obtain rfl := (List.cons.inj same).1
  exact ⟨rfl, whole 0⟩

/-- In a block, one fault is followed by a second one at the closing brace, and of two faults only
the first is found. -/
theorem one_fault_in_a_block_is_two :
    let opening : Token := ⟨.punctuation .leftBrace, "\x7b", 1⟩
    let x (line : Nat) : Token := ⟨.identifier, "x", line⟩
    let plus (line : Nat) : Token := ⟨.punctuation .plus, "+", line⟩
    let stop (line : Nat) : Token := ⟨.punctuation .semicolon, ";", line⟩
    let closing : Token := ⟨.punctuation .rightBrace, "\x7d", 4⟩
    let eof : Token := ⟨.eof, "", 4⟩
    let malformed (line : Nat) := [x line, plus line, stop line]
    (∃ program, (parse [opening, x 3, stop 3, closing, eof] 0).outcome = .ok program) ∧
      (∀ line, (parse (malformed line ++ [eof]) 0).outcome
        = .error [⟨.expected "expression", line⟩]) ∧
      (parse ([opening] ++ malformed 2 ++ [x 3, stop 3, closing, eof]) 0).outcome
        = .error [⟨.expected "expression", 2⟩, ⟨.expected "expression", 4⟩] ∧
      (parse ([opening] ++ malformed 2 ++ malformed 3 ++ [closing, eof]) 0).outcome
        = .error [⟨.expected "expression", 2⟩, ⟨.expected "expression", 4⟩] :=
  ⟨⟨_, rfl⟩, fun _ => rfl, rfl, rfl⟩

end Lox.Parser
