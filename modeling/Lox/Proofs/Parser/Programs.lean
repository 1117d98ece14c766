import Lox.Proofs.Parser.Joining

/-!
# Programs in front of others

Two programs whose tokens are joined are parsed one after the other: the declarations of the first
are read up to the seam, those of the second from there on, with the ids that they have where the
second is parsed after the first.
-/

set_option autoImplicit false

namespace Lox

/-- Tokens that end with the end of the input, and only there. -/
@[ext]
structure Tokens where
  body : List Token
  last : Token
  unended : ∀ t ∈ body, t.kind.agrees .eof = false
  ended : last.kind.agrees .eof = true

namespace Tokens

/-- The tokens as a list. -/
def all (tokens : Tokens) : List Token :=
  tokens.body ++ [tokens.last]

/-- The tokens with new lines. -/
def relabel (ρ : Relabelling) (tokens : Tokens) : Tokens where
  body := tokens.body.map (Token.relabel ρ)
  last := tokens.last.relabel ρ
  unended t member := by
    obtain ⟨old, found, rfl⟩ := List.mem_map.mp member
    exact tokens.unended old found
  ended := tokens.ended

/-- Tokens in front of others, with whose end they end. -/
def append (first second : Tokens) : Tokens where
  body := first.body ++ second.body
  last := second.last
  unended t member := (List.mem_append.mp member).elim (first.unended t) (second.unended t)
  ended := second.ended

theorem all_append (first second : Tokens) : (first.append second).all = first.body ++ second.all :=
  List.append_assoc _ _ _

theorem all_relabel (ρ : Relabelling) (tokens : Tokens) :
    (tokens.relabel ρ).all = tokens.all.map (Token.relabel ρ) := by
  unfold all
  rw [List.map_append]
  rfl

theorem exists_cons (tokens : Tokens) : ∃ first rest, tokens.all = first :: rest :=
  List.exists_cons_of_ne_nil (List.append_ne_nil_of_right_ne_nil _ (List.cons_ne_nil _ _))

theorem length_all (tokens : Tokens) : tokens.all.length = tokens.body.length + 1 := by
  rw [all, List.length_append, List.length_singleton]

end Tokens

variable {σ : Seam}

/-- At the start of tokens, and of the same tokens in front of others. -/
theorem Cursor.meets_start (tokens : Tokens) {c c' : Cursor} (here : c.current :: c.rest = tokens.all)
    (there : c'.current :: c'.rest
      = (tokens.relabel σ.toRelabelling).body ++ σ.next :: σ.later)
    (numbered : Numbered σ.toRelabelling c.nextId c'.nextId) : c.Inside σ c' ∨ c.Over σ c' := by
  obtain ⟨body, last, unended, ended⟩ := tokens
  cases body with
  | nil =>
    obtain ⟨current, rest⟩ := List.cons.inj here
    obtain ⟨current', rest'⟩ := List.cons.inj there
    exact .inr ⟨⟨by rw [current]; exact ended, rest⟩, current', rest', numbered⟩
  | cons t body =>
    obtain ⟨current, rest⟩ := List.cons.inj here
    obtain ⟨current', rest'⟩ := List.cons.inj there
    refine .inl ⟨?_, ?_, ⟨body, last, rest, ?_, ended, rest'⟩, numbered⟩
    · rw [current', current]
    · rw [current]
      exact unended t List.mem_cons_self
    · exact fun other member => unended other (List.mem_cons_of_mem t member)

namespace Parser

/-- Faults that were found are kept. -/
theorem faults_declarations {bound n : Nat} {read : List Stmt} {faults : List SyntaxError}
    {c : Cursor} (none : (declarations bound n read faults c).2.1 = []) : faults = [] := by
  induction n generalizing read faults c with
  | zero => exact List.reverse_eq_nil_iff.mp none
  | succ n ih =>
    unfold declarations at none
    split at none
    · exact List.reverse_eq_nil_iff.mp none
    · split at none
      · exact ih none
      · exact absurd (ih none) (List.cons_ne_nil _ _)

/-- Without faults among them, the declarations up to the end are read the same in front of others,
and the loop goes on there. -/
theorem declarations_joined {bound n : Nat} (d : Nat) {c c' c₁ : Cursor} {read program : List Stmt}
    (meets : c.Inside σ c' ∨ c.Over σ c') (long : c.rest.length < n)
    (few : c.rest.length ≤ bound - 1)
    (ok : declarations bound n read [] c = (program, [], c₁)) :
    ∃ parsed c₁', program = read.reverse ++ parsed ∧ parsed.length ≤ c.rest.length ∧
      c₁.Over σ c₁' ∧ ∀ k read', declarations (bound + d) (parsed.length + k) read' [] c'
        = declarations (bound + d) k
            ((parsed.map (Stmt.relabel σ.toRelabelling)).reverse ++ read') [] c₁' := by
  induction n generalizing c c' read with
  | zero => exact absurd long (Nat.not_lt_zero _)
  | succ n ih =>
    unfold declarations at ok
    -- Inside its tokens the first cursor reads what the second reads; at their end the loop stops.
    rcases meets with inside | past
    · rw [inside.atEnd, if_neg Bool.false_ne_true] at ok
      cases here : declaration bound c with
      | error fault c₂ =>
        rw [here] at ok
        exact absurd (faults_declarations (congrArg (·.2.1) ok)) (List.cons_ne_nil _ _)
      | ok stmt c₂ =>
        rw [here] at ok
        have closes := (closes_statement_declaration (σ := σ) d (Nat.le_refl (bound - 1))).2
        obtain ⟨shorter, c₂', same, meets₂⟩ := closes.inside c c' inside few stmt c₂ here
        obtain ⟨parsed, c₁', whole, fewer, past, goesOn⟩ :=
          ih meets₂ (by omega) (by omega) ok
        refine ⟨stmt :: parsed, c₁', ?_, ?_, past, fun k read' => ?_⟩
        · rw [whole, List.reverse_cons, List.append_assoc, List.singleton_append]
        · rw [List.length_cons]
          omega
        · rw [List.length_cons, Nat.add_right_comm, declarations, inside.atEnd_second,
            if_neg Bool.false_ne_true, same]
          dsimp only
          rw [goesOn, List.map_cons, List.reverse_cons, List.append_assoc, List.singleton_append]
    · rw [past.done.atEnd, if_pos rfl] at ok
      cases ok
      refine ⟨[], c', (List.append_nil _).symm, Nat.zero_le _, past, fun k read' => ?_⟩
      rw [List.length_nil, Nat.zero_add, List.map_nil, List.reverse_nil, List.nil_append]

/-- The outcome of a parse is that of the loop over its declarations. -/
theorem declarations_of_parse {tokens : List Token} {first : Token} {rest : List Token}
    {firstId : NodeId} {program : List Stmt} (here : tokens = first :: rest)
    (ok : (parse tokens firstId).outcome = .ok program) :
    ∃ c, declarations tokens.length tokens.length [] [] (start first rest firstId)
        = (program, [], c) ∧ (parse tokens firstId).nextId = c.nextId % idCount := by
  rw [here] at ok ⊢
  unfold parse at ok ⊢
  dsimp only at ok ⊢
  split at ok
  · next none =>
    exact ⟨_, Prod.ext (Except.ok.inj ok) (Prod.ext (List.isEmpty_iff.mp none) rfl), rfl⟩
  · cases ok

/-- The next id is one of those that there are. -/
theorem nextId_parse_mod (tokens : Tokens) (firstId : NodeId) :
    (parse tokens.all firstId).nextId % idCount = (parse tokens.all firstId).nextId := by
  obtain ⟨first, rest, here⟩ := tokens.exists_cons
  rw [here]
  exact Nat.mod_mod _ _

/-- A program that is read begins with no `else`. -/
theorem next_ne_else (tokens : Tokens) {firstId : NodeId} {program : List Stmt} {first : Token}
    {rest : List Token} (here : tokens.all = first :: rest)
    (ok : (parse tokens.all firstId).outcome = .ok program) :
    first.kind.agrees (.keyword .else) = false := by
  obtain ⟨c₁, loop, -⟩ := declarations_of_parse here ok
  obtain ⟨body, last, unended, ended⟩ := tokens
  rw [Bool.eq_false_iff]
  intro agrees
  -- If it did, the first declaration would be refused, and the loop would keep the fault.
  have isElse : first.kind = .keyword .else := by
    cases kind : first.kind with
    | keyword word =>
      rw [kind] at agrees
      rw [beq_iff_eq.mp agrees]
    | punctuation | identifier | string | number | eof =>
      rw [kind] at agrees
      cases agrees
  cases body with
  | nil =>
    have same : last = first := (List.cons.inj here).1
    rw [same, isElse] at ended
    cases ended
  | cons t body =>
    have current : t = first := (List.cons.inj here).1
    have ahead : body ++ [last] = rest := (List.cons.inj here).2
    have before : (start first rest firstId).atEnd = false := by
      unfold Cursor.atEnd start
      rw [← current, ← ahead, unended t List.mem_cons_self, Bool.false_or,
        List.isEmpty_eq_false_iff]
      exact List.append_ne_nil_of_right_ne_nil _ (List.cons_ne_nil _ _)
    rw [here, List.length_cons, declarations, before, if_neg Bool.false_ne_true] at loop
    cases read : declaration (rest.length + 1) (start first rest firstId) with
    | ok stmt c => exact refuses_declaration _ _ isElse stmt c read
    | error fault c =>
      rw [read] at loop
      exact absurd (faults_declarations (congrArg (·.2.1) loop)) (List.cons_ne_nil _ _)

/-- A program is read up to the seam as it is read alone, and the loop goes on there. -/
theorem parse_joined (tokens : Tokens) {firstId : NodeId} {program : List Stmt}
    (ok : (parse tokens.all firstId).outcome = .ok program) (d : Nat) {c' : Cursor}
    (there : c'.current :: c'.rest
      = (tokens.relabel σ.toRelabelling).body ++ σ.next :: σ.later)
    (numbered : Cursor.Numbered σ.toRelabelling firstId c'.nextId) :
    ∃ c₁', c₁'.current = σ.next ∧ c₁'.rest = σ.later ∧
      Cursor.Numbered σ.toRelabelling (parse tokens.all firstId).nextId c₁'.nextId ∧
      program.length ≤ tokens.body.length ∧
      ∀ k read', declarations (tokens.all.length + d) (program.length + k) read' [] c'
        = declarations (tokens.all.length + d) k
            ((program.map (Stmt.relabel σ.toRelabelling)).reverse ++ read') [] c₁' := by
  cases here : tokens.all with
  | nil => exact absurd here (List.append_ne_nil_of_right_ne_nil _ (List.cons_ne_nil _ _))
  | cons first rest =>
    obtain ⟨c₁, loop, nextId⟩ := declarations_of_parse here ok
    have length : rest.length + 1 = tokens.body.length + 1 := by
      rw [← List.length_cons (a := first), ← here, tokens.length_all]
    have meets := Cursor.meets_start (c := start first rest firstId) tokens here.symm there numbered
    have bound : tokens.all.length = rest.length + 1 := by rw [here, List.length_cons]
    rw [bound] at loop
    obtain ⟨parsed, c₁', whole, fewer, past, goesOn⟩ :=
      declarations_joined d meets (Nat.lt_succ_self _) (Nat.le_refl _) loop
    obtain rfl : program = parsed := whole
    refine ⟨c₁', past.current, past.rest, ?_, ?_, ?_⟩
    · intro j
      rw [← here, nextId, Nat.mod_add_mod]
      exact past.numbered j
    · have : program.length ≤ rest.length := fewer
      omega
    · rw [List.length_cons]
      exact goesOn

/-- Where the loop has come to the end it gives what it read and the faults it found. -/
theorem declarations_ended {bound : Nat} (n : Nat) (read : List Stmt) (faults : List SyntaxError)
    {c : Cursor} (ended : c.atEnd = true) :
    declarations bound n read faults c = (read.reverse, faults.reverse, c) := by
  cases n with
  | zero => rfl
  | succ n => rw [declarations, if_pos ended]

theorem declarations_at_end {bound : Nat} (n : Nat) (read : List Stmt) {c : Cursor}
    (ended : c.atEnd = true) : declarations bound n read [] c = (read.reverse, [], c) :=
  declarations_ended n read [] ended

/-- **Programs one behind the other.** The tokens of two programs, with new lines, are read as the
first program and, with the ids that follow, the second. -/
theorem parse_append {ρ τ : Relabelling} (keeps : ∀ id, ρ.id id = id) (keeps' : ∀ id, τ.id id = id)
    (first second : Tokens) {firstId : NodeId} {program program' : List Stmt}
    (ok : (parse first.all firstId).outcome = .ok program)
    (ok' : (parse second.all (parse first.all firstId).nextId).outcome = .ok program') :
    parse ((first.relabel ρ).append (second.relabel τ)).all firstId
      = ⟨.ok (program.map (Stmt.relabel ρ) ++ program'.map (Stmt.relabel τ)),
          (parse second.all (parse first.all firstId).nextId).nextId⟩ := by
  obtain ⟨t, ts, start₂⟩ := second.exists_cons
  obtain ⟨w, ws, whole⟩ := ((first.relabel ρ).append (second.relabel τ)).exists_cons
  have split := Tokens.all_append (first.relabel ρ) (second.relabel τ)
  rw [whole, Tokens.all_relabel, start₂, List.map_cons] at split
  have split' : (start w ws firstId).current :: (start w ws firstId).rest = _ := split
  -- The first seam is between the programs, the second one before the end of the input.
  have unopened : t.kind.agrees (.keyword .else) = false := next_ne_else second start₂ ok'
  let seam₁ : Seam := ⟨ρ, t.relabel τ, ts.map (Token.relabel τ), unopened⟩
  let seam₂ : Seam := ⟨τ, second.last.relabel τ, [], by
    have ended := second.ended
    rw [Token.relabel]
    cases kind : second.last.kind with
    | eof => rfl
    | keyword | punctuation | identifier | string | number =>
      rw [kind] at ended
      cases ended⟩
  obtain ⟨c₁, current₁, rest₁, numbered₁, few₁, loop₁⟩ :=
    parse_joined (σ := seam₁) first ok second.body.length split' fun j => keeps _
  have between : c₁.current :: c₁.rest = (second.relabel τ).body ++ seam₂.next :: seam₂.later := by
    rw [current₁, rest₁]
    show t.relabel τ :: ts.map (Token.relabel τ) = (second.relabel τ).all
    rw [Tokens.all_relabel, start₂, List.map_cons]
  obtain ⟨c₂, current₂, rest₂, numbered₂, few₂, loop₂⟩ :=
    parse_joined (σ := seam₂) second ok' first.body.length between fun j => by
      rw [← numbered₁ j]
      exact (keeps' _).trans (keeps _).symm
  have ended : c₂.atEnd = true := by
    unfold Cursor.atEnd
    rw [rest₂, List.isEmpty_nil, Bool.or_true]
  have length : (w :: ws).length = first.body.length + 1 + second.body.length := by
    rw [split, List.length_append, ← List.map_cons, List.length_map, ← start₂, second.length_all]
    show (first.body.map (Token.relabel ρ)).length + _ = _
    rw [List.length_map]
    omega
  have loop : declarations (w :: ws).length (w :: ws).length [] [] (start w ws firstId)
      = (program.map (Stmt.relabel ρ) ++ program'.map (Stmt.relabel τ), [], c₂) := by
    obtain ⟨k, turns⟩ : ∃ k, (w :: ws).length = program.length + (program'.length + k) :=
      ⟨(w :: ws).length - program.length - program'.length, by omega⟩
    have bound₁ : (w :: ws).length = first.all.length + second.body.length := by
      rw [length, first.length_all]
    have bound₂ : (w :: ws).length = second.all.length + first.body.length := by
      rw [length, second.length_all]
      omega
    calc declarations (w :: ws).length (w :: ws).length [] [] (start w ws firstId)
        = declarations (w :: ws).length (program'.length + k)
            ((program.map (Stmt.relabel ρ)).reverse ++ []) [] c₁ := by
          conv => lhs; arg 2; rw [turns]
          rw [bound₁]
          exact loop₁ _ []
      _ = declarations (w :: ws).length k ((program'.map (Stmt.relabel τ)).reverse
            ++ ((program.map (Stmt.relabel ρ)).reverse ++ [])) [] c₂ := by
          rw [bound₂]
          exact loop₂ k _
      _ = _ := by
          rw [declarations_at_end _ _ ended, List.append_nil, List.reverse_append,
            List.reverse_reverse, List.reverse_reverse]
  have nextId := numbered₂ 0
  rw [Nat.add_zero, Nat.add_zero] at nextId
  rw [whole]
  unfold parse
  dsimp only
  rw [loop]
  refine congrArg (Parsed.mk _) ?_
  rw [← nextId]
  exact (keeps' _).trans (nextId_parse_mod second _)

end Parser

end Lox
