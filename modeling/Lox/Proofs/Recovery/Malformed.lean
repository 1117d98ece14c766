import Lox.Proofs.Parser.Renumbering
import Lox.Proofs.Recovery.Simple

/-!
# Malformed statements

A simple statement which is refused when it is parsed alone has one fault, and has it wherever it
stands: with any tokens behind it, any bounds and any ids. A declaration which the grammar derives
for some ids is in turn derived for all. So of either it does not matter in what context it was
found to be what it is.
-/

set_option autoImplicit false

namespace Lox

namespace Parser

open Cursor

/-- Lets the ids that begin at one number begin at another. -/
def renumberingTo (id id' : Nat) : Renumbering where
  toRelabelling :=
    .ofIds (turned (idCount - id % idCount + id')) (turned_injective (idCount - id % idCount + id'))
  first := id
  second := id'
  numbered j := by
    refine (turned_mod (idCount - id % idCount + id') id j).trans ?_
    unfold idCount
    omega

/-- Whatever the ids begin with, a declaration is read and leaves as many tokens, or has the same
fault and takes as many ids. -/
theorem declaration_renumbered (n : Nat) (c : Cursor) (id : Nat) :
    match declaration n c with
    | .ok _ d => ∃ s' d', declaration n { c with nextId := id } = .ok s' d' ∧ d'.rest = d.rest
    | .error e d => ∃ j d', declaration n { c with nextId := id } = .error e d' ∧
        d.nextId = c.nextId + j ∧ d'.nextId = id + j := by
  let σ := renumberingTo c.nextId id
  have same : c.Renumbered σ { c with nextId := id } :=
    ⟨rfl, (List.map_id c.rest).symm, 0, rfl, rfl⟩
  have there := (renumbers_statement_declaration n).2 _ _ same
  cases here : declaration n c with
  | ok s d =>
    rw [here] at there
    obtain ⟨d', ok, same'⟩ := there
    exact ⟨_, d', ok, same'.rest.trans (List.map_id d.rest)⟩
  | error e d =>
    rw [here] at there
    obtain ⟨d', failed, same'⟩ := there
    obtain ⟨j, taken, taken'⟩ := same'.taken
    exact ⟨j, d', failed, taken, taken'⟩

theorem renumbered_before (ts : List Token) (last : Token) (n id : Nat) :
    { before ts last n with nextId := id } = before ts last id := by
  cases ts <;> rfl

end Parser

namespace SimpleStatement

open Cursor Lox.Parser

variable (M : SimpleStatement)

theorem unended (t : Token) (member : t ∈ M.tokens) : t.kind.agrees .eof = false := by
  rcases List.mem_append.mp member with member | member
  · exact Kind.unended_of_isPlain (M.plain t member)
  · rw [List.mem_singleton.mp member, M.semicolon]
    rfl

theorem length_tokens : M.tokens.length = M.body.length + 1 := by
  rw [tokens, List.length_append, List.length_singleton]

/-- The statement as a whole input. -/
def alone {last : Token} (ended : last.kind.agrees .eof = true) : Tokens :=
  ⟨M.tokens, last, M.unended, ended⟩

/-- The statement is refused when it is parsed alone. -/
def Malformed : Prop :=
  ∃ (last : Token) (id : NodeId) (faults : List SyntaxError),
    last.kind.agrees .eof = true ∧ (parse (M.tokens ++ [last]) id).outcome = .error faults

variable {M}

/-- **The fault of a malformed statement** is the same wherever it stands, and so is the number of
ids that are taken up to it. When the statement is parsed alone it has no other fault. -/
theorem Malformed.fault (malformed : M.Malformed) :
    ∃ e j, ∀ id,
      (∀ n, M.body.length < n → ∀ (last : Token) (ts : List Token),
        declaration n (before (M.tokens ++ ts) last id) = .error e (before ts last (id + j))) ∧
      ∀ last : Token, last.kind.agrees .eof = true →
        parse (M.tokens ++ [last]) id = ⟨.error [e], (id + j) % idCount⟩ := by
  obtain ⟨last₀, id₀, faults, ended₀, refused⟩ := malformed
  have few₀ : M.body.length < M.tokens.length + 1 := by
    rw [M.length_tokens]
    omega
  have pos : 0 < M.tokens.length := by
    rw [M.length_tokens]
    exact Nat.succ_pos _
  -- Alone the statement is not complete, since it would be parsed.
  obtain ⟨e, j, failed₀⟩ : ∃ e j, declaration (M.tokens.length + 1) (before M.tokens last₀ id₀)
      = .error e (before [] last₀ (id₀ + j)) := by
    rcases M.declaration_cases (rfl : id₀ % _ = id₀ % _) last₀ last₀ [] few₀ few₀ with
      ⟨s, d, ok, ended⟩ | ⟨e, j, failed, -⟩
    · have parsed := parse_of_ok (M.alone ended₀) rfl pos (Nat.lt_succ_self _) ok ended
      have both := refused.symm.trans (congrArg Parsed.outcome parsed)
      cases both
    · exact ⟨e, j, failed⟩
  refine ⟨e, j, fun id => ?_⟩
  -- With the ids of its place the statement has its fault both alone and in front of others.
  have there : ∀ n, M.body.length < n → ∀ (last : Token) (ts : List Token),
      declaration n (before (M.tokens ++ ts) last id) = .error e (before ts last (id + j)) := by
    intro n few last ts
    have renumbered := declaration_renumbered (M.tokens.length + 1) (before M.tokens last₀ id₀) id
    rw [failed₀, renumbered_before] at renumbered
    obtain ⟨j₁, d₁, failed₁, taken, taken₁⟩ := renumbered
    obtain rfl : j = j₁ := by
      have first : (before M.tokens last₀ id₀).nextId = id₀ := by cases M.tokens <;> rfl
      rw [first] at taken
      exact Nat.add_left_cancel taken
    rcases M.declaration_cases (rfl : id % _ = id % _) last₀ last ts few₀ few with
      ⟨s, d, ok, -⟩ | ⟨e', j', failed, failed'⟩
    · rw [failed₁] at ok
      cases ok
    · rw [failed₁] at failed
      cases failed
      rw [failed', ← Nat.add_left_cancel (taken₁ : id + j' = id + j)]
  refine ⟨there, fun last ended => ?_⟩
  have failed := there (M.tokens.length + 1) few₀ last []
  rw [List.append_nil] at failed
  exact parse_of_error (M.alone ended) rfl pos (Nat.lt_succ_self _) failed atEnd_before_nil

end SimpleStatement

/-! ## Declarations of the grammar -/

namespace Grammar

open Cursor Lox.Parser

/-- The grammar derives the tokens as a declaration. -/
def Derivable (us : List Token) : Prop :=
  ∃ n s m, Declaration False us n s m

variable {us : List Token}

theorem Derivable.pos (it : Derivable us) : 0 < us.length := by
  obtain ⟨n, s, m, derived⟩ := it
  exact derived.pos

/-- What is derived is read as a declaration, with the ids of the derivation. -/
theorem Derivable.read (it : Derivable us) : ∃ n s m, ∀ bound, us.length ≤ bound →
    ∀ (last : Token), declaration bound (before us last n) = .ok s (before [] last m) := by
  obtain ⟨n, s, m, derived⟩ := it
  obtain ⟨s', nearest⟩ :=
    (covers_nearest (us.length + 1)).2 us n s m (Nat.lt_succ_self _) derived
  refine ⟨n, s', m, fun bound few last => ?_⟩
  have taken : declaration bound (before (us ++ []) last n) = .ok s' (before [] last m) :=
    (takes_statement_declaration bound).2 us n s' m nearest few [] nofun
  rwa [List.append_nil] at taken

/-- No declaration has an end of the input in it: the parser would not pass it. -/
theorem Derivable.unended (it : Derivable us) (t : Token) (member : t ∈ us) :
    t.kind.agrees .eof = false := by
  obtain ⟨n, s, m, reads⟩ := it.read
  cases found : us.find? (·.kind.agrees .eof) with
  | none => exact Bool.eq_false_iff.mpr (List.find?_eq_none.mp found t member)
  | some z =>
    obtain ⟨ended, vs, ws, split, unended⟩ := List.find?_eq_some_iff_append.mp found
    have unended : ∀ u ∈ vs, u.kind.agrees .eof = false := by simpa using unended
    let h : Horizon := ⟨fun u => u.kind.agrees .eof = false, z, ws ++ [z], ws ++ [z], n, n,
      fun _ => id, .inl ended, rfl, rfl⟩
    have abreast : (before us z n).Abreast h vs.length (before us z n) := by
      have ahead : (before us z n).current :: (before us z n).rest = vs ++ z :: (ws ++ [z]) := by
        rw [split]
        cases vs with
        | nil => rfl
        | cons v vs => exact congrArg (v :: ·) (List.append_assoc vs (z :: ws) [z])
      have taken : (before us z n).nextId = n := by cases us <;> rfl
      exact ⟨⟨vs, rfl, unended, ahead, ahead⟩, 0, taken, taken⟩
    have few : vs.length < us.length + 1 := by
      rw [split, List.length_append]
      omega
    -- Behind the declaration there is nothing, but the cursor has not come past the token.
    rcases Parser.declaration_cases ended few few abreast with
      ⟨s', d, d', j, ok, -, -, abreast'⟩ | ⟨e, d, d', j, failed, -⟩
    · rw [reads _ (Nat.le_succ _)] at ok
      cases ok
      obtain ⟨us', -, -, ahead, -⟩ := abreast'.ahead
      have length := congrArg List.length ahead
      simp only [before, List.length_cons, List.length_append, List.length_nil, h] at length
      omega
    · rw [reads _ (Nat.le_succ _)] at failed
      cases failed

/-- The end of an input. -/
def endOfInput : Token :=
  ⟨.eof, "", 1⟩

/-- The tokens as a whole input. -/
def Derivable.alone (it : Derivable us) {last : Token} (ended : last.kind.agrees .eof = true) :
    Tokens :=
  ⟨us, last, it.unended, ended⟩

/-- **What the grammar derives for some ids it derives for all**, with each `else` at the nearest
`if`. -/
theorem Derivable.derived (it : Derivable us) (id : NodeId) :
    ∃ s m, Declaration True us id s m := by
  obtain ⟨n, s, m, reads⟩ := it.read
  have renumbered := declaration_renumbered us.length (before us endOfInput n) id
  rw [reads _ (Nat.le_refl _), renumbered_before] at renumbered
  obtain ⟨s', d', ok, ahead⟩ := renumbered
  have ended : endOfInput.kind.agrees .eof = true := rfl
  obtain ⟨vs, ts, k, split, rfl, derived⟩ :=
    (sound_statement_declaration ended us.length).2 us id (Nat.le_refl _) s' d' ok
  have none : ts = [] := by
    cases ts with
    | nil => rfl
    | cons t ts => exact absurd ahead (List.append_ne_nil_of_right_ne_nil ts (List.cons_ne_nil _ _))
  rw [none, List.append_nil] at split
  obtain ⟨s'', nearest⟩ :=
    (covers_nearest (us.length + 1)).2 us id s' k (Nat.lt_succ_self _) (split ▸ derived)
  exact ⟨s'', k, nearest⟩

/-- **A declaration among others** is read as it is when it is parsed alone, if no `else` is behind
it. -/
theorem Derivable.statement (it : Derivable us) (id : NodeId) :
    ∃ s m, (∀ bound, us.length ≤ bound → ∀ (last : Token) (ts : List Token), Unbranched ts →
        declaration bound (before (us ++ ts) last id) = .ok s (before ts last m)) ∧
      ∀ (last : Token) (id' : NodeId), last.kind.agrees .eof = true →
        id' % idCount = id % idCount → parse (us ++ [last]) id' = ⟨.ok [s], m % idCount⟩ := by
  obtain ⟨s, m, derived⟩ := it.derived id
  have reads : ∀ bound, us.length ≤ bound → ∀ (last : Token) (ts : List Token), Unbranched ts →
      declaration bound (before (us ++ ts) last id) = .ok s (before ts last m) :=
    fun bound few last ts behind =>
      (takes_statement_declaration bound).2 us id s m derived few ts behind
  refine ⟨s, m, reads, fun last id' ended same => ?_⟩
  have ok := reads (us.length + 1) (Nat.le_succ _) last [] nofun
  rw [List.append_nil] at ok
  exact parse_of_ok (it.alone ended) same.symm it.pos (Nat.lt_succ_self _) ok atEnd_before_nil

end Grammar

end Lox
