import Lox.Proofs.Recovery.Malformed

/-!
# Recovery between declarations

A program is a row of declarations, some of which may be malformed. Where a malformed statement ends
at its semicolon, parsing goes on at the next declaration, whatever it is. So the row is parsed as
its items are parsed one by one, each alone: what one of them is does not depend on the others, but
for the ids, which are counted on from one to the next.
-/

set_option autoImplicit false

namespace Lox.Parser

open Cursor Grammar

/-- What is made of one input and of another behind it: a program if both are one, or all faults. -/
def joined : Except (List SyntaxError) (List Stmt) → Except (List SyntaxError) (List Stmt) →
    Except (List SyntaxError) (List Stmt)
  | .ok program, .ok program' => .ok (program ++ program')
  | .ok _, .error faults => .error faults
  | .error faults, .ok _ => .error faults
  | .error faults, .error faults' => .error (faults ++ faults')

theorem joined_assoc (r₁ r₂ r₃ : Except (List SyntaxError) (List Stmt)) :
    joined (joined r₁ r₂) r₃ = joined r₁ (joined r₂ r₃) := by
  cases r₁ with
  | ok p₁ =>
    cases r₂ with
    | ok p₂ =>
      cases r₃ with
      | ok p₃ => exact congrArg Except.ok (List.append_assoc p₁ p₂ p₃)
      | error f₃ => rfl
    | error f₂ => cases r₃ <;> rfl
  | error f₁ =>
    cases r₂ with
    | ok p₂ => cases r₃ <;> rfl
    | error f₂ =>
      cases r₃ with
      | ok p₃ => rfl
      | error f₃ => exact congrArg Except.error (List.append_assoc f₁ f₂ f₃)

theorem joined_nil (r : Except (List SyntaxError) (List Stmt)) : joined (.ok []) r = r := by
  cases r <;> rfl

theorem joined_nil_right (r : Except (List SyntaxError) (List Stmt)) : joined r (.ok []) = r := by
  cases r with
  | ok program => exact congrArg Except.ok (List.append_nil program)
  | error faults => rfl

/-- The items are parsed one after the other, each alone, with the first id that is left by those
before it. -/
def inTurn (last : Token) : List (List Token) → NodeId → Parsed (List SyntaxError) (List Stmt)
  | [], id => ⟨.ok [], id % idCount⟩
  | us :: items, id =>
    let alone := parse (us ++ [last]) id
    let others := inTurn last items alone.nextId
    ⟨joined alone.outcome others.outcome, others.nextId⟩

/-- Tokens that are a malformed statement. -/
def Faulty (us : List Token) : Prop :=
  ∃ M : SimpleStatement, M.Malformed ∧ us = M.tokens

/-- The outcome as far as a program has been read. -/
def soFar (read : List Stmt) (faults : List SyntaxError) : Except (List SyntaxError) (List Stmt) :=
  if faults.isEmpty then .ok read.reverse else .error faults.reverse

theorem soFar_cons (read : List Stmt) (faults : List SyntaxError) (s : Stmt) :
    soFar (s :: read) faults = joined (soFar read faults) (.ok [s]) := by
  cases faults with
  | nil => exact congrArg Except.ok List.reverse_cons
  | cons e faults => rfl

theorem soFar_cons_fault (read : List Stmt) (faults : List SyntaxError) (e : SyntaxError) :
    soFar read (e :: faults) = joined (soFar read faults) (.error [e]) := by
  cases faults with
  | nil => rfl
  | cons e' faults => exact congrArg Except.error List.reverse_cons

variable {items : List (List Token)} {last : Token} {bound n : Nat}

theorem unbranched_flatten (each : ∀ us ∈ items, 0 < us.length ∧ Unbranched us) :
    Unbranched items.flatten := by
  cases items with
  | nil => exact nofun
  | cons us items =>
    obtain ⟨pos, unbranched⟩ := each us List.mem_cons_self
    obtain ⟨t, ts, rfl⟩ := List.exists_cons_of_length_pos pos
    exact unbranched

theorem Faulty.pos {us : List Token} (faulty : Faulty us) : 0 < us.length := by
  obtain ⟨M, -, rfl⟩ := faulty
  rw [M.length_tokens]
  exact Nat.succ_pos _

theorem Faulty.unended {us : List Token} (faulty : Faulty us) (t : Token) (member : t ∈ us) :
    t.kind.agrees .eof = false := by
  obtain ⟨M, -, rfl⟩ := faulty
  exact M.unended t member

/-- The loop over the declarations reads the items in turn. -/
theorem declarations_items (ended : last.kind.agrees .eof = true)
    (each : ∀ us ∈ items, (Derivable us ∨ Faulty us) ∧ Unbranched us)
    (above : items.flatten.length < bound) (turns : items.flatten.length ≤ n) {id id' : NodeId}
    (same : id' % idCount = id % idCount) (read : List Stmt) (faults : List SyntaxError) :
    ∃ program all d,
      declarations bound n read faults (before items.flatten last id) = (program, all, d) ∧
      (if all.isEmpty then .ok program else .error all)
        = joined (soFar read faults) (inTurn last items id').outcome ∧
      d.nextId % idCount = (inTurn last items id').nextId := by
  induction items generalizing n id id' read faults with
  | nil =>
    refine ⟨_, _, _, declarations_ended n read faults atEnd_before_nil, ?_, same.symm⟩
    unfold inTurn soFar
    dsimp only
    rw [joined_nil_right, List.isEmpty_reverse]
  | cons us items ih =>
    have each' : ∀ vs ∈ items, (Derivable vs ∨ Faulty vs) ∧ Unbranched vs :=
      fun vs member => each vs (List.mem_cons_of_mem us member)
    -- No `else` follows that could be read as more of the item.
    have behind : Unbranched items.flatten := unbranched_flatten fun vs member =>
      ⟨(each' vs member).1.elim Derivable.pos Faulty.pos, (each' vs member).2⟩
    obtain ⟨item, -⟩ := each us List.mem_cons_self
    have pos : 0 < us.length := item.elim Derivable.pos Faulty.pos
    have unended : ∀ t ∈ us, t.kind.agrees .eof = false :=
      item.elim Derivable.unended Faulty.unended
    have within : (before (us ++ items.flatten) last id).atEnd = false := by
      obtain ⟨t, ts, rfl⟩ := List.exists_cons_of_length_pos pos
      exact atEnd_before_cons.trans (unended t List.mem_cons_self)
    rw [List.flatten_cons, List.length_append] at above turns
    obtain ⟨n, rfl⟩ := Nat.exists_eq_add_one.mpr (show 0 < n by omega)
    have above' : items.flatten.length < bound := by omega
    have turns' : items.flatten.length ≤ n := by omega
    rw [List.flatten_cons]
    unfold inTurn
    -- The loop counts ids on, while each item alone begins with a remainder: hence `same`.
    rcases item with derivable | ⟨M, malformed, rfl⟩
    · obtain ⟨s, m, reads, alone⟩ := derivable.statement id
      rw [declarations_of_ok within (reads bound (by omega) last _ behind),
        alone last id' ended same]
      obtain ⟨program, all, d, loop, outcome, nextId⟩ := ih each' above' turns'
        (Nat.mod_mod m idCount) (s :: read) faults
      refine ⟨program, all, d, loop, outcome.trans ?_, nextId⟩
      rw [soFar_cons, joined_assoc]
    · obtain ⟨e, j, fault⟩ := malformed.fault
      have few : M.body.length < bound := by
        rw [M.length_tokens] at above
        omega
      have next : (id' + j) % idCount % idCount = (id + j) % idCount := by
        rw [Nat.mod_mod, Nat.add_mod, same, ← Nat.add_mod]
      rw [declarations_of_error within ((fault id).1 bound few last items.flatten),
        (fault id').2 last ended]
      obtain ⟨program, all, d, loop, outcome, nextId⟩ := ih each' above' turns' next read
        (e :: faults)
      refine ⟨program, all, d, loop, outcome.trans ?_, nextId⟩
      rw [soFar_cons_fault, joined_assoc]

/-- **Recovery is local.** Declarations and malformed statements one behind the other, none of which
begins with `else`, are parsed as each of them is parsed alone. Alone a declaration is one statement
and a malformed statement has one fault, which is the same with all ids and any end of the input. -/
theorem parse_items (items : List (List Token))
    (each : ∀ us ∈ items, (Derivable us ∨ Faulty us) ∧ Unbranched us) (last : Token)
    (ended : last.kind.agrees .eof = true) (firstId : NodeId) :
    parse (items.flatten ++ [last]) firstId = inTurn last items firstId ∧
      ∀ us ∈ items,
        (Derivable us ∧ ∀ (last' : Token) (id : NodeId), last'.kind.agrees .eof = true →
          ∃ s, (parse (us ++ [last']) id).outcome = .ok [s]) ∨
        (Faulty us ∧ ∃ e, ∀ (last' : Token) (id : NodeId), last'.kind.agrees .eof = true →
          (parse (us ++ [last']) id).outcome = .error [e]) := by
  constructor
  · have unended : ∀ t ∈ items.flatten, t.kind.agrees .eof = false := by
      intro t member
      obtain ⟨us, item, inside⟩ := List.mem_flatten.mp member
      exact (each us item).1.elim (fun it => it.unended t inside) (fun it => it.unended t inside)
    let tokens : Tokens := ⟨items.flatten, last, unended, ended⟩
    have whole : parse tokens.all firstId = _ :=
      parse_eq_declarations tokens (Nat.lt_succ_self _) (Nat.le_refl _) rfl
    obtain ⟨program, all, d, loop, outcome, nextId⟩ :=
      declarations_items ended each (Nat.lt_succ_self _) (Nat.le_refl _)
        (rfl : firstId % idCount = firstId % idCount) [] []
    rw [loop] at whole
    dsimp only at whole
    rw [outcome, nextId] at whole
    exact whole.trans (congrArg (Parsed.mk · _) (joined_nil _))
  · intro us item
    rcases (each us item).1 with derivable | faulty
    · refine .inl ⟨derivable, fun last' id ended' => ?_⟩
      obtain ⟨s, m, -, alone⟩ := derivable.statement id
      exact ⟨s, congrArg Parsed.outcome (alone last' id ended' rfl)⟩
    · obtain ⟨M, malformed, rfl⟩ := faulty
      obtain ⟨e, j, fault⟩ := malformed.fault
      exact .inr ⟨⟨M, malformed, rfl⟩, e, fun last' id ended' =>
        congrArg Parsed.outcome ((fault id).2 last' ended')⟩

/-- Between two malformed statements a declaration is read. -/
theorem two_faults_around_a_declaration :
    let x : Token := ⟨.identifier, "x", 1⟩
    let plus : Token := ⟨.punctuation .plus, "+", 1⟩
    let stop : Token := ⟨.punctuation .semicolon, ";", 1⟩
    let eof : Token := ⟨.eof, "", 2⟩
    let items := [[x, plus, stop], [x, stop], [stop]]
    (parse (items.flatten ++ [eof]) 0).outcome
        = .error [⟨.expected "expression", 1⟩, ⟨.expected "expression", 1⟩] ∧
      parse (items.flatten ++ [eof]) 0 = inTurn eof items 0 := by
  intro x plus stop eof items
  let sum : SimpleStatement :=
    ⟨[x, plus], stop, rfl, by decide, by decide, head_ne rfl rfl⟩
  let empty : SimpleStatement := ⟨[], stop, rfl, nofun, nofun, nofun⟩
  have sumFails : sum.Malformed := ⟨eof, 0, _, rfl, rfl⟩
  have emptyFails : empty.Malformed := ⟨eof, 0, _, rfl, rfl⟩
  have value : Expression [x] 0 (.variable 0 ⟨"x", 1⟩) 1 :=
    .assignment (.plain (Infix.of_call (.primary (.variable rfl))))
  have use : Declaration False [x, stop] 0 (.expression (.variable 0 ⟨"x", 1⟩)) 1 :=
    .statement (.expression (.intro value rfl))
  have each : ∀ us ∈ items, (Derivable us ∨ Faulty us) ∧ Unbranched us := by
    intro us item
    simp only [items, List.mem_cons, List.not_mem_nil, or_false] at item
    rcases item with rfl | rfl | rfl
    · exact ⟨.inr ⟨sum, sumFails, rfl⟩, head_ne rfl rfl⟩
    · exact ⟨.inl ⟨0, _, 1, use⟩, head_ne rfl rfl⟩
    · exact ⟨.inr ⟨empty, emptyFails, rfl⟩, head_ne rfl rfl⟩
  exact ⟨rfl, (parse_items items each eof rfl 0).1⟩

end Lox.Parser
