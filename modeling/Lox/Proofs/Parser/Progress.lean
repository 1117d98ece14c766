import Lox.Proofs.Parser.Congruence

/-!
# Parsing makes progress

The cursor moves in two ways only, by a token and to a boundary behind a fault, and both lead onward:
the tokens that are still ahead are the last ones of those that were ahead before
(`Cursor.Onward`). So no rule leaves the tokens that it was given, and none goes back.

That a rule is at a token where it nests another is what makes its recursion end, and a loop passes a
token before it goes on. So a bound above the number of tokens behind the current one is never used
up: it makes no difference what a rule or a loop does where it is (`expressionFrom_eq`,
`TurnsSuffice`), nor by how much the bound is larger (`advances`).

The one way to succeed without a move is to read a literal on the last token, behind which nothing
can be taken any more; a declaration does not end so, since it takes a semicolon or a brace last. So
each declaration is a token or more further on than the one before it, whether it was read or
refused, and there are fewer of them than tokens.
-/

set_option autoImplicit false

namespace Lox

namespace Cursor

/-- The second cursor is at the same token as the first or at a later one, in the same tokens. -/
def Onward (c d : Cursor) : Prop :=
  d.current :: d.rest <:+ c.current :: c.rest

/-- The second cursor is at a later token. -/
def Further (c d : Cursor) : Prop :=
  c.Onward d ∧ d.rest.length < c.rest.length

variable {c d e : Cursor}

theorem Onward.refl (c : Cursor) : c.Onward c := List.suffix_rfl

theorem Onward.trans (first : c.Onward d) (second : d.Onward e) : c.Onward e :=
  List.IsSuffix.trans second first

theorem Onward.length_le (onward : c.Onward d) : d.rest.length ≤ c.rest.length :=
  Nat.le_of_succ_le_succ (List.IsSuffix.length_le onward)

theorem Onward.further (first : c.Onward d) (second : d.Further e) : c.Further e :=
  ⟨first.trans second.1, Nat.lt_of_lt_of_le second.2 first.length_le⟩

/-- Only at the same token there are as many tokens ahead. -/
theorem Onward.atEnd (onward : c.Onward d) (same : c.rest.length ≤ d.rest.length) :
    d.atEnd = c.atEnd := by
  have tokens : d.current :: d.rest = c.current :: c.rest :=
    List.IsSuffix.eq_of_length_le onward (Nat.succ_le_succ same)
  obtain ⟨current, rest⟩ := List.cons.inj tokens
  unfold Cursor.atEnd
  rw [current, rest]

theorem onward_moved (c : Cursor) : c.Onward c.moved := by
  unfold Onward moved
  split
  · exact List.suffix_rfl
  · split
    · exact List.suffix_rfl
    · next next rest ahead => rw [ahead]; exact List.suffix_cons _ _

theorem moved_of_last (last : c.rest = []) : c.moved = c := by
  unfold moved
  rw [last, ite_self]

theorem rest_moved_of_within (within : c.atEnd = false) :
    c.moved.rest.length + 1 = c.rest.length := by
  have moved := rest_moved c
  rw [within, if_neg Bool.false_ne_true] at moved
  have some : c.rest ≠ [] := by
    intro none
    unfold atEnd at within
    rw [none, List.isEmpty_nil, Bool.or_true] at within
    cases within
  have := List.length_pos_iff.mpr some
  omega

theorem further_moved (within : c.atEnd = false) : c.Further c.moved :=
  ⟨onward_moved c, by have := rest_moved_of_within within; omega⟩

/-- In looking for a boundary tokens are only passed. -/
theorem resume_suffix (previous current : Token) (rest : List Token) :
    (resume previous current rest).1 :: (resume previous current rest).2 <:+ current :: rest := by
  induction rest generalizing previous current with
  | nil => exact List.suffix_rfl
  | cons next rest ih =>
    unfold resume
    split
    · exact List.suffix_rfl
    · exact (ih current next).trans (List.suffix_cons _ _)

theorem further_synchronized (within : c.atEnd = false) : c.Further c.synchronized := by
  have onward : c.moved.Onward c.synchronized := by
    unfold synchronized
    rw [within, if_neg Bool.false_ne_true]
    exact resume_suffix c.current c.moved.current c.moved.rest
  have passed := further_moved within
  exact ⟨passed.1.trans onward, Nat.lt_of_le_of_lt onward.length_le passed.2⟩

/-- After a fault the cursor is further on, unless it was at the end. -/
theorem synchronized_cases (c : Cursor) :
    (c.atEnd = true ∧ c.synchronized = c) ∨ c.Further c.synchronized := by
  cases ended : c.atEnd with
  | true => exact .inl ⟨rfl, if_pos ended⟩
  | false => exact .inr (further_synchronized ended)

theorem onward_synchronized (c : Cursor) : c.Onward c.synchronized := by
  rcases synchronized_cases c with ⟨-, same⟩ | further
  · rw [same]
    exact Onward.refl c
  · exact further.1

end Cursor

namespace Parser

open Cursor

variable {α β γ : Type}

/-! ## What a rule does to the cursor -/

/-- The cursor has `k` tokens ahead, the current one included unless that has been read. -/
inductive Stands : Phase → Nat → Cursor → Prop
  | unread {φ : Phase} (c : Cursor) : Stands φ (c.rest.length + 1) c
  | read {c : Cursor} (last : c.rest = []) : Stands .any 0 c

/-- The endings of a run from a cursor with `k` tokens ahead: it leads onward, and where it succeeds
at least `i` of the tokens are passed. -/
inductive Leads (i : Nat) (φ : Phase) (k : Nat) (c : Cursor) :
    EStateM.Result SyntaxError Cursor α → Prop
  | ok {a : α} {d : Cursor} {j : Nat} (onward : c.Onward d) (passed : j + i ≤ k)
      (stands : Stands φ j d) : Leads i φ k c (.ok a d)
  | error {e : SyntaxError} {d : Cursor} (onward : c.Onward d) : Leads i φ k c (.error e d)

/-- Both rules do the same, and lead onward. -/
def Advances (m i : Nat) (φ φ' : Phase) (p p' : Parser α) : Prop :=
  ∀ k c, k ≤ m → Stands φ k c → p' c = p c ∧ Leads i φ' k c (p c)

variable {m n i k : Nat} {φ φ' : Phase} {c : Cursor}

theorem Stands.any (stands : Stands φ k c) : Stands .any k c := by
  cases stands with
  | unread => exact .unread c
  | read last => exact .read last

/-- Where at most one token is ahead it is the last. -/
theorem Stands.last (stands : Stands φ k c) (few : k ≤ 1) : c.rest = [] := by
  cases stands with
  | unread => exact List.length_eq_zero_iff.mp (by omega)
  | read last => exact last

theorem Stands.pos (stands : Stands .unread k c) : 0 < k := by
  cases stands with
  | unread => exact Nat.succ_pos _

theorem atEnd_of_last (last : c.rest = []) : c.atEnd = true := by
  unfold Cursor.atEnd
  rw [last, List.isEmpty_nil, Bool.or_true]

/-- Within the tokens, the next one is unread. -/
theorem Stands.moved (stands : Stands φ k c) (within : c.atEnd = false) :
    Stands .unread (k - 1) c.moved ∧ 2 ≤ k := by
  have passed := rest_moved_of_within within
  cases stands with
  | unread =>
    rw [Nat.add_sub_cancel, ← passed]
    exact ⟨.unread _, by omega⟩
  | read last =>
    rw [atEnd_of_last last] at within
    cases within

/-- A literal is passed, or it is the last token and has been read. -/
theorem Stands.literal (stands : Stands .unread k c) {value : Literal}
    (isLiteral : c.current.kind.literal? = some value) : Stands .any (k - 1) c.moved := by
  cases ended : c.atEnd with
  | false => exact (stands.moved ended).1.any
  | true =>
    have unended : c.current.kind.agrees .eof = false := by
      cases kind : c.current.kind with
      | eof => rw [kind] at isLiteral; cases isLiteral
      | punctuation | keyword | identifier | string | number => rfl
    have last : c.rest = [] := by
      unfold Cursor.atEnd at ended
      rw [unended, Bool.false_or] at ended
      exact List.isEmpty_iff.mp ended
    rw [moved_of_last last]
    cases stands with
    | unread => rw [last]; exact .read last

theorem Stands.freshId (stands : Stands φ k c) : Stands φ k { c with nextId := c.nextId + 1 } := by
  cases stands with
  | unread => exact .unread { c with nextId := c.nextId + 1 }
  | read last => exact .read last

theorem Leads.any {r : EStateM.Result SyntaxError Cursor α} (leads : Leads i φ k c r) :
    Leads i .any k c r := by
  cases leads with
  | ok onward passed stands => exact .ok onward passed stands.any
  | error onward => exact .error onward

/-- What a run does behind another. -/
theorem Leads.after {j k' : Nat} {d : Cursor} {r : EStateM.Result SyntaxError Cursor α}
    (leads : Leads j φ k' d r) (onward : c.Onward d) (passed : k' + i ≤ k) :
    Leads (i + j) φ k c r := by
  cases leads with
  | ok onward' passed' stands => exact .ok (onward.trans onward') (by omega) stands
  | error onward' => exact .error (onward.trans onward')

theorem Leads.mono {i' : Nat} {r : EStateM.Result SyntaxError Cursor α} (leads : Leads i φ k c r)
    (le : i' ≤ i) : Leads i' φ k c r := by
  cases leads with
  | ok onward passed stands => exact .ok onward (by omega) stands
  | error onward => exact .error onward

namespace Advances

variable {j : Nat} {φ'' : Phase} {p p' : Parser α}

theorem bind {f f' : α → Parser β} (first : Advances m i φ φ' p p')
    (second : ∀ k, k + i ≤ m → ∀ a, Advances k j φ' φ'' (f a) (f' a)) :
    Advances m (i + j) φ φ'' (p >>= f) (p' >>= f') := by
  intro k c le stands
  obtain ⟨same, leads⟩ := first k c le stands
  rw [bind_eq, bind_eq, same]
  -- The ending is taken as it comes, since the run is not looked into.
  generalize p c = r at leads
  cases leads with
  | ok onward passed stands' =>
    obtain ⟨same', leads'⟩ := second _ (by omega) _ _ _ (Nat.le_refl _) stands'
    exact ⟨same', leads'.after onward passed⟩
  | error onward => exact ⟨rfl, .error onward⟩

/-- What is behind a token that was passed is asked of the next one. -/
theorem onNext {φ₁ : Phase} (few : i ≤ 1) (related : Advances (k - 1) 0 φ₁ φ' p p')
    (pos : 0 < k) (stands : Stands φ₁ (k - 1) c.moved) :
    p' c.moved = p c.moved ∧ Leads i φ' k c (p c.moved) := by
  obtain ⟨same, leads⟩ := related (k - 1) c.moved (Nat.le_refl _) stands
  exact ⟨same, (leads.after (i := 1) (onward_moved c) (by omega)).mono few⟩

theorem isAt {f f' : Bool → Parser α} {kind : Kind}
    (yes : Advances m i φ φ' (f true) (f' true)) (no : Advances m i φ φ' (f false) (f' false)) :
    Advances m i φ φ' (isAt kind >>= f) (isAt kind >>= f') := by
  intro k c le stands
  have asked : Parser.isAt kind c = .ok (c.isAt kind) c := rfl
  rw [bind_of_ok asked, bind_of_ok asked]
  cases c.isAt kind with
  | true => exact yes k c le stands
  | false => exact no k c le stands

theorem atEnd {f f' : Bool → Parser α} (yes : Advances m i .any φ' (f true) (f' true))
    (no : Advances m i φ φ' (f false) (f' false)) :
    Advances m i φ φ' (atEnd >>= f) (atEnd >>= f') := by
  intro k c le stands
  have asked : Parser.atEnd c = .ok c.atEnd c := rfl
  rw [bind_of_ok asked, bind_of_ok asked]
  cases c.atEnd with
  | true => exact yes k c le stands.any
  | false => exact no k c le stands

theorem take {reading : Token → Option γ} {f f' : Option γ → Parser α} (few : i ≤ 1)
    (yes : ∀ k < m, ∀ a, Advances k 0 .unread φ' (f (some a)) (f' (some a)))
    (no : Advances m i φ φ' (f none) (f' none)) :
    Advances m i φ φ' (take? reading >>= f) (take? reading >>= f') := by
  intro k c le stands
  rcases take?_cases reading c with ⟨a, within, taken⟩ | left
  · obtain ⟨stands', two⟩ := stands.moved within
    rw [bind_of_ok taken, bind_of_ok taken]
    exact onNext few (yes (k - 1) (by omega) a) (by omega) stands'
  · rw [bind_of_ok left, bind_of_ok left]
    exact no k c le stands

/-- On the last token both rules find nothing, whether or not they look for something. -/
theorem idle {reading : Token → Option γ} {f' : Option γ → Parser α} (last : m ≤ 1)
    (no : Advances m i φ φ' p (f' none)) : Advances m i φ φ' p (take? reading >>= f') := by
  intro k c le stands
  have ended : c.atEnd = true := atEnd_of_last (stands.last (by omega))
  rw [bind_of_ok (take?_of_atEnd reading ended)]
  exact no k c le stands

theorem literal {f f' : Option Literal → Parser α} (few : i ≤ 1)
    (yes : ∀ k < m, ∀ a, Advances k 0 .any φ' (f (some a)) (f' (some a)))
    (no : Advances m i .unread φ' (f none) (f' none)) :
    Advances m i .unread φ' (literal? >>= f) (literal? >>= f') := by
  intro k c le stands
  cases isLiteral : c.current.kind.literal? with
  | some value =>
    have read := literal?_of_some isLiteral
    rw [bind_of_ok read, bind_of_ok read]
    have pos := stands.pos
    exact onNext few (yes (k - 1) (by omega) value) pos (stands.literal isLiteral)
  | none =>
    have left := literal?_of_none isLiteral
    rw [bind_of_ok left, bind_of_ok left]
    exact no k c le stands

theorem recovering (related : Advances m i φ φ' p p') :
    Advances m i φ φ' (recovering p) (recovering p') := by
  intro k c le stands
  obtain ⟨same, leads⟩ := related k c le stands
  unfold Parser.recovering
  rw [same]
  generalize p c = r at leads
  cases leads with
  | ok onward passed stands' => exact ⟨rfl, .ok onward passed stands'⟩
  | error onward => exact ⟨rfl, .error (onward.trans (onward_synchronized _))⟩

end Advances

/-- **All rules lead onward**, and do the same within larger bounds. -/
theorem advances : Congruence @Advances where
  mono related few passed k c le stands :=
    (related k c (Nat.le_trans le few) stands).imp id fun leads => leads.mono passed
  enter related k c le stands := related k c le stands.any
  leave related k c le stands := (related k c le stands).imp id Leads.any
  vacant p p' k c le stands := absurd stands.pos (by omega)
  pure a k c le stands := ⟨rfl, .ok (.refl c) (Nat.le_refl k) stands⟩
  fail cause k c le stands := ⟨rfl, .error (.refl c)⟩
  throw e k c le stands := ⟨rfl, .error (.refl c)⟩
  bind := Advances.bind
  freshId k c le stands := ⟨rfl, .ok (.refl c) (Nat.le_refl k) stands.freshId⟩
  line onLine rest k c le stands := rest c.current k c le stands
  isAt isWord := Advances.isAt
  atEnd := Advances.atEnd
  take blind := Advances.take
  idle blind := Advances.idle
  literal := Advances.literal
  recovering := Advances.recovering

/-! ## Declarations and expressions -/

/-- Where a rule leaves the cursor, whether it succeeds or fails. -/
def comesTo (p : Parser α) (c : Cursor) : Cursor :=
  match p c with
  | .ok _ d | .error _ d => d

theorem Leads.onward {p : Parser α} (leads : Leads i φ k c (p c)) : c.Onward (comesTo p c) := by
  unfold comesTo
  generalize p c = r at leads
  cases leads with
  | ok onward => exact onward
  | error onward => exact onward

variable {bound bound' : Nat}

theorem expression_advances (few : c.rest.length < bound) (le : bound ≤ bound') :
    expression bound' c = expression bound c ∧
      Leads 1 .any (c.rest.length + 1) c (expression bound c) :=
  advances.expression (Nat.le_refl bound) le _ c few (.unread c)

theorem statement_advances (few : c.rest.length < bound) (le : bound ≤ bound') :
    statement bound' c = statement bound c ∧
      Leads 1 .unread (c.rest.length + 1) c (statement bound c) :=
  (advances.statement_declaration (Nat.le_refl bound) le).1 _ c few (.unread c)

theorem declaration_advances (few : c.rest.length < bound) (le : bound ≤ bound') :
    declaration bound' c = declaration bound c ∧
      Leads 1 .unread (c.rest.length + 1) c (declaration bound c) :=
  advances.declaration (Nat.le_refl bound) le _ c few (.unread c)

theorem expressionFrom_eq (p : Parser Expr) (few : c.rest.length < bound) :
    expressionFrom p bound c = expression bound c := by
  rw [expression_from bound]
  exact (advances.expressionFrom _ p few (Nat.le_refl bound) _ c (Nat.le_refl _) (.unread c)).1

theorem statementFrom_eq (s d : Parser Stmt) (few : c.rest.length < bound) :
    statementFrom s d bound c = statement bound c ∧
      declarationFrom s d bound c = declaration bound c := by
  rw [(statement_declaration_from bound).1, (statement_declaration_from bound).2]
  obtain ⟨ofStmt, ofDecl⟩ := advances.statementFrom_declarationFrom (statement 0) (declaration 0) s d
    few (Nat.le_refl bound)
  exact ⟨(ofStmt _ c (Nat.le_refl _) (.unread c)).1, (ofDecl _ c (Nat.le_refl _) (.unread c)).1⟩

/-! ## Loops -/

/-- Whether the turns that a loop has at a cursor suffice: it does what it does with any number of
turns above that of the tokens behind the current one, whatever is done where these are used up. -/
def TurnsSuffice {σ : Type} (turn : Nat → (σ → Parser γ) → σ → Parser γ) (loop : σ → Parser γ)
    (c : Cursor) : Prop :=
  ∀ n last s, c.rest.length < n → turns turn last n s c = loop s c

theorem turnsSuffice_of_advances {σ : Type} {turn : Nat → (σ → Parser γ) → σ → Parser γ}
    {loop last : σ → Parser γ} (φ : Phase) (few : c.rest.length < bound)
    (same : ∀ s, loop s c = turns turn last bound s c)
    (loops : ∀ {n n' last last'}, c.rest.length < n → n ≤ n' → ∀ s,
      Advances (c.rest.length + 1) 0 .unread φ (turns turn last n s) (turns turn last' n' s)) :
    TurnsSuffice turn loop c := by
  intro n last' s above
  rw [same]
  rcases Nat.le_total bound n with le | le
  · exact (loops few le s _ c (Nat.le_refl _) (.unread c)).1
  · exact (loops above le s _ c (Nat.le_refl _) (.unread c)).1.symm

variable {nest : Nat}

theorem nested_advances (above : c.rest.length < nest) :
    Advances (c.rest.length + 1) 1 .unread .any (expression nest) (expression nest) :=
  advances.expression above (Nat.le_refl nest)

theorem argumentsAfter_suffice (above : c.rest.length < nest) (few : c.rest.length < bound) :
    TurnsSuffice (itemsTurn .tooManyArguments (expression nest))
      (argumentsAfter (expression nest) bound) c := by
  refine turnsSuffice_of_advances .any few (fun s => by rw [argumentsAfter_turns]) fun few le => ?_
  refine advances.turns (fun le _ _ rest => ?_) few le
  exact advances.itemsTurn _ (advances.fewer (nested_advances above) le) rest _ _

theorem parametersAfter_suffice (few : c.rest.length < bound) :
    TurnsSuffice (itemsTurn .tooManyParameters (name "parameter name")) (parametersAfter bound)
      c := by
  refine turnsSuffice_of_advances .unread few (fun s => by rw [parametersAfter_turns]) fun few le => ?_
  exact advances.turns (fun _ _ _ rest => advances.itemsTurn _ (advances.name _) rest _ _) few le

theorem blockAfter_suffice (above : c.rest.length < nest) (few : c.rest.length < bound) :
    TurnsSuffice (blockTurn (declaration nest)) (blockAfter (declaration nest) bound) c := by
  refine turnsSuffice_of_advances .unread few (fun s => by rw [blockAfter_turns]) fun few le => ?_
  refine advances.turns (fun le _ _ rest => ?_) few le
  have inner := advances.declaration above (Nat.le_refl nest)
  exact advances.blockTurn (advances.fewer inner le) rest _ _

theorem methodsAfter_suffice (above : c.rest.length < nest) (few : c.rest.length < bound) :
    TurnsSuffice (methodsTurn (declaration nest)) (methodsAfter (declaration nest) bound) c := by
  refine turnsSuffice_of_advances .any few (fun s => by rw [methodsAfter_turns]) fun few le => ?_
  refine advances.turns (fun le few le' rest => ?_) few le
  have inner := advances.declaration above (Nat.le_refl nest)
  exact advances.methodsTurn (advances.fewer inner le) few le' rest

/-- On the last token no sign is taken, so there may be as few turns as tokens behind the current
one. -/
theorem signs_suffice (few : c.rest.length ≤ bound) : TurnsSuffice signsTurn (signs bound) c := by
  have more (s : List (UnaryOp × Nat)) : signs bound s c = signs (bound + 1) s c :=
    (advances.signs (m := c.rest.length + 1) (by omega) (Nat.le_succ bound) s _ c (Nat.le_refl _)
      (.unread c)).1.symm
  refine turnsSuffice_of_advances .unread (Nat.lt_succ_of_le few)
    (fun s => by rw [more, signs_turns]) fun few le => ?_
  exact advances.turns (fun _ _ _ rest => advances.signsTurn rest _ _) few le

/-- A turn of a loop behind an operand, which may be the last token and has been read then. -/
theorem suffixes_suffice (above : c.rest.length < nest)
    (few : c.rest.length < bound ∨ c.rest = []) :
    TurnsSuffice (suffixesTurn (expression nest)) (suffixes (expression nest) bound) c := by
  have inner := nested_advances above
  have more (s : Expr) :
      suffixes (expression nest) bound s c = suffixes (expression nest) (bound + 1) s c := by
    rcases few with few | last
    · exact (advances.suffixes inner few (Nat.le_succ bound) s _ c (Nat.le_refl _)
        (.unread c)).1.symm
    · exact (advances.suffixes (advances.fewer inner (Nat.zero_le _)) (Nat.zero_le bound)
        (Nat.le_succ bound) s 0 c (Nat.le_refl 0) (.read last)).1.symm
  have above' : c.rest.length < bound + 1 := by
    rcases few with few | last
    · omega
    · rw [last]
      exact Nat.succ_pos bound
  refine turnsSuffice_of_advances .any above' (fun s => by rw [more, suffixes_turns]) fun few le => ?_
  refine advances.turns (fun le few le' rest => ?_) few le
  exact advances.suffixesTurn (advances.fewer inner le) few le' rest

/-- The operators of a level behind an operand, with the operands of the tighter levels. -/
theorem chain_suffice {level : Level} {tighter : List Level}
    (suffix : level :: tighter <:+ Level.all) (above : c.rest.length < nest)
    (few : c.rest.length < bound ∨ c.rest = []) :
    let operand := levels (expression nest) bound tighter
    TurnsSuffice (chainTurn level operand) (chain level operand bound) c := by
  intro operand
  have blind (kind : Kind) (isLiteral : kind.literal?.isSome = true) : level kind = none :=
    Congruence.level_literal (suffix.mem List.mem_cons_self) isLiteral
  have ahead : c.rest.length ≤ bound := by
    rcases few with few | last
    · exact Nat.le_of_lt few
    · rw [last]
      exact Nat.zero_le bound
  have inner : Advances (c.rest.length + 1) 1 .unread .any operand operand :=
    advances.levels (fun k lt => advances.fewer (nested_advances above) (Nat.le_of_lt lt))
      (by omega) (Nat.le_refl bound) fun l member => suffix.mem (List.mem_cons_of_mem level member)
  have more (s : Expr) : chain level operand bound s c = chain level operand (bound + 1) s c := by
    rcases few with few | last
    · exact (advances.chain blind inner few (Nat.le_succ bound) s _ c (Nat.le_refl _)
        (.unread c)).1.symm
    · exact (advances.chain blind (advances.fewer inner (Nat.zero_le _)) (Nat.zero_le bound)
        (Nat.le_succ bound) s 0 c (Nat.le_refl 0) (.read last)).1.symm
  refine turnsSuffice_of_advances .any (Nat.lt_succ_of_le ahead)
    (fun s => by rw [more, chain_turns]) fun {n n' _ _} above le s => ?_
  obtain ⟨n, rfl⟩ : ∃ d, n = d + 1 := ⟨n - 1, by omega⟩
  obtain ⟨n', rfl⟩ : ∃ d, n' = d + 1 := ⟨n' - 1, by omega⟩
  exact advances.enter (advances.chainTurns blind inner (by omega) (by omega) s)

/-- A rule that ends at a token which was not read, behind one that it has passed, is further on. -/
theorem Leads.further {a : α} {d : Cursor}
    (leads : Leads 1 .unread (c.rest.length + 1) c (.ok a d)) : c.Further d := by
  cases leads with
  | ok onward passed stands =>
    cases stands with
    | unread => exact ⟨onward, by omega⟩

/-- Each declaration that is read is further on. -/
theorem further_of_ok {s : Stmt} {d : Cursor} (few : c.rest.length < bound)
    (ok : declaration bound c = .ok s d) : c.Further d := by
  have leads := (declaration_advances few (Nat.le_refl bound)).2
  rw [ok] at leads
  exact leads.further

theorem unrecovered_advances (few : c.rest.length ≤ n) :
    Leads 1 .unread (c.rest.length + 1) c (unrecovered (declaration n) (statement n) n c) := by
  have ofDecl : ∀ k < c.rest.length + 1, Advances k 1 .unread .unread (declaration n) (declaration n) :=
    fun k lt => advances.declaration (by omega) (Nat.le_refl n)
  have ofStmt : ∀ k < c.rest.length + 1, Advances k 1 .unread .unread (statement n) (statement n) :=
    fun k lt => (advances.statement_declaration (by omega) (Nat.le_refl n)).1
  have whole := advances.unrecovered ofDecl ofStmt (Nat.succ_le_succ few) (Nat.le_refl n)
  exact (whole _ c (Nat.le_refl _) (.unread c)).2

/-- Each declaration that is refused is further on, unless the cursor is at the end. -/
theorem further_of_error {e : SyntaxError} {d : Cursor} (few : c.rest.length < bound)
    (failed : declaration bound c = .error e d) : c.Further d ∨ c.Onward d ∧ d.atEnd = true := by
  obtain ⟨n, rfl⟩ : ∃ n, bound = n + 1 := ⟨bound - 1, by omega⟩
  have leads := unrecovered_advances (Nat.le_of_lt_succ few)
  rw [declaration_eq] at failed
  unfold recovering at failed
  generalize unrecovered (declaration n) (statement n) n c = r at leads failed
  cases leads with
  | ok => cases failed
  | @error e' d' onward =>
    obtain ⟨-, rfl⟩ := EStateM.Result.error.inj failed
    rcases synchronized_cases d' with ⟨ended, same⟩ | further
    · rw [same]
      exact .inr ⟨onward, ended⟩
    · exact .inl (onward.further further)

/-- From a place within the tokens, each refused declaration is further on. -/
theorem further_of_error_within {e : SyntaxError} {d : Cursor} (few : c.rest.length < bound)
    (within : c.atEnd = false) (failed : declaration bound c = .error e d) : c.Further d := by
  rcases further_of_error few failed with further | ⟨onward, ended⟩
  · exact further
  · refine ⟨onward, Nat.lt_of_le_of_ne onward.length_le fun same => ?_⟩
    have := onward.atEnd (Nat.le_of_eq same.symm)
    rw [within, ended] at this
    cases this

/-! ## Programs -/

/-- The loop over the declarations ends at the end of the tokens. It has read and refused fewer of
them than there are tokens, and neither of its bounds matters. -/
theorem declarations_advance {turns turns' : Nat} (read : List Stmt) (faults : List SyntaxError)
    (few : c.rest.length < bound) (le : bound ≤ bound') (enough : c.rest.length ≤ turns)
    (enough' : c.rest.length ≤ turns') :
    ∃ program all d, declarations bound turns read faults c = (program, all, d) ∧
      declarations bound' turns' read faults c = (program, all, d) ∧ c.Onward d ∧
      d.atEnd = true ∧
      program.length + all.length ≤ read.length + faults.length + c.rest.length := by
  induction turns generalizing turns' read faults c with
  | zero =>
    have ended : c.atEnd = true := atEnd_of_last (List.length_eq_zero_iff.mp (by omega))
    rw [declarations_ended 0 read faults ended, declarations_ended turns' read faults ended]
    exact ⟨_, _, _, rfl, rfl, .refl c, ended, by simp⟩
  | succ turns ih =>
    cases within : c.atEnd with
    | true =>
      rw [declarations_ended _ read faults within, declarations_ended turns' read faults within]
      exact ⟨_, _, _, rfl, rfl, .refl c, within, by simp⟩
    | false =>
      have pos : c.rest ≠ [] := fun none => by
        rw [atEnd_of_last none] at within
        cases within
      have := List.length_pos_iff.mpr pos
      obtain ⟨turns', rfl⟩ : ∃ n, turns' = n + 1 := ⟨turns' - 1, by omega⟩
      obtain ⟨same, -⟩ := declaration_advances few le
      -- A declaration is counted as read or as refused, and either way it has passed a token.
      have goesOn {read' : List Stmt} {faults' : List SyntaxError} {d : Cursor}
          (further : c.Further d)
          (one : read'.length + faults'.length = read.length + faults.length + 1) :
          ∃ program all e, declarations bound turns read' faults' d = (program, all, e) ∧
            declarations bound' turns' read' faults' d = (program, all, e) ∧ c.Onward e ∧
            e.atEnd = true ∧
            program.length + all.length ≤ read.length + faults.length + c.rest.length := by
        obtain ⟨onward, fewer⟩ := further
        have few' : d.rest.length < bound := by omega
        have enough₁ : d.rest.length ≤ turns := by omega
        have enough₂ : d.rest.length ≤ turns' := by omega
        obtain ⟨program, all, e, run, run', onward', ended, count⟩ :=
          ih read' faults' few' enough₁ enough₂
        exact ⟨program, all, e, run, run', onward.trans onward', ended, by omega⟩
      cases here : declaration bound c with
      | ok s d =>
        rw [declarations_of_ok within here, declarations_of_ok within (same.trans here)]
        refine goesOn (further_of_ok few here) ?_
        rw [List.length_cons]
        omega
      | error e d =>
        rw [declarations_of_error within here, declarations_of_error within (same.trans here)]
        refine goesOn (further_of_error_within few within here) ?_
        rw [List.length_cons]
        omega

/-- As each declaration is further on, the loop ends before its turns are used up. -/
theorem declarationsFrom_eq
    (last : List Stmt → List SyntaxError → Cursor → List Stmt × List SyntaxError × Cursor)
    {turns : Nat} (read : List Stmt) (faults : List SyntaxError) (few : c.rest.length < bound)
    (enough : c.rest.length < turns) :
    declarationsFrom last bound turns read faults c = declarations bound turns read faults c := by
  induction turns generalizing read faults c with
  | zero => exact absurd enough (Nat.not_lt_zero _)
  | succ turns ih =>
    unfold declarationsFrom declarations
    cases within : c.atEnd with
    | true => rfl
    | false =>
      have goesOn {d : Cursor} (further : c.Further d) (read : List Stmt)
          (faults : List SyntaxError) :
          declarationsFrom last bound turns read faults d
            = declarations bound turns read faults d := by
        have fewer := further.2
        exact ih read faults (by omega) (by omega)
      rw [if_neg Bool.false_ne_true, if_neg Bool.false_ne_true]
      cases here : declaration bound c with
      | ok s d => exact goesOn (further_of_ok few here) _ _
      | error e d => exact goesOn (further_of_error_within few within here) _ _

/-- The loop over the declarations of a list of tokens, which is not empty. -/
theorem parse_advances (first : Token) (rest : List Token) (firstId : NodeId) :
    ∃ program faults d,
      parse (first :: rest) firstId
        = ⟨if faults.isEmpty then .ok program else .error faults, d.nextId % idCount⟩ ∧
      (∀ bound turns, rest.length < bound → rest.length ≤ turns →
        declarations bound turns [] [] (start first rest firstId) = (program, faults, d)) ∧
      (start first rest firstId).Onward d ∧ d.atEnd = true ∧
      program.length + faults.length ≤ rest.length := by
  let c := start first rest firstId
  -- The loop with the smallest bounds that do, and then with those of the program.
  obtain ⟨program, faults, d, run, run', onward, ended, count⟩ :=
    declarations_advance [] [] (c := c) (Nat.lt_succ_self rest.length)
      (Nat.le_refl (rest.length + 1)) (Nat.le_refl rest.length) (Nat.le_succ rest.length)
  refine ⟨program, faults, d, ?_, fun bound turns above enough => ?_, onward, ended, ?_⟩
  · unfold parse
    dsimp only [List.length_cons]
    rw [run']
  · obtain ⟨_, _, _, least, given, -⟩ :=
      declarations_advance [] [] (c := c) (Nat.lt_succ_self rest.length) above
        (Nat.le_refl rest.length) enough
    rw [given, ← least, run]
  · exact Nat.le_trans count (Nat.le_of_eq (Nat.zero_add rest.length))

/-- A single expression is read the same within larger bounds, and leads onward. -/
theorem wholeExpression_advances (few : c.rest.length < bound) (le : bound ≤ bound') :
    wholeExpression bound' c = wholeExpression bound c ∧
      c.Onward (comesTo (wholeExpression bound) c) := by
  obtain ⟨same, leads⟩ := expression_advances few le
  unfold comesTo wholeExpression
  rw [bind_eq, bind_eq, same]
  generalize expression bound c = r at leads
  cases leads with
  | error onward => exact ⟨rfl, onward⟩
  | @ok e d j onward passed stands =>
    refine ⟨rfl, ?_⟩
    dsimp only
    rw [bind_of_ok (rfl : atEnd d = .ok d.atEnd d)]
    cases d.atEnd with
    | true => exact onward
    | false => exact onward

/-- How many statements or faults a program was read as. -/
def returned (outcome : Except (List SyntaxError) (List Stmt)) : Nat :=
  match outcome with
  | .ok program => program.length
  | .error faults => faults.length

theorem returned_parse_le (tokens : List Token) (firstId : NodeId) :
    returned (parse tokens firstId).outcome ≤ tokens.length := by
  cases tokens with
  | nil => exact Nat.le_refl 0
  | cons first rest =>
    obtain ⟨program, faults, d, same, -, -, -, count⟩ := parse_advances first rest firstId
    rw [same, List.length_cons]
    dsimp only
    cases faults.isEmpty with
    | true =>
      show program.length ≤ _
      omega
    | false =>
      show faults.length ≤ _
      omega

/-- **Parsing makes progress**, whatever the tokens are and wherever among them the input ends.

From every cursor, and with every bound above the number of tokens behind the current one: no larger
bound makes a difference to a declaration, a statement or an expression, nor does what these do where
the bound is used up; where one leaves the cursor, the tokens ahead are the last of those that were
ahead before, so it has neither gone back nor left them; a declaration that is read ends a token or
more further on, and one that is refused does so too or ends at the end.

Each loop inside these rules has turns enough, too. The signs before an operand and what stands behind
it may use up their turns, but then the current token is the last one, and the loops end there with
any number of turns.

For every list of tokens: neither the loop over the declarations nor the reading of a single
expression depends on its bounds, once these are above the number of tokens behind the first, and the
loop ends before its turns are used up; they end in the tokens, the loop does so at the end, and the
statements and faults that it finds are no more than the tokens behind the first. -/
theorem parsing_makes_progress :
    (∀ (c : Cursor) (bound : Nat), c.rest.length < bound →
      (∀ bound', bound ≤ bound' → declaration bound' c = declaration bound c ∧
        statement bound' c = statement bound c ∧ expression bound' c = expression bound c) ∧
      (∀ p, expressionFrom p bound c = expression bound c) ∧
      (∀ s d, statementFrom s d bound c = statement bound c ∧
        declarationFrom s d bound c = declaration bound c) ∧
      c.Onward (comesTo (declaration bound) c) ∧ c.Onward (comesTo (statement bound) c) ∧
      c.Onward (comesTo (expression bound) c) ∧
      (∀ s d, declaration bound c = .ok s d → c.Further d) ∧
      ∀ e d, declaration bound c = .error e d → c.Further d ∨ d.atEnd = true) ∧
    (∀ (c : Cursor) (nest bound : Nat), c.rest.length < nest →
      (c.rest.length < bound →
        TurnsSuffice (itemsTurn .tooManyArguments (expression nest))
          (argumentsAfter (expression nest) bound) c ∧
        TurnsSuffice (itemsTurn .tooManyParameters (name "parameter name"))
          (parametersAfter bound) c ∧
        TurnsSuffice (blockTurn (declaration nest)) (blockAfter (declaration nest) bound) c ∧
        TurnsSuffice (methodsTurn (declaration nest)) (methodsAfter (declaration nest) bound) c) ∧
      (c.rest.length ≤ bound → TurnsSuffice signsTurn (signs bound) c) ∧
      (c.rest.length < bound ∨ c.rest = [] →
        TurnsSuffice (suffixesTurn (expression nest)) (suffixes (expression nest) bound) c ∧
        ∀ level tighter, level :: tighter <:+ Level.all →
          TurnsSuffice (chainTurn level (levels (expression nest) bound tighter))
            (chain level (levels (expression nest) bound tighter) bound) c)) ∧
    (∀ (first : Token) (rest : List Token) (firstId : NodeId),
      (∃ program faults d,
        parse (first :: rest) firstId
          = ⟨if faults.isEmpty then .ok program else .error faults, d.nextId % idCount⟩ ∧
        (∀ bound turns, rest.length < bound → rest.length ≤ turns →
          declarations bound turns [] [] (start first rest firstId) = (program, faults, d)) ∧
        (∀ last bound turns, rest.length < bound → rest.length < turns →
          declarationsFrom last bound turns [] [] (start first rest firstId)
            = (program, faults, d)) ∧
        (start first rest firstId).Onward d ∧ d.atEnd = true ∧
        program.length + faults.length ≤ rest.length) ∧
      ∀ bound, rest.length < bound →
        parseExpression (first :: rest) firstId
          = (match wholeExpression bound (start first rest firstId) with
            | .ok e d => ⟨.ok e, d.nextId % idCount⟩
            | .error fault d => ⟨.error fault, d.nextId % idCount⟩) ∧
        (start first rest firstId).Onward
          (comesTo (wholeExpression bound) (start first rest firstId))) ∧
    ∀ (tokens : List Token) (firstId : NodeId),
      returned (parse tokens firstId).outcome ≤ tokens.length := by
  refine ⟨fun c bound few => ?rules, fun c nest bound above => ?loops,
    fun first rest firstId => ?whole, returned_parse_le⟩
  case rules =>
    refine ⟨fun bound' le => ⟨(declaration_advances few le).1, (statement_advances few le).1,
      (expression_advances few le).1⟩, fun p => expressionFrom_eq p few,
      fun s d => statementFrom_eq s d few, ?_, ?_, ?_, fun s d => further_of_ok few, ?_⟩
    · exact (declaration_advances few (Nat.le_refl bound)).2.onward
    · exact (statement_advances few (Nat.le_refl bound)).2.onward
    · exact (expression_advances few (Nat.le_refl bound)).2.onward
    · exact fun e d failed => (further_of_error few failed).imp id And.right
  case loops =>
    refine ⟨fun few => ⟨?_, ?_, ?_, ?_⟩, signs_suffice, fun few => ⟨?_, fun level tighter suffix => ?_⟩⟩
    · exact argumentsAfter_suffice above few
    · exact parametersAfter_suffice few
    · exact blockAfter_suffice above few
    · exact methodsAfter_suffice above few
    · exact suffixes_suffice above few
    · exact chain_suffice suffix above few
  case whole =>
    let c := start first rest firstId
    obtain ⟨program, faults, d, same, loops, onward, ended, count⟩ :=
      parse_advances first rest firstId
    refine ⟨⟨program, faults, d, same, loops, fun last bound turns above enough => ?_, onward, ended,
      count⟩, fun bound above => ⟨?_, ?_⟩⟩
    · rw [declarationsFrom_eq last [] [] (c := c) above enough]
      exact loops bound turns above (Nat.le_of_lt enough)
    · rw [(wholeExpression_advances (c := c) (Nat.lt_succ_self rest.length) above).1]
      rfl
    · exact (wholeExpression_advances (c := c) above (Nat.le_refl bound)).2

end Parser

end Lox
