import Lox.Proofs.Grammar.Reading

/-!
# Two cursors abreast

What a rule reads depends only on the tokens that it comes to, and not on its bound, which is never
reached. Two cursors are abreast if the same tokens are ahead of them up to one at which the rules
in question halt: expressions halt at a semicolon, and everything halts at the end of the input.
From such cursors a rule has the same result or the same fault, whatever is behind the token and
whatever the two bounds are, and leaves the cursors abreast.

The number of tokens ahead of the halt is what the bounds are compared with. A rule that nests
others, or a loop, has a smaller bound for them and has passed a token before: so `Agrees` counts
the tokens that a rule is sure to pass where it succeeds, of which no more than one matters.
-/

set_option autoImplicit false

namespace Lox

/-- What two cursors have before them: tokens that are `inside`, which are the same for both, the
token at which they halt, and whatever is behind it for each. The ids that they give out begin at
numbers with the same remainder. -/
structure Horizon where
  inside : Token → Prop
  halt : Token
  behind : List Token
  behind' : List Token
  first : Nat
  first' : Nat
  unended : ∀ t, inside t → t.kind.agrees .eof = false
  halts : halt.kind.agrees .eof = true ∨ halt.kind = .punctuation .semicolon
  same : behind'.isEmpty = behind.isEmpty
  numbered : first' % Parser.idCount = first % Parser.idCount

namespace Horizon

variable (h : Horizon)

/-- A kind which the token at the horizon is not taken for. -/
def Bars (kind : Kind) : Prop :=
  h.halt.kind.agrees .eof = true ∨ h.halt.kind.agrees kind = false

/-- Of all kinds only a semicolon can be taken at the horizon. -/
theorem bars {kind : Kind} (other : Kind.agrees (.punctuation .semicolon) kind = false) :
    h.Bars kind :=
  h.halts.imp id fun semicolon => (congrArg (Kind.agrees · kind) semicolon).trans other

end Horizon

namespace Cursor

variable (h : Horizon)

/-- Two cursors that have the same `k` tokens ahead of the horizon, and have given out as many
ids. -/
structure Abreast (k : Nat) (c c' : Cursor) : Prop where
  ahead : ∃ us, us.length = k ∧ (∀ t ∈ us, h.inside t) ∧
    c.current :: c.rest = us ++ h.halt :: h.behind ∧
    c'.current :: c'.rest = us ++ h.halt :: h.behind'
  taken : ∃ j, c.nextId = h.first + j ∧ c'.nextId = h.first' + j

variable {h} {k : Nat} {c c' : Cursor}

namespace Abreast

/-- Both cursors have the same id to give out. -/
theorem nextId (abreast : Abreast h k c c') :
    c'.nextId % Parser.idCount = c.nextId % Parser.idCount := by
  obtain ⟨j, here, here'⟩ := abreast.taken
  rw [here, here', Nat.add_mod, h.numbered, ← Nat.add_mod]

theorem current (abreast : Abreast h k c c') : c'.current = c.current := by
  obtain ⟨us, -, -, here, here'⟩ := abreast.ahead
  cases us with
  | nil => exact (List.cons.inj here').1.trans (List.cons.inj here).1.symm
  | cons u us => exact (List.cons.inj here').1.trans (List.cons.inj here).1.symm

/-- At the horizon the token is that which halts, and before it one that is inside. -/
theorem current_cases (abreast : Abreast h k c c') :
    (k = 0 ∧ c.current = h.halt) ∨
      (0 < k ∧ h.inside c.current ∧ c.atEnd = false ∧ c'.atEnd = false) := by
  obtain ⟨us, rfl, inside, here, here'⟩ := abreast.ahead
  cases us with
  | nil => exact .inl ⟨rfl, (List.cons.inj here).1⟩
  | cons u us =>
    obtain ⟨current, rest⟩ := List.cons.inj here
    obtain ⟨current', rest'⟩ := List.cons.inj here'
    have within := inside u List.mem_cons_self
    refine .inr ⟨Nat.succ_pos _, current ▸ within, ?_, ?_⟩
    · unfold atEnd
      rw [current, h.unended u within, rest, Bool.false_or, List.isEmpty_eq_false_iff]
      exact List.append_ne_nil_of_right_ne_nil us (List.cons_ne_nil _ _)
    · unfold atEnd
      rw [current', h.unended u within, rest', Bool.false_or, List.isEmpty_eq_false_iff]
      exact List.append_ne_nil_of_right_ne_nil us (List.cons_ne_nil _ _)

theorem atEnd (abreast : Abreast h k c c') : c'.atEnd = c.atEnd := by
  rcases abreast.current_cases with ⟨rfl, halted⟩ | ⟨-, -, unended, unended'⟩
  · obtain ⟨us, none, -, here, here'⟩ := abreast.ahead
    obtain rfl : us = [] := List.length_eq_zero_iff.mp none
    unfold Cursor.atEnd
    rw [abreast.current, (List.cons.inj here).2, (List.cons.inj here').2, h.same]
  · rw [unended, unended']

theorem isAt (abreast : Abreast h k c c') (kind : Kind) : c'.isAt kind = c.isAt kind := by
  unfold Cursor.isAt
  rw [abreast.atEnd, abreast.current]

/-- A kind which is barred at the horizon is found before it. -/
theorem pos (abreast : Abreast h k c c') {kind : Kind} (bars : h.Bars kind)
    (here : c.isAt kind = true) : 0 < k := by
  rcases abreast.current_cases with ⟨-, halted⟩ | ⟨pos, -⟩
  · unfold Cursor.isAt Cursor.atEnd at here
    rw [halted] at here
    rcases bars with ended | other
    · rw [ended] at here
      cases here
    · rw [other, Bool.and_false] at here
      cases here
  · exact pos

/-- Before the horizon both cursors move to the same token. -/
theorem moved (abreast : Abreast h (k + 1) c c') : Abreast h k c.moved c'.moved := by
  obtain ⟨us, length, inside, here, here'⟩ := abreast.ahead
  cases us with
  | nil => cases length
  | cons u us =>
    obtain ⟨current, rest⟩ := List.cons.inj here
    obtain ⟨current', rest'⟩ := List.cons.inj here'
    have unended : c.current.kind.agrees .eof = false :=
      current ▸ h.unended u (inside u List.mem_cons_self)
    have unended' : c'.current.kind.agrees .eof = false := abreast.current ▸ unended
    refine ⟨⟨us, Nat.succ.inj length, fun t member => inside t (List.mem_cons_of_mem u member),
      ?_, ?_⟩, ?_⟩
    · unfold Cursor.moved
      rw [unended, if_neg Bool.false_ne_true, rest]
      cases us <;> rfl
    · unfold Cursor.moved
      rw [unended', if_neg Bool.false_ne_true, rest']
      cases us <;> rfl
    · rw [nextId_moved, nextId_moved]
      exact abreast.taken

/-- Both cursors give out an id. -/
theorem freshId (abreast : Abreast h k c c') :
    Abreast h k { c with nextId := c.nextId + 1 } { c' with nextId := c'.nextId + 1 } where
  ahead := abreast.ahead
  taken := by
    obtain ⟨j, here, here'⟩ := abreast.taken
    exact ⟨j + 1, congrArg (· + 1) here, congrArg (· + 1) here'⟩

end Abreast

end Cursor

namespace Parser

variable {α β γ : Type} (h : Horizon)

/-- The endings of two runs with `k` tokens ahead: the same result, behind at least `i` of the
tokens, or the same fault. -/
inductive Alike (i k : Nat) : EStateM.Result SyntaxError Cursor α →
    EStateM.Result SyntaxError Cursor α → Prop
  | ok {a : α} {d d' : Cursor} {j : Nat} (passed : j + i ≤ k) (abreast : d.Abreast h j d') :
      Alike i k (.ok a d) (.ok a d')
  | error {e : SyntaxError} {d d' : Cursor} {j : Nat} (le : j ≤ k) (abreast : d.Abreast h j d') :
      Alike i k (.error e d) (.error e d')

/-- From cursors abreast with up to `m` tokens ahead both rules end alike, and pass at least `i`
tokens where they succeed. -/
def Agrees (i m : Nat) (p p' : Parser α) : Prop :=
  ∀ k c c', k ≤ m → c.Abreast h k c' → Alike h i k (p c) (p' c')

variable {h} {i m n n' : Nat} {p p' : Parser α} {f f' : α → Parser β}

/-! ## Sequencing -/

theorem Alike.mono {i' k k' : Nat} {r r' : EStateM.Result SyntaxError Cursor α}
    (alike : Alike h i k r r') (le : k ≤ k') (passed : k + i' ≤ k' + i) : Alike h i' k' r r' := by
  cases alike with
  | ok passed' abreast => exact .ok (by omega) abreast
  | error le' abreast => exact .error (Nat.le_trans le' le) abreast

theorem Agrees.mono {m' : Nat} (agrees : Agrees h i m p p') (le : m' ≤ m) : Agrees h i m' p p' :=
  fun k c c' few => agrees k c c' (Nat.le_trans few le)

theorem Agrees.weaken (agrees : Agrees h i m p p') : Agrees h 0 m p p' :=
  fun k c c' few abreast =>
    (agrees k c c' few abreast).mono (Nat.le_refl k) (Nat.add_le_add_left (Nat.zero_le i) k)

theorem Agrees.bind (first : Agrees h 0 m p p') (second : ∀ a, Agrees h i m (f a) (f' a)) :
    Agrees h i m (p >>= f) (p' >>= f') := by
  intro k c c' few abreast
  have here := first k c c' few abreast
  rw [bind_eq, bind_eq]
  -- The two endings are taken as they come, since neither run is looked into.
  generalize p c = r, p' c' = r' at here
  cases here with
  | ok passed abreast' =>
    exact (second _ _ _ _ (by omega) abreast').mono (by omega) (by omega)
  | error le abreast' => exact .error le abreast'

/-- Behind a token there are fewer ahead of what follows. -/
theorem Agrees.then (first : Agrees h 1 m p p')
    (second : ∀ k < m, ∀ a, Agrees h 0 k (f a) (f' a)) :
    Agrees h 1 m (p >>= f) (p' >>= f') := by
  intro k c c' few abreast
  have here := first k c c' few abreast
  rw [bind_eq, bind_eq]
  generalize p c = r, p' c' = r' at here
  cases here with
  | ok passed abreast' =>
    exact (second _ (by omega) _ _ _ _ (Nat.le_refl _) abreast').mono (by omega) (by omega)
  | error le abreast' => exact .error le abreast'

theorem agrees_pure (a : α) : Agrees h 0 m (pure a) (pure a) :=
  fun k _ _ _ abreast => .ok (Nat.le_refl k) abreast

theorem agrees_fail (cause : SyntaxError.Cause) :
    Agrees h i m (fail cause : Parser α) (fail cause) := by
  intro k c c' _ abreast
  unfold fail
  rw [abreast.current]
  exact .error (Nat.le_refl k) abreast

theorem agrees_throw (e : SyntaxError) : Agrees h i m (throw e : Parser α) (throw e) :=
  fun k _ _ _ abreast => .error (Nat.le_refl k) abreast

/-! ## The moves of the cursor -/

theorem agrees_atEnd : Agrees h 0 m atEnd atEnd := by
  intro k c c' _ abreast
  unfold atEnd
  rw [abreast.atEnd]
  exact .ok (Nat.le_refl k) abreast

theorem agrees_isAt (kind : Kind) : Agrees h 0 m (isAt kind) (isAt kind) := by
  intro k c c' _ abreast
  unfold isAt
  rw [abreast.isAt]
  exact .ok (Nat.le_refl k) abreast

theorem agrees_peek : Agrees h 0 m peek peek := by
  intro k c c' _ abreast
  unfold peek
  rw [abreast.current]
  exact .ok (Nat.le_refl k) abreast

theorem agrees_freshId : Agrees h 0 m freshId freshId := by
  intro k c c' _ abreast
  unfold freshId
  rw [abreast.nextId]
  exact .ok (Nat.le_refl k) abreast.freshId

theorem agrees_expect {kind : Kind} (bars : h.Bars kind) (what : String) :
    Agrees h 1 m (expect kind what) (expect kind what) := by
  intro k c c' _ abreast
  unfold expect
  rw [abreast.isAt, abreast.current]
  cases here : c.isAt kind with
  | true =>
    obtain ⟨k, rfl⟩ := Nat.exists_eq_add_one.mpr (abreast.pos bars here)
    exact .ok (Nat.le_refl _) abreast.moved
  | false => exact .error (Nat.le_refl k) abreast

theorem agrees_name (what : String) : Agrees h 1 m (name what) (name what) :=
  (agrees_expect (h.bars rfl) _).then fun _ _ _ => agrees_pure _

/-- A rule that takes a token before the horizon if it finds a meaning in it, and else leaves the
cursor. -/
def Probes (h : Horizon) (q : Parser γ) (taken : γ → Prop) : Prop :=
  ∀ k c c', c.Abreast h k c' →
    (∃ a, taken a ∧ 0 < k ∧ q c = .ok a c.moved ∧ q c' = .ok a c'.moved) ∨
      ∃ a, ¬ taken a ∧ q c = .ok a c ∧ q c' = .ok a c'

theorem probes_accept {kind : Kind} (bars : h.Bars kind) : Probes h (accept kind) (· = true) := by
  intro k c c' abreast
  unfold accept
  rw [abreast.isAt]
  cases here : c.isAt kind with
  | true => exact .inl ⟨true, rfl, abreast.pos bars here, rfl, rfl⟩
  | false => exact .inr ⟨false, Bool.false_ne_true, rfl, rfl⟩

theorem probes_accept? {kind : Kind} (bars : h.Bars kind) :
    Probes h (accept? kind) (·.isSome) := by
  intro k c c' abreast
  unfold accept?
  rw [abreast.isAt, abreast.current]
  cases here : c.isAt kind with
  | true => exact .inl ⟨some c.current, rfl, abreast.pos bars here, rfl, rfl⟩
  | false => exact .inr ⟨none, Bool.false_ne_true, rfl, rfl⟩

theorem probes_acceptAs? {reading : Kind → Option γ}
    (none : reading (.punctuation .semicolon) = none) :
    Probes h (acceptAs? reading) (·.isSome) := by
  intro k c c' abreast
  unfold acceptAs?
  rw [abreast.atEnd, abreast.current]
  rcases abreast.current_cases with ⟨-, halted⟩ | ⟨pos, -, unended, -⟩
  · refine .inr ⟨.none, Bool.false_ne_true, ?_⟩
    -- Neither the end of the input nor a semicolon has a meaning here.
    have nothing : (if c.atEnd then .none else reading c.current.kind) = .none := by
      rcases h.halts with ended | semicolon
      · unfold Cursor.atEnd
        rw [halted, ended, Bool.true_or, if_pos rfl]
      · rw [halted, semicolon, none, ite_self]
    rw [nothing]
    exact ⟨rfl, rfl⟩
  · rw [unended, if_neg Bool.false_ne_true]
    cases reading c.current.kind with
    | some a => exact .inl ⟨some (a, c.current.line), rfl, pos, rfl, rfl⟩
    | none => exact .inr ⟨.none, Bool.false_ne_true, rfl, rfl⟩

/-- What may follow is taken at both cursors or at neither. -/
theorem Probes.agrees {q : Parser γ} {taken : γ → Prop} {f f' : γ → Parser β}
    (probes : Probes h q taken) (few : i ≤ 1)
    (yes : ∀ a, taken a → ∀ k < m, Agrees h 0 k (f a) (f' a))
    (no : ∀ a, ¬ taken a → Agrees h i m (f a) (f' a)) : Agrees h i m (q >>= f) (q >>= f') := by
  intro k c c' le abreast
  rcases probes k c c' abreast with ⟨a, took, pos, found, found'⟩ | ⟨a, left, found, found'⟩
  · rw [bind_of_ok found, bind_of_ok found']
    obtain ⟨k, rfl⟩ := Nat.exists_eq_add_one.mpr pos
    exact (yes a took k le k _ _ (Nat.le_refl k) abreast.moved).mono (by omega) (by omega)
  · rw [bind_of_ok found, bind_of_ok found']
    exact no a left k c c' le abreast

theorem Agrees.accept {kind : Kind} {f f' : Bool → Parser β} (bars : h.Bars kind) (few : i ≤ 1)
    (yes : ∀ k < m, Agrees h 0 k (f true) (f' true)) (no : Agrees h i m (f false) (f' false)) :
    Agrees h i m (accept kind >>= f) (Parser.accept kind >>= f') := by
  refine (probes_accept bars).agrees few (fun a took => ?_) (fun a left => ?_)
  · rw [took]
    exact yes
  · rw [Bool.eq_false_iff.mpr left]
    exact no

theorem Probes.option {q : Parser (Option γ)} {f f' : Option γ → Parser β}
    (probes : Probes h q (·.isSome)) (few : i ≤ 1)
    (yes : ∀ a, ∀ k < m, Agrees h 0 k (f (some a)) (f' (some a)))
    (no : Agrees h i m (f none) (f' none)) : Agrees h i m (q >>= f) (q >>= f') := by
  refine probes.agrees few (fun found took => ?_) (fun found left => ?_)
  · cases found with
    | none => cases took
    | some a => exact yes a
  · cases found with
    | none => exact no
    | some => exact absurd rfl left

/-! ## Expressions -/

section

variable {expr expr' : Parser Expr}

theorem agrees_argumentsAfter (inner : Agrees h 1 m expr expr') (few : m < n) (few' : m < n')
    (read : List Expr) :
    Agrees h 0 m (argumentsAfter expr n read) (argumentsAfter expr' n' read) := by
  induction n generalizing n' m read with
  | zero => exact absurd few (Nat.not_lt_zero m)
  | succ n ih =>
    obtain ⟨n', rfl⟩ := Nat.exists_eq_add_one.mpr (Nat.zero_lt_of_lt few')
    unfold argumentsAfter
    split
    · exact agrees_fail _
    · refine (inner.then fun k lt argument => ?_).weaken
      refine .accept (h.bars rfl) (Nat.zero_le 1) (fun k' lt' => ?_) (agrees_pure _)
      exact ih (inner.mono (by omega)) (by omega) (by omega) _

theorem agrees_arguments (inner : Agrees h 1 m expr expr') (few : m < n) (few' : m < n') :
    Agrees h 0 m (arguments expr n) (arguments expr' n') := by
  unfold arguments
  refine (agrees_isAt _).bind fun none => ?_
  cases none with
  | true => exact agrees_pure _
  | false => exact agrees_argumentsAfter inner few few' []

theorem agrees_primaryAfter (inner : Agrees h 1 m expr expr') (t : Token) :
    Agrees h 0 m (primaryAfter expr t) (primaryAfter expr' t) := by
  obtain ⟨kind, lexeme, line⟩ := t
  unfold primaryAfter
  cases kind with
  | number | string => exact agrees_pure _
  | identifier => exact agrees_freshId.bind fun id => agrees_pure _
  | eof => exact agrees_fail _
  | keyword word =>
    cases word with
    | false | true | nil => exact agrees_pure _
    | this => exact agrees_freshId.bind fun id => agrees_pure _
    | super =>
      refine ((agrees_expect (h.bars rfl) _).then fun k lt dot => ?_).weaken
      refine ((agrees_name _).then fun k' lt' method => ?_).weaken
      exact agrees_freshId.bind fun id => agrees_pure _
    | and | «class» | «else» | «fun» | «for» | «if» | or | print | «return» | var | «while» =>
      exact agrees_fail _
  | punctuation mark =>
    cases mark with
    | leftParen =>
      refine (inner.then fun k lt e => ?_).weaken
      exact ((agrees_expect (h.bars rfl) _).then fun k' lt' close => agrees_pure _).weaken
    | rightParen | leftBrace | rightBrace | comma | dot | minus | plus | semicolon | slash | star
    | bang | bangEqual | equal | equalEqual | greater | greaterEqual | less | lessEqual =>
      exact agrees_fail _

/-- A primary expression has a token, behind which what nests in it stands. -/
theorem agrees_primary (inner : ∀ k < m, Agrees h 1 k expr expr') :
    Agrees h 1 m (primary expr) (primary expr') := by
  intro k c c' le abreast
  have here : c'.current = c.current := abreast.current
  cases begins : beginsPrimary c.current.kind with
  | false =>
    rw [primary_of_other begins, primary_of_other (here.symm ▸ begins)]
    exact agrees_fail _ k c c' le abreast
  | true =>
    rcases abreast.current_cases with ⟨-, halted⟩ | ⟨pos, -, unended, unended'⟩
    · -- No primary expression begins where expressions halt.
      rw [halted] at begins
      rcases h.halts with ended | semicolon
      · cases kind : h.halt.kind with
        | eof =>
          rw [kind] at begins
          cases begins
        | punctuation | keyword | identifier | string | number =>
          rw [kind] at ended
          cases ended
      · rw [semicolon] at begins
        cases begins
    · obtain ⟨k, rfl⟩ := Nat.exists_eq_add_one.mpr pos
      rw [primary_of_begins begins unended, primary_of_begins (here.symm ▸ begins) unended', here]
      exact (agrees_primaryAfter (inner k le) c.current k _ _ (Nat.le_refl k) abreast.moved).mono
        (by omega) (by omega)

theorem agrees_suffixes (inner : Agrees h 1 m expr expr') (few : m < n) (few' : m < n')
    (left : Expr) : Agrees h 0 m (suffixes expr n left) (suffixes expr' n' left) := by
  induction n generalizing n' m left with
  | zero => exact absurd few (Nat.not_lt_zero m)
  | succ n ih =>
    obtain ⟨n', rfl⟩ := Nat.exists_eq_add_one.mpr (Nat.zero_lt_of_lt few')
    unfold suffixes
    refine .accept (h.bars rfl) (Nat.zero_le 1) (fun k lt => ?_) ?_
    · have inner' := inner.mono (Nat.le_of_lt lt)
      refine (agrees_arguments inner' (by omega) (by omega)).bind fun values => ?_
      refine ((agrees_expect (h.bars rfl) _).then fun k' lt' close => ?_).weaken
      exact ih (inner'.mono (Nat.le_of_lt lt')) (by omega) (by omega) _
    · refine .accept (h.bars rfl) (Nat.zero_le 1) (fun k lt => ?_) (agrees_pure _)
      refine ((agrees_name _).then fun k' lt' property => ?_).weaken
      exact ih (inner.mono (by omega)) (by omega) (by omega) _

/-- At the horizon there is no sign, and the loop ends whatever its bound. -/
theorem agrees_signs_horizon (read : List (UnaryOp × Nat)) :
    Agrees h 0 0 (signs n read) (signs n' read) := by
  intro k c c' few abreast
  obtain rfl : k = 0 := Nat.le_zero.mp few
  have probes : Probes h (acceptAs? UnaryOp.ofKind?) (·.isSome) := probes_acceptAs? rfl
  obtain ⟨_, _, pos, -⟩ | ⟨sign, other, found, found'⟩ := probes 0 c c' abreast
  · exact absurd pos (Nat.lt_irrefl 0)
  · cases sign with
    | some => exact absurd rfl other
    | none =>
      have ends : ∀ n, signs n read c = .ok read c := by
        rintro (_ | n)
        · rfl
        · exact bind_of_ok found
      have ends' : ∀ n, signs n read c' = .ok read c' := by
        rintro (_ | n)
        · rfl
        · exact bind_of_ok found'
      rw [ends, ends']
      exact .ok (Nat.le_refl 0) abreast

theorem agrees_signs (few : m ≤ n) (few' : m ≤ n') (read : List (UnaryOp × Nat)) :
    Agrees h 0 m (signs n read) (signs n' read) := by
  induction n generalizing n' m read with
  | zero =>
    obtain rfl : m = 0 := Nat.le_zero.mp few
    exact agrees_signs_horizon read
  | succ n ih =>
    -- Either bound may be used up, though only at the horizon.
    cases n' with
    | zero =>
      obtain rfl : m = 0 := Nat.le_zero.mp few'
      exact agrees_signs_horizon read
    | succ n' =>
      unfold signs
      refine (probes_acceptAs? rfl).option (Nat.zero_le 1) (fun sign k lt => ?_) (agrees_pure _)
      exact ih (by omega) (by omega) _

theorem agrees_chain (level : Level) (none : level (.punctuation .semicolon) = none)
    {operand operand' : Parser Expr} (inner : Agrees h 1 m operand operand') (few : m < n)
    (few' : m < n') (left : Expr) :
    Agrees h 0 m (chain level operand n left) (chain level operand' n' left) := by
  induction n generalizing n' m left with
  | zero => exact absurd few (Nat.not_lt_zero m)
  | succ n ih =>
    obtain ⟨n', rfl⟩ := Nat.exists_eq_add_one.mpr (Nat.zero_lt_of_lt few')
    unfold chain
    refine (probes_acceptAs? none).option (Nat.zero_le 1) (fun sign k lt => ?_) (agrees_pure _)
    refine ((inner.mono (Nat.le_of_lt lt)).then fun k' lt' right => ?_).weaken
    exact ih (inner.mono (by omega)) (by omega) (by omega) _

theorem agrees_unary (inner : ∀ k < m, Agrees h 1 k expr expr') (few : m ≤ n) (few' : m ≤ n') :
    Agrees h 1 m (unary expr n) (unary expr' n') := by
  unfold unary
  refine (agrees_signs few few' []).bind fun operators => ?_
  refine (agrees_primary inner).then fun k lt operand => ?_
  refine (agrees_suffixes (inner k lt) (by omega) (by omega) operand).bind fun whole => ?_
  exact agrees_pure _

/-- No operator of a level is a semicolon. -/
theorem level_semicolon {level : Level} (member : level ∈ Level.all) :
    level (.punctuation .semicolon) = none := by
  simp only [Level.all, List.mem_cons, List.not_mem_nil, or_false] at member
  rcases member with rfl | rfl | rfl | rfl | rfl | rfl <;> rfl

theorem agrees_levels (inner : ∀ k < m, Agrees h 1 k expr expr') (few : m ≤ n) (few' : m ≤ n')
    {ls : List Level} (sub : ∀ level ∈ ls, level ∈ Level.all) :
    Agrees h 1 m (levels expr n ls) (levels expr' n' ls) := by
  induction ls with
  | nil => exact agrees_unary inner few few'
  | cons level tighter ih =>
    have operand := ih fun l member => sub l (List.mem_cons_of_mem level member)
    refine operand.then fun k lt left => ?_
    exact agrees_chain level (level_semicolon (sub level List.mem_cons_self))
      (operand.mono (Nat.le_of_lt lt)) (by omega) (by omega) left

theorem agrees_assignment (inner : ∀ k < m, Agrees h 1 k expr expr') (few : m ≤ n)
    (few' : m ≤ n') : Agrees h 1 m (assignment expr n) (assignment expr' n') := by
  unfold assignment
  refine (agrees_levels inner few few' fun _ => id).then fun k lt target => ?_
  refine (probes_accept? (h.bars rfl)).option (Nat.zero_le 1) (fun equals k' lt' => ?_)
    (agrees_pure _)
  refine ((inner k' (by omega)).then fun k'' _ value => ?_).weaken
  -- The same target is good or bad for both.
  cases assigned? target value with
  | none => exact agrees_throw _
  | some e => exact agrees_pure _

end

/-- **Expressions** are read alike with all bounds above the number of tokens up to the horizon. -/
theorem agrees_expression (few : m < n) (few' : m < n') :
    Agrees h 1 m (expression n) (expression n') := by
  induction n generalizing m n' with
  | zero => exact absurd few (Nat.not_lt_zero m)
  | succ n ih =>
    obtain ⟨n', rfl⟩ := Nat.exists_eq_add_one.mpr (Nat.zero_lt_of_lt few')
    -- What nests stands behind a token: there are fewer ahead of it, as its bound is smaller.
    exact agrees_assignment (fun k lt => ih (by omega) (by omega)) (by omega) (by omega)

end Parser

end Lox
