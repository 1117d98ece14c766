import Lox.Proofs.Parser.Turns

/-!
# What the rules of the parser have in common

A rule of the parser touches the tokens through few operations: it asks whether the current token is
of a kind or whether the input has ended, it takes a token that has a meaning for it (`take?`) or a
literal (`literal?`), and it stops at a fault. A relation between parsers that is closed under these
operations and under sequencing (`Congruence`) therefore relates each rule to itself, also within two
bounds of which both suffice for the tokens ahead. This is proved here once for all rules, and what
one wants to know of them is then a matter of the operations alone.

The last token of a list is special, for it is never passed. At the end of the input nothing is
taken, with one exception: a literal is read there too, and it stays the current token. So the rules
are told apart by whether the current token may have been read already (`Phase`). A literal is looked
for only where it cannot have been, since every rule that reads an operand has taken a token since
the operand before it.
-/

set_option autoImplicit false

namespace Lox

/-- The value of a token that is one. -/
def Kind.literal? : Kind → Option Literal
  | .number value => some (.number value)
  | .string value => some (.string value)
  | _ => none

/-- Words are not literals. -/
theorem Kind.agrees_of_literal {kind word : Kind} (isWord : word.isWord = true)
    (isLiteral : kind.literal?.isSome = true) : kind.agrees word = false := by
  cases agrees : kind.agrees word with
  | false => rfl
  | true =>
    obtain rfl : kind = word := (Kind.agrees_iff isWord kind).mp agrees
    cases kind with
    | string | number => cases isWord
    | punctuation | keyword | identifier | eof => cases isLiteral

namespace Parser

variable {α β γ : Type}

/-! ## The operations -/

/-- Takes the current token if it has a meaning, unless the input has ended. -/
def take? (reading : Token → Option γ) : Parser (Option γ) := fun c =>
  match if c.atEnd then none else reading c.current with
  | some a => .ok (some a) c.moved
  | none => .ok none c

/-- Reads a literal, even at the end of the input. -/
def literal? : Parser (Option Literal) := fun c =>
  match c.current.kind.literal? with
  | some value => .ok (some value) c.moved
  | none => .ok none c

/-- A reading in which literals mean nothing. -/
def Blind (reading : Token → Option γ) : Prop :=
  ∀ t : Token, t.kind.literal?.isSome = true → reading t = none

/-- The reading in which the tokens of a kind stand for themselves. -/
def ofKind (kind : Kind) (t : Token) : Option Token :=
  if t.kind.agrees kind then some t else none

/-- The reading in which a token that begins a primary expression stands for itself. -/
def ofPrimary (t : Token) : Option Token :=
  if beginsPrimary t.kind && t.kind.literal?.isNone then some t else none

theorem blind_ofKind {kind : Kind} (isWord : kind.isWord = true) : Blind (ofKind kind) := by
  intro t isLiteral
  unfold ofKind
  rw [Kind.agrees_of_literal isWord isLiteral, if_neg Bool.false_ne_true]

theorem blind_ofPrimary : Blind ofPrimary := by
  intro t isLiteral
  unfold ofPrimary
  simp [Option.isNone_eq_false_iff.mpr isLiteral]

theorem take?_of_atEnd (reading : Token → Option γ) {c : Cursor} (ended : c.atEnd = true) :
    take? reading c = .ok none c := by
  simp [take?, ended]

/-- A token is taken only before the end. -/
theorem take?_cases (reading : Token → Option γ) (c : Cursor) :
    (∃ a, c.atEnd = false ∧ take? reading c = .ok (some a) c.moved) ∨
      take? reading c = .ok none c := by
  unfold take?
  cases c.atEnd with
  | true => exact .inr rfl
  | false =>
    rw [if_neg Bool.false_ne_true]
    cases reading c.current with
    | some a => exact .inl ⟨a, rfl, rfl⟩
    | none => exact .inr rfl

theorem literal?_of_some {c : Cursor} {value : Literal}
    (isLiteral : c.current.kind.literal? = some value) :
    literal? c = .ok (some value) c.moved := by
  unfold literal?
  rw [isLiteral]

theorem literal?_of_none {c : Cursor} (other : c.current.kind.literal? = none) :
    literal? c = .ok none c := by
  unfold literal?
  rw [other]

theorem take?_ofKind (kind : Kind) (c : Cursor) :
    take? (ofKind kind) c
      = if c.isAt kind then .ok (some c.current) c.moved else .ok none c := by
  unfold take? ofKind Cursor.isAt
  cases c.atEnd <;> cases c.current.kind.agrees kind <;> rfl

theorem accept?_eq (kind : Kind) : accept? kind = take? (ofKind kind) :=
  funext fun c => (take?_ofKind kind c).symm

theorem accept_eq (kind : Kind) :
    accept kind = (take? (ofKind kind) >>= fun taken => pure taken.isSome) := by
  funext c
  rw [bind_eq, take?_ofKind]
  unfold accept
  cases c.isAt kind <;> rfl

theorem expect_eq (kind : Kind) (what : String) :
    expect kind what = (take? (ofKind kind) >>= fun taken =>
      match taken with
      | some t => pure t
      | none => fail (.expected what)) := by
  funext c
  rw [bind_eq, take?_ofKind]
  unfold expect
  cases c.isAt kind <;> rfl

theorem acceptAs?_eq (reading : Kind → Option γ) :
    acceptAs? reading = take? fun t => (reading t.kind).map (·, t.line) := by
  funext c
  unfold acceptAs? take?
  cases c.atEnd with
  | true => rfl
  | false => cases means : reading c.current.kind <;> simp [means]

/-- A literal is a primary expression, at the end of the input too. -/
theorem primary_of_literal (expr : Parser Expr) {c : Cursor} {value : Literal}
    (isLiteral : c.current.kind.literal? = some value) :
    primary expr c = .ok (.literal value) c.moved := by
  unfold primary
  rw [bind_of_ok (rfl : peek c = .ok c.current c)]
  cases kind : c.current.kind with
  | string | number =>
    rw [kind] at isLiteral
    cases isLiteral
    rfl
  | punctuation | keyword | identifier | eof =>
    rw [kind] at isLiteral
    cases isLiteral

/-- At the end of the input no other token is a primary expression. -/
theorem primary_of_atEnd (expr : Parser Expr) {c : Cursor}
    (other : c.current.kind.literal? = none) (ended : c.atEnd = true) :
    primary expr c = fail (.expected "expression") c := by
  have refuses (p : Parser Expr) : (atEnd >>= fun ended =>
      if ended then fail (.expected "expression") else p) c = fail (.expected "expression") c := by
    rw [bind_of_ok (rfl : atEnd c = .ok c.atEnd c), ended, if_pos rfl]
  unfold primary
  rw [bind_of_ok (rfl : peek c = .ok c.current c)]
  cases kind : c.current.kind with
  | string | number =>
    rw [kind] at other
    cases other
  | punctuation | keyword | identifier | eof => exact refuses _

/-- A primary expression that is no literal begins with a token that is taken. -/
theorem primary_of_not_literal (expr : Parser Expr) {c : Cursor}
    (other : c.current.kind.literal? = none) :
    primary expr c = (take? ofPrimary >>= fun taken =>
      match taken with
      | some t => primaryAfter expr t
      | none => fail (.expected "expression")) c := by
  cases ended : c.atEnd with
  | true =>
    refine Eq.trans ?_ (bind_of_ok (take?_of_atEnd ofPrimary ended)).symm
    exact primary_of_atEnd expr other ended
  | false =>
    cases begins : beginsPrimary c.current.kind with
    | true =>
      have taken : take? ofPrimary c = .ok (some c.current) c.moved := by
        simp [take?, ofPrimary, ended, begins, other]
      refine Eq.trans ?_ (bind_of_ok taken).symm
      exact primary_of_begins begins ended
    | false =>
      have left : take? ofPrimary c = .ok none c := by
        simp [take?, ofPrimary, begins]
      refine Eq.trans ?_ (bind_of_ok left).symm
      exact primary_of_other begins

theorem primary_eq (expr : Parser Expr) :
    primary expr = (literal? >>= fun value? =>
      match value? with
      | some value => pure (.literal value)
      | none => take? ofPrimary >>= fun taken =>
        match taken with
        | some t => primaryAfter expr t
        | none => fail (.expected "expression")) := by
  funext c
  cases isLiteral : c.current.kind.literal? with
  | some value =>
    refine Eq.trans ?_ (bind_of_ok (literal?_of_some isLiteral)).symm
    exact primary_of_literal expr isLiteral
  | none =>
    refine Eq.trans ?_ (bind_of_ok (literal?_of_none isLiteral)).symm
    exact primary_of_not_literal expr isLiteral

/-- What is known of the current token. -/
inductive Phase where
  /-- It has not been read. -/
  | unread
  /-- If it is a literal at the end of the tokens, it may have been read. -/
  | any

/-- A relation between parsers that the rules respect. `P m i φ φ' p p'` compares them where at most
`m` tokens are ahead, the current one included, and the current one is as `φ` says; where they
succeed they have passed at least `i` tokens, and the current one is as `φ'` says. The bounds of the
first parser are the smaller ones, so it may have given up looking for a token where the second still
does so (`idle`). -/
structure Congruence (P : {α : Type} → Nat → Nat → Phase → Phase → Parser α → Parser α → Prop) :
    Prop where
  mono {α : Type} {m m' i i' : Nat} {φ φ' : Phase} {p p' : Parser α} (related : P m i φ φ' p p')
    (few : m' ≤ m) (passed : i' ≤ i) : P m' i' φ φ' p p'
  enter {α : Type} {m i : Nat} {φ φ' : Phase} {p p' : Parser α} (related : P m i .any φ' p p') :
    P m i φ φ' p p'
  leave {α : Type} {m i : Nat} {φ φ' : Phase} {p p' : Parser α} (related : P m i φ φ' p p') :
    P m i φ .any p p'
  /-- A token that has not been read is ahead. -/
  vacant {α : Type} {i : Nat} {φ' : Phase} (p p' : Parser α) : P 0 i .unread φ' p p'
  pure {α : Type} {m : Nat} {φ : Phase} (a : α) : P m 0 φ φ (Pure.pure a) (Pure.pure a)
  fail {α : Type} {m i : Nat} {φ φ' : Phase} (cause : SyntaxError.Cause) :
    P m i φ φ' (fail cause : Parser α) (fail cause)
  throw {α : Type} {m i : Nat} {φ φ' : Phase} (e : SyntaxError) :
    P m i φ φ' (throw e : Parser α) (throw e)
  bind {α β : Type} {m i j : Nat} {φ φ' φ'' : Phase} {p p' : Parser α} {f f' : α → Parser β}
    (first : P m i φ φ' p p') (second : ∀ k, k + i ≤ m → ∀ a, P k j φ' φ'' (f a) (f' a)) :
    P m (i + j) φ φ'' (p >>= f) (p' >>= f')
  freshId {m : Nat} {φ : Phase} : P m 0 φ φ freshId freshId
  /-- Without taking it one looks at nothing but the line of the current token. -/
  line {α : Type} {m i : Nat} {φ φ' : Phase} {f f' : Token → Parser α}
    (onLine : ∀ t t', t.line = t'.line → f t = f t' ∧ f' t = f' t')
    (rest : ∀ t, P m i φ φ' (f t) (f' t)) : P m i φ φ' (peek >>= f) (peek >>= f')
  isAt {α : Type} {m i : Nat} {φ φ' : Phase} {f f' : Bool → Parser α} {kind : Kind}
    (isWord : kind.isWord = true) (yes : P m i φ φ' (f true) (f' true))
    (no : P m i φ φ' (f false) (f' false)) : P m i φ φ' (isAt kind >>= f) (isAt kind >>= f')
  atEnd {α : Type} {m i : Nat} {φ φ' : Phase} {f f' : Bool → Parser α}
    (yes : P m i .any φ' (f true) (f' true)) (no : P m i φ φ' (f false) (f' false)) :
    P m i φ φ' (atEnd >>= f) (atEnd >>= f')
  take {α γ : Type} {m i : Nat} {φ φ' : Phase} {reading : Token → Option γ}
    {f f' : Option γ → Parser α} (blind : Blind reading) (few : i ≤ 1)
    (yes : ∀ k < m, ∀ a, P k 0 .unread φ' (f (some a)) (f' (some a)))
    (no : P m i φ φ' (f none) (f' none)) : P m i φ φ' (take? reading >>= f) (take? reading >>= f')
  idle {α γ : Type} {m i : Nat} {φ φ' : Phase} {reading : Token → Option γ} {p : Parser α}
    {f' : Option γ → Parser α} (blind : Blind reading) (last : m ≤ 1)
    (no : P m i φ φ' p (f' none)) : P m i φ φ' p (take? reading >>= f')
  literal {α : Type} {m i : Nat} {φ' : Phase} {f f' : Option Literal → Parser α} (few : i ≤ 1)
    (yes : ∀ k < m, ∀ a, P k 0 .any φ' (f (some a)) (f' (some a)))
    (no : P m i .unread φ' (f none) (f' none)) :
    P m i .unread φ' (literal? >>= f) (literal? >>= f')
  recovering {α : Type} {m i : Nat} {φ φ' : Phase} {p p' : Parser α} (related : P m i φ φ' p p') :
    P m i φ φ' (recovering p) (recovering p')

namespace Congruence

variable {P : {α : Type} → Nat → Nat → Phase → Phase → Parser α → Parser α → Prop}
  {m n n' i : Nat} {φ φ' φ'' : Phase}

/-! ## Sequencing -/

section

variable {p p' : Parser α} {f f' : α → Parser β}

theorem fewer (closed : Congruence P) (related : P m i φ φ' p p') {k : Nat} (few : k ≤ m) :
    P k i φ φ' p p' :=
  closed.mono related few (Nat.le_refl i)

theorem weaken (closed : Congruence P) (related : P m i φ φ' p p') : P m 0 φ φ' p p' :=
  closed.mono related (Nat.le_refl m) (Nat.zero_le i)

/-- A rule behind one of which nothing is known. -/
theorem andThen (closed : Congruence P) (first : P m 0 φ φ' p p')
    (second : ∀ a, P m i φ' φ'' (f a) (f' a)) : P m i φ φ'' (p >>= f) (p' >>= f') := by
  have whole := closed.bind (j := i) first fun k le a => closed.fewer (second a) le
  rwa [Nat.zero_add] at whole

/-- A rule behind one that passes a token. -/
theorem andNext (closed : Congruence P) (first : P m 1 φ φ' p p')
    (second : ∀ k < m, ∀ a, P k 0 φ' φ'' (f a) (f' a)) : P m 1 φ φ'' (p >>= f) (p' >>= f') :=
  closed.bind first second

theorem accept (closed : Congruence P) {kind : Kind} {f f' : Bool → Parser β}
    (isWord : kind.isWord = true) (few : i ≤ 1)
    (yes : ∀ k < m, P k 0 .unread φ' (f true) (f' true))
    (no : P m i φ φ' (f false) (f' false)) :
    P m i φ φ' (accept kind >>= f) (accept kind >>= f') := by
  rw [accept_eq, bind_assoc, bind_assoc]
  exact closed.take (blind_ofKind isWord) few (fun k lt _ => yes k lt) no

theorem expect (closed : Congruence P) {kind : Kind} (isWord : kind.isWord = true)
    (what : String) : P m 1 φ .unread (expect kind what) (expect kind what) := by
  rw [expect_eq]
  exact closed.take (blind_ofKind isWord) (Nat.le_refl 1) (fun _ _ t => closed.pure t)
    (closed.fail _)

theorem name (closed : Congruence P) (what : String) :
    P m 1 φ .unread (name what) (name what) :=
  closed.andNext (closed.expect rfl _) fun _ _ _ => closed.pure _

theorem acceptAs? (closed : Congruence P) {reading : Kind → Option γ}
    {f f' : Option (γ × Nat) → Parser β}
    (blind : ∀ kind : Kind, kind.literal?.isSome = true → reading kind = none) (few : i ≤ 1)
    (yes : ∀ k < m, ∀ a, P k 0 .unread φ' (f (some a)) (f' (some a)))
    (no : P m i φ φ' (f none) (f' none)) :
    P m i φ φ' (acceptAs? reading >>= f) (acceptAs? reading >>= f') := by
  rw [acceptAs?_eq]
  exact closed.take (fun t isLiteral => by rw [blind t.kind isLiteral, Option.map_none]) few yes no

end

/-! ## Loops -/

/-- **A loop whose turns each pass a token** before they go on does the same whatever is done where
its turns are used up, as long as there are as many of them as tokens ahead. -/
theorem turns {σ : Type} (closed : Congruence P)
    {turn turn' : Nat → (σ → Parser α) → σ → Parser α} {last last' : σ → Parser α}
    (step : ∀ {k n n' : Nat} {again again' : σ → Parser α}, k ≤ m → k ≤ n + 1 → n ≤ n' →
      (∀ j < k, ∀ s, P j 0 .unread φ' (again s) (again' s)) →
      ∀ s, P k 0 .unread φ' (turn n again s) (turn' n' again' s))
    (few : m ≤ n) (le : n ≤ n') (s : σ) :
    P m 0 .unread φ' (turns turn last n s) (turns turn' last' n' s) := by
  induction n generalizing m n' s with
  | zero =>
    obtain rfl : m = 0 := Nat.le_zero.mp few
    exact closed.vacant _ _
  | succ n ih =>
    obtain ⟨n', rfl⟩ : ∃ d, n' = d + 1 := ⟨n' - 1, by omega⟩
    have le' : n ≤ n' := Nat.le_of_succ_le_succ le
    refine step (Nat.le_refl m) few le' (fun j lt s => ?_) s
    exact ih (fun few => step (by omega)) (by omega) le' s

theorem itemsTurn (closed : Congruence P) (many : SyntaxError.Cause) {item item' : Parser α}
    (inner : P m 1 .unread φ' item item')
    {again again' : List α → Parser (List α)}
    (rest : ∀ k < m, ∀ read, P k 0 .unread φ' (again read) (again' read)) (n n' : Nat)
    (read : List α) :
    P m 0 .unread φ' (itemsTurn many item n again read) (itemsTurn many item' n' again' read) := by
  unfold Parser.itemsTurn
  split
  · exact closed.fail _
  · refine closed.weaken (closed.andNext inner fun k lt a => ?_)
    exact closed.accept rfl (Nat.zero_le 1) (fun k' lt' => rest k' (by omega) _) (closed.pure _)

/-! ## Expressions -/

section

variable {expr expr' : Parser Expr}

theorem argumentsAfter (closed : Congruence P) (inner : P m 1 .unread .any expr expr')
    (few : m ≤ n) (le : n ≤ n') (read : List Expr) :
    P m 0 .unread .any (argumentsAfter expr n read) (argumentsAfter expr' n' read) := by
  rw [argumentsAfter_turns expr n, argumentsAfter_turns expr' n']
  exact closed.turns (fun le _ _ rest => closed.itemsTurn _ (closed.fewer inner le) rest _ _) few le read

theorem arguments (closed : Congruence P) (inner : P m 1 .unread .any expr expr') (few : m ≤ n)
    (le : n ≤ n') : P m 0 .unread .any (arguments expr n) (arguments expr' n') :=
  closed.isAt rfl (closed.leave (closed.pure _)) (closed.argumentsAfter inner few le [])

theorem primaryAfter (closed : Congruence P) (inner : P m 1 .unread .any expr expr') (t : Token) :
    P m 0 .unread .any (primaryAfter expr t) (primaryAfter expr' t) := by
  obtain ⟨kind, lexeme, line⟩ := t
  unfold Parser.primaryAfter
  cases kind with
  | number | string => exact closed.leave (closed.pure _)
  | identifier => exact closed.leave (closed.andThen closed.freshId fun id => closed.pure _)
  | eof => exact closed.fail _
  | keyword word =>
    cases word with
    | false | true | nil => exact closed.leave (closed.pure _)
    | this => exact closed.leave (closed.andThen closed.freshId fun id => closed.pure _)
    | super =>
      refine closed.weaken (closed.andNext (closed.expect rfl _) fun k lt dot => ?_)
      refine closed.weaken (closed.andNext (closed.name _) fun k' lt' method => ?_)
      exact closed.leave (closed.andThen closed.freshId fun id => closed.pure _)
    | and | «class» | «else» | «fun» | «for» | «if» | or | print | «return» | var | «while» =>
      exact closed.fail _
  | punctuation mark =>
    cases mark with
    | leftParen =>
      refine closed.weaken (closed.andNext inner fun k lt e => ?_)
      refine closed.weaken (closed.andNext (closed.expect rfl _) fun k' lt' close => ?_)
      exact closed.leave (closed.pure _)
    | rightParen | leftBrace | rightBrace | comma | dot | minus | plus | semicolon | slash | star
    | bang | bangEqual | equal | equalEqual | greater | greaterEqual | less | lessEqual =>
      exact closed.fail _

/-- An operand is the one place where a literal is looked for. -/
theorem primary (closed : Congruence P) (inner : ∀ k < m, P k 1 .unread .any expr expr') :
    P m 1 .unread .any (primary expr) (primary expr') := by
  rw [primary_eq, primary_eq]
  refine closed.literal (Nat.le_refl 1) (fun k lt value => closed.pure _) ?_
  refine closed.take blind_ofPrimary (Nat.le_refl 1) (fun k lt t => ?_) (closed.fail _)
  exact closed.primaryAfter (inner k lt) t

theorem suffixesTurn (closed : Congruence P) (inner : P m 1 .unread .any expr expr')
    (few : m ≤ n + 1) (le : n ≤ n') {again again' : Expr → Parser Expr}
    (rest : ∀ k < m, ∀ left, P k 0 .unread .any (again left) (again' left)) (left : Expr) :
    P m 0 φ .any (suffixesTurn expr n again left) (suffixesTurn expr' n' again' left) := by
  refine closed.enter (closed.accept rfl (Nat.zero_le 1) (fun k lt => ?_) ?_)
  · refine closed.andThen (closed.arguments (closed.fewer inner (Nat.le_of_lt lt)) (by omega) le) ?_
    refine fun values => closed.weaken (closed.andNext (closed.expect rfl _) fun k' lt' close => ?_)
    exact rest k' (by omega) _
  · refine closed.accept rfl (Nat.zero_le 1) (fun k lt => ?_) (closed.pure _)
    refine closed.weaken (closed.andNext (closed.name _) fun k' lt' property => ?_)
    exact rest k' (by omega) _

theorem suffixes (closed : Congruence P) (inner : P m 1 .unread .any expr expr') (few : m ≤ n)
    (le : n ≤ n') (left : Expr) :
    P m 0 .any .any (suffixes expr n left) (suffixes expr' n' left) := by
  cases n with
  | zero =>
    cases n' with
    | zero => exact closed.pure _
    | succ n' =>
      -- The first parser has given up, and the second one finds nothing.
      have last : m ≤ 1 := Nat.le_succ_of_le few
      unfold Parser.suffixes
      rw [accept_eq, accept_eq, bind_assoc, bind_assoc]
      refine closed.idle (blind_ofKind rfl) last ?_
      exact closed.idle (blind_ofKind rfl) last (closed.pure _)
  | succ n =>
    obtain ⟨n', rfl⟩ : ∃ d, n' = d + 1 := ⟨n' - 1, by omega⟩
    refine closed.suffixesTurn inner few (by omega) (fun k lt left => ?_) left
    rw [suffixes_turns expr n, suffixes_turns expr' n']
    refine closed.turns (fun le few le' => ?_) (by omega) (by omega) left
    exact closed.suffixesTurn (closed.fewer inner (by omega)) few le'

/-- A sign is no literal. -/
theorem ofKind?_literal {kind : Kind} (isLiteral : kind.literal?.isSome = true) :
    UnaryOp.ofKind? kind = none := by
  cases kind with
  | string | number => rfl
  | punctuation | keyword | identifier | eof => cases isLiteral

theorem signsTurn (closed : Congruence P)
    {again again' : List (UnaryOp × Nat) → Parser (List (UnaryOp × Nat))}
    (rest : ∀ k < m, ∀ read, P k 0 .unread .unread (again read) (again' read)) (n n' : Nat)
    (read : List (UnaryOp × Nat)) :
    P m 0 .unread .unread (signsTurn n again read) (signsTurn n' again' read) :=
  closed.acceptAs? (fun _ => ofKind?_literal) (Nat.zero_le 1) (fun k lt _ => rest k lt _)
    (closed.pure _)

theorem signs (closed : Congruence P) (few : m ≤ n + 1) (le : n ≤ n')
    (read : List (UnaryOp × Nat)) : P m 0 .unread .unread (signs n read) (signs n' read) := by
  induction n generalizing n' m read with
  | zero =>
    cases n' with
    | zero => exact closed.pure _
    | succ n' =>
      unfold Parser.signs
      rw [acceptAs?_eq]
      refine closed.idle (fun t isLiteral => ?_) few (closed.pure _)
      rw [ofKind?_literal isLiteral, Option.map_none]
  | succ n ih =>
    obtain ⟨n', rfl⟩ : ∃ d, n' = d + 1 := ⟨n' - 1, by omega⟩
    exact closed.signsTurn (fun k lt => ih (by omega) (by omega)) n n' read

theorem chainTurn (closed : Congruence P) {level : Level}
    (blind : ∀ kind : Kind, kind.literal?.isSome = true → level kind = none)
    {operand operand' : Parser Expr} (inner : P m 1 .unread .any operand operand')
    {again again' : Expr → Parser Expr}
    (rest : ∀ k, k + 1 < m → ∀ left, P k 0 .any .any (again left) (again' left)) (n n' : Nat)
    (left : Expr) :
    P m 0 .any .any (chainTurn level operand n again left)
      (chainTurn level operand' n' again' left) := by
  refine closed.acceptAs? blind (Nat.zero_le 1) (fun k lt sign => ?_) (closed.pure _)
  refine closed.weaken (closed.andNext (closed.fewer inner (Nat.le_of_lt lt)) ?_)
  exact fun k' lt' right => rest k' (by omega) _

theorem chain (closed : Congruence P) {level : Level}
    (blind : ∀ kind : Kind, kind.literal?.isSome = true → level kind = none)
    {operand operand' : Parser Expr} (inner : P m 1 .unread .any operand operand') (few : m ≤ n)
    (le : n ≤ n') (left : Expr) :
    P m 0 .any .any (chain level operand n left) (chain level operand' n' left) := by
  induction n generalizing n' m left with
  | zero =>
    cases n' with
    | zero => exact closed.pure _
    | succ n' =>
      unfold Parser.chain
      rw [acceptAs?_eq]
      refine closed.idle (fun t isLiteral => ?_) (Nat.le_succ_of_le few) (closed.pure _)
      rw [blind t.kind isLiteral, Option.map_none]
  | succ n ih =>
    obtain ⟨n', rfl⟩ : ∃ d, n' = d + 1 := ⟨n' - 1, by omega⟩
    refine closed.chainTurn blind inner (fun k lt => ?_) n n' left
    exact ih (closed.fewer inner (by omega)) (by omega) (by omega)

/-- Behind an operand a token may have been read already, so a turn is needed to find the end. -/
theorem chainTurns (closed : Congruence P) {level : Level}
    (blind : ∀ kind : Kind, kind.literal?.isSome = true → level kind = none)
    {operand operand' : Parser Expr} (inner : P m 1 .unread .any operand operand')
    {last last' : Expr → Parser Expr} (few : m ≤ n + 1) (le : n ≤ n') (left : Expr) :
    P m 0 .any .any (Parser.turns (Parser.chainTurn level operand) last (n + 1) left)
      (Parser.turns (Parser.chainTurn level operand') last' (n' + 1) left) := by
  induction n generalizing n' m left with
  | zero => exact closed.chainTurn blind inner (fun k lt => absurd lt (by omega)) 0 n' left
  | succ n ih =>
    obtain ⟨n', rfl⟩ : ∃ d, n' = d + 1 := ⟨n' - 1, by omega⟩
    refine closed.chainTurn blind inner (fun k lt => ?_) (n + 1) (n' + 1) left
    exact ih (closed.fewer inner (by omega)) (by omega) (by omega)

theorem unary (closed : Congruence P) (inner : ∀ k < m, P k 1 .unread .any expr expr')
    (few : m ≤ n + 1) (le : n ≤ n') : P m 1 .unread .any (unary expr n) (unary expr' n') := by
  refine closed.andThen (closed.signs few le []) fun operators => ?_
  refine closed.andNext (closed.primary inner) fun k lt operand => ?_
  refine closed.andThen (closed.suffixes (inner k lt) (by omega) le operand) fun whole => ?_
  exact closed.pure _

/-- No operator of a level is a literal. -/
theorem level_literal {level : Level} (member : level ∈ Level.all) {kind : Kind}
    (isLiteral : kind.literal?.isSome = true) : level kind = none := by
  simp only [Level.all, List.mem_cons, List.not_mem_nil, or_false] at member
  cases kind with
  | string | number => rcases member with rfl | rfl | rfl | rfl | rfl | rfl <;> rfl
  | punctuation | keyword | identifier | eof => cases isLiteral

theorem levels (closed : Congruence P) (inner : ∀ k < m, P k 1 .unread .any expr expr')
    (few : m ≤ n + 1) (le : n ≤ n') {ls : List Level} (sub : ∀ level ∈ ls, level ∈ Level.all) :
    P m 1 .unread .any (levels expr n ls) (levels expr' n' ls) := by
  induction ls with
  | nil => exact closed.unary inner few le
  | cons level tighter ih =>
    have operand := ih fun l member => sub l (List.mem_cons_of_mem level member)
    refine closed.andNext operand fun k lt left => ?_
    exact closed.chain (fun _ => level_literal (sub level List.mem_cons_self))
      (closed.fewer operand (Nat.le_of_lt lt)) (by omega) le left

theorem assignment (closed : Congruence P) (inner : ∀ k < m, P k 1 .unread .any expr expr')
    (few : m ≤ n + 1) (le : n ≤ n') :
    P m 1 .unread .any (assignment expr n) (assignment expr' n') := by
  unfold Parser.assignment
  refine closed.andNext (closed.levels inner few le fun _ => id) fun k lt target => ?_
  rw [accept?_eq]
  refine closed.take (blind_ofKind rfl) (Nat.zero_le 1) (fun k' lt' equals => ?_) (closed.pure _)
  refine closed.weaken (closed.andNext (inner k' (by omega)) fun k'' _ value => ?_)
  cases assigned? target value with
  | none => exact closed.throw _
  | some e => exact closed.pure _

/-- **Expressions**, whatever is done where their bound is used up. -/
theorem expressionFrom (closed : Congruence P) (p p' : Parser Expr) (few : m ≤ n) (le : n ≤ n') :
    P m 1 .unread .any (expressionFrom p n) (expressionFrom p' n') := by
  induction n generalizing m n' with
  | zero =>
    obtain rfl : m = 0 := Nat.le_zero.mp few
    exact closed.vacant _ _
  | succ n ih =>
    obtain ⟨n', rfl⟩ : ∃ d, n' = d + 1 := ⟨n' - 1, by omega⟩
    exact closed.assignment (fun k lt => ih (by omega) (by omega)) few (by omega)

theorem expression (closed : Congruence P) (few : m ≤ n) (le : n ≤ n') :
    P m 1 .unread .any (expression n) (expression n') := by
  rw [expression_from n, expression_from n']
  exact closed.expressionFrom _ _ few le

/-! ## Parts of statements -/

theorem parametersAfter (closed : Congruence P) (few : m ≤ n) (le : n ≤ n') (read : List Name) :
    P m 0 .unread .unread (parametersAfter n read) (parametersAfter n' read) := by
  rw [parametersAfter_turns n, parametersAfter_turns n']
  exact closed.turns (fun _ _ _ rest => closed.itemsTurn _ (closed.name _) rest _ _) few le read

theorem parameters (closed : Congruence P) (few : m ≤ n) (le : n ≤ n') :
    P m 0 .unread .unread (parameters n) (parameters n') :=
  closed.isAt rfl (closed.pure _) (closed.parametersAfter few le [])

theorem superclass? (closed : Congruence P) : P m 0 .unread .unread superclass? superclass? := by
  refine closed.accept rfl (Nat.zero_le 1) (fun k lt => ?_) (closed.pure _)
  refine closed.weaken (closed.andNext (closed.name _) fun k' lt' name => ?_)
  exact closed.andThen closed.freshId fun id => closed.pure _

theorem initializer? (closed : Congruence P) (inner : P m 1 .unread .any expr expr') :
    P m 0 .unread .any (initializer? expr) (initializer? expr') := by
  refine closed.accept rfl (Nat.zero_le 1) (fun k lt => ?_) (closed.leave (closed.pure _))
  have inner' := closed.fewer inner (Nat.le_of_lt lt)
  exact closed.weaken (closed.andNext inner' fun k' lt' e => closed.pure _)

theorem optional (closed : Congruence P) (close : Punctuation)
    (inner : P m 1 .unread .any expr expr') :
    P m 0 .unread .any (optional close expr) (optional close expr') := by
  refine closed.isAt rfl (closed.leave (closed.pure _)) ?_
  exact closed.weaken (closed.andNext inner fun k lt e => closed.pure _)

end

/-! ## Statements -/

section

variable {expr expr' : Parser Expr} {decl decl' stmt stmt' : Parser Stmt}

/-- What ends with a certain token. -/
theorem closing {f f' : Token → Parser α} (closed : Congruence P) {kind : Kind}
    (isWord : kind.isWord = true) (what : String)
    (rest : ∀ k < m, ∀ t, P k 0 .unread φ' (f t) (f' t)) :
    P m 0 φ φ' (Parser.expect kind what >>= f) (Parser.expect kind what >>= f') :=
  closed.weaken (closed.andNext (closed.expect isWord what) rest)

theorem varDeclaration (closed : Congruence P) (inner : P m 1 .unread .any expr expr') :
    P m 1 .unread .unread (varDeclaration expr) (varDeclaration expr') := by
  refine closed.andNext (closed.name _) fun k lt name => ?_
  refine closed.andThen (closed.initializer? (closed.fewer inner (Nat.le_of_lt lt))) ?_
  exact fun value => closed.closing rfl _ fun k' lt' close => closed.pure _

theorem expressionStatement (closed : Congruence P) (inner : P m 1 .unread .any expr expr') :
    P m 1 .unread .unread (expressionStatement expr) (expressionStatement expr') :=
  closed.andNext inner fun _ _ _ => closed.closing rfl _ fun _ _ _ => closed.pure _

theorem printStatement (closed : Congruence P) (inner : P m 1 .unread .any expr expr') :
    P m 1 .unread .unread (printStatement expr) (printStatement expr') :=
  closed.andNext inner fun _ _ _ => closed.closing rfl _ fun _ _ _ => closed.pure _

theorem returnStatement (closed : Congruence P) (inner : P m 1 .unread .any expr expr')
    (line : Nat) : P m 1 .unread .unread (returnStatement expr line) (returnStatement expr' line) :=
  closed.andThen (closed.optional _ inner) fun _ =>
    closed.andNext (closed.expect rfl _) fun _ _ _ => closed.pure _

theorem ifStatement (closed : Congruence P) (inner : P m 1 .unread .any expr expr')
    (branch : P m 1 .unread .unread stmt stmt') :
    P m 1 .unread .unread (ifStatement expr stmt) (ifStatement expr' stmt') := by
  refine closed.andNext (closed.expect rfl _) fun k₁ lt₁ opening => ?_
  refine closed.weaken (closed.andNext (closed.fewer inner (Nat.le_of_lt lt₁)) ?_)
  refine fun k₂ lt₂ condition => closed.closing rfl _ fun k₃ lt₃ close => ?_
  refine closed.weaken (closed.andNext (closed.fewer branch (by omega)) ?_)
  refine fun k₄ lt₄ thenBranch => ?_
  refine closed.accept rfl (Nat.zero_le 1) (fun k₅ lt₅ => ?_) (closed.pure _)
  refine closed.weaken (closed.andNext (closed.fewer branch (by omega)) ?_)
  exact fun k₆ lt₆ elseBranch => closed.pure _

theorem whileStatement (closed : Congruence P) (inner : P m 1 .unread .any expr expr')
    (branch : P m 1 .unread .unread stmt stmt') :
    P m 1 .unread .unread (whileStatement expr stmt) (whileStatement expr' stmt') := by
  refine closed.andNext (closed.expect rfl _) fun k₁ lt₁ opening => ?_
  refine closed.weaken (closed.andNext (closed.fewer inner (Nat.le_of_lt lt₁)) ?_)
  refine fun k₂ lt₂ condition => closed.closing rfl _ fun k₃ lt₃ close => ?_
  refine closed.weaken (closed.andNext (closed.fewer branch (by omega)) ?_)
  exact fun k₄ lt₄ body => closed.pure _

theorem forInitializer (closed : Congruence P) (inner : P m 1 .unread .any expr expr') :
    P m 1 .unread .unread (forInitializer expr) (forInitializer expr') := by
  refine closed.accept rfl (Nat.le_refl 1) (fun k lt => closed.pure _) ?_
  refine closed.accept rfl (Nat.le_refl 1) (fun k lt => ?_) ?_
  · have inner' := closed.fewer inner (Nat.le_of_lt lt)
    refine closed.weaken (closed.andNext (closed.varDeclaration inner') fun k' lt' s => ?_)
    exact closed.pure _
  · exact closed.andNext (closed.expressionStatement inner) fun k lt s => closed.pure _

theorem forStatement (closed : Congruence P) (inner : P m 1 .unread .any expr expr')
    (branch : P m 1 .unread .unread stmt stmt') :
    P m 1 .unread .unread (forStatement expr stmt) (forStatement expr' stmt') := by
  refine closed.andNext (closed.expect rfl _) fun k₁ lt₁ opening => ?_
  refine closed.weaken (closed.andNext (closed.forInitializer (closed.fewer inner (by omega))) ?_)
  refine fun k₂ lt₂ initializer => ?_
  refine closed.andThen (closed.optional _ (closed.fewer inner (by omega))) fun condition => ?_
  refine closed.closing rfl _ fun k₃ lt₃ semicolon => ?_
  refine closed.andThen (closed.optional _ (closed.fewer inner (by omega))) fun increment => ?_
  refine closed.closing rfl _ fun k₄ lt₄ close => ?_
  refine closed.weaken (closed.andNext (closed.fewer branch (by omega)) ?_)
  exact fun k₅ lt₅ body => closed.pure _

theorem blockTurn (closed : Congruence P) (inner : P m 1 .unread .unread decl decl')
    {again again' : List Stmt → Parser (List Stmt)}
    (rest : ∀ k < m, ∀ read, P k 0 .unread .unread (again read) (again' read)) (n n' : Nat)
    (read : List Stmt) :
    P m 0 .unread .unread (blockTurn decl n again read) (blockTurn decl' n' again' read) := by
  have ends {φ : Phase} : P m 0 φ .unread
      (do let _ ← Parser.expect (.punctuation .rightBrace) "'\x7d' after block"
          return read.reverse)
      (do let _ ← Parser.expect (.punctuation .rightBrace) "'\x7d' after block"
          return read.reverse) :=
    closed.closing rfl _ fun k lt close => closed.pure _
  refine closed.isAt rfl (closed.atEnd ends ends) (closed.atEnd ends ?_)
  exact closed.weaken (closed.andNext inner fun k lt s => rest k lt _)

theorem blockAfter (closed : Congruence P) (inner : P m 1 .unread .unread decl decl')
    (few : m ≤ n) (le : n ≤ n') (read : List Stmt) :
    P m 0 .unread .unread (blockAfter decl n read) (blockAfter decl' n' read) := by
  rw [blockAfter_turns decl n, blockAfter_turns decl' n']
  exact closed.turns (fun le _ _ rest => closed.blockTurn (closed.fewer inner le) rest _ _) few le read

theorem function (closed : Congruence P) (inner : P m 1 .unread .unread decl decl')
    (few : m ≤ n + 1) (le : n ≤ n') (what : String) :
    P m 1 .unread .unread (function decl n what) (function decl' n' what) := by
  refine closed.andNext (closed.name _) fun k₁ lt₁ name => ?_
  refine closed.closing rfl _ fun k₂ lt₂ opening => ?_
  refine closed.andThen (closed.parameters (by omega) le) fun params => ?_
  refine closed.closing rfl _ fun k₃ lt₃ close => closed.closing rfl _ fun k₄ lt₄ begins => ?_
  refine closed.andThen (closed.blockAfter (closed.fewer inner (by omega)) (by omega) le []) ?_
  exact fun body => closed.pure _

theorem methodsTurn (closed : Congruence P) (inner : P m 1 .unread .unread decl decl')
    (few : m ≤ n + 1) (le : n ≤ n') {again again' : List FunctionDecl → Parser (List FunctionDecl)}
    (rest : ∀ k < m, ∀ read, P k 0 .unread .any (again read) (again' read))
    (read : List FunctionDecl) :
    P m 0 .unread .any (methodsTurn decl n again read) (methodsTurn decl' n' again' read) := by
  refine closed.isAt rfl (closed.atEnd (closed.pure _) (closed.leave (closed.pure _)))
    (closed.atEnd (closed.pure _) ?_)
  exact closed.weaken (closed.andNext (closed.function inner few le _) fun k lt f => rest k lt _)

theorem methodsAfter (closed : Congruence P) (inner : P m 1 .unread .unread decl decl')
    (few : m ≤ n) (le : n ≤ n') (read : List FunctionDecl) :
    P m 0 .unread .any (methodsAfter decl n read) (methodsAfter decl' n' read) := by
  rw [methodsAfter_turns decl n, methodsAfter_turns decl' n']
  refine closed.turns (fun le few le' => ?_) few le read
  exact closed.methodsTurn (closed.fewer inner le) few le'

theorem classDeclaration (closed : Congruence P) (inner : P m 1 .unread .unread decl decl')
    (few : m ≤ n + 1) (le : n ≤ n') :
    P m 1 .unread .unread (classDeclaration decl n) (classDeclaration decl' n') := by
  refine closed.andNext (closed.name _) fun k₁ lt₁ name => ?_
  refine closed.andThen closed.superclass? fun parent => ?_
  refine closed.closing rfl _ fun k₂ lt₂ opening => ?_
  refine closed.andThen (closed.methodsAfter (closed.fewer inner (by omega)) (by omega) le []) ?_
  exact fun methods => closed.closing rfl _ fun k₃ lt₃ close => closed.pure _

/-- A statement has passed its keyword or brace before another nests in it. -/
theorem statementOf (closed : Congruence P) (ofDecl : ∀ k < m, P k 1 .unread .unread decl decl')
    (ofStmt : ∀ k < m, P k 1 .unread .unread stmt stmt') (few : m ≤ n + 1) (le : n ≤ n') :
    P m 1 .unread .unread (statementOf decl stmt n) (statementOf decl' stmt' n') := by
  have ofExpr {k : Nat} (lt : k < m) :
      P k 1 .unread .any (Parser.expression n) (Parser.expression n') :=
    closed.expression (by omega) le
  refine closed.line (fun t t' same => ⟨by simp only [same], by simp only [same]⟩) fun t => ?_
  refine closed.accept rfl (Nat.le_refl 1) (fun k lt => ?_) ?_
  · exact closed.weaken (closed.forStatement (ofExpr lt) (ofStmt k lt))
  refine closed.accept rfl (Nat.le_refl 1) (fun k lt => ?_) ?_
  · exact closed.weaken (closed.ifStatement (ofExpr lt) (ofStmt k lt))
  refine closed.accept rfl (Nat.le_refl 1) (fun k lt => ?_) ?_
  · exact closed.weaken (closed.whileStatement (ofExpr lt) (ofStmt k lt))
  refine closed.accept rfl (Nat.le_refl 1) (fun k lt => ?_) ?_
  · exact closed.weaken (closed.returnStatement (ofExpr lt) _)
  refine closed.accept rfl (Nat.le_refl 1) (fun k lt => ?_) ?_
  · refine closed.andThen (closed.blockAfter (ofDecl k lt) (by omega) le []) fun body => ?_
    exact closed.pure _
  refine closed.accept rfl (Nat.le_refl 1) (fun k lt => ?_) ?_
  · exact closed.weaken (closed.printStatement (ofExpr lt))
  · exact closed.expressionStatement (closed.expression few (by omega))

theorem unrecovered (closed : Congruence P) (ofDecl : ∀ k < m, P k 1 .unread .unread decl decl')
    (ofStmt : ∀ k < m, P k 1 .unread .unread stmt stmt') (few : m ≤ n + 1) (le : n ≤ n') :
    P m 1 .unread .unread (unrecovered decl stmt n) (unrecovered decl' stmt' n') := by
  refine closed.accept rfl (Nat.le_refl 1) (fun k lt => ?_) ?_
  · exact closed.weaken (closed.classDeclaration (ofDecl k lt) (by omega) le)
  refine closed.accept rfl (Nat.le_refl 1) (fun k lt => ?_) ?_
  · refine closed.weaken (closed.andNext (closed.function (ofDecl k lt) (by omega) le _) ?_)
    exact fun k' lt' f => closed.pure _
  refine closed.accept rfl (Nat.le_refl 1) (fun k lt => ?_) ?_
  · exact closed.weaken (closed.varDeclaration (closed.expression (by omega) le))
  · exact closed.statementOf ofDecl ofStmt few le

end

/-- **Statements and declarations**, whatever is done where their bound is used up. -/
theorem statementFrom_declarationFrom (closed : Congruence P) (s d s' d' : Parser Stmt)
    (few : m ≤ n) (le : n ≤ n') :
    P m 1 .unread .unread (statementFrom s d n) (statementFrom s' d' n') ∧
      P m 1 .unread .unread (declarationFrom s d n) (declarationFrom s' d' n') := by
  induction n generalizing m n' with
  | zero =>
    obtain rfl : m = 0 := Nat.le_zero.mp few
    exact ⟨closed.vacant _ _, closed.vacant _ _⟩
  | succ n ih =>
    obtain ⟨n', rfl⟩ : ∃ d, n' = d + 1 := ⟨n' - 1, by omega⟩
    -- What nests stands behind a token: there are fewer ahead of it, as its bound is smaller.
    have ofDecl (k : Nat) (lt : k < m) :
        P k 1 .unread .unread (declarationFrom s d n) (declarationFrom s' d' n') :=
      (ih (by omega) (by omega)).2
    have ofStmt (k : Nat) (lt : k < m) :
        P k 1 .unread .unread (statementFrom s d n) (statementFrom s' d' n') :=
      (ih (by omega) (by omega)).1
    refine ⟨closed.statementOf ofDecl ofStmt few (by omega), ?_⟩
    exact closed.recovering (closed.unrecovered ofDecl ofStmt few (by omega))

theorem statement_declaration (closed : Congruence P) (few : m ≤ n) (le : n ≤ n') :
    P m 1 .unread .unread (statement n) (statement n') ∧
      P m 1 .unread .unread (declaration n) (declaration n') := by
  rw [(statement_declaration_from n).1, (statement_declaration_from n').1,
    (statement_declaration_from n).2, (statement_declaration_from n').2]
  exact closed.statementFrom_declarationFrom _ _ _ _ few le

theorem declaration (closed : Congruence P) (few : m ≤ n) (le : n ≤ n') :
    P m 1 .unread .unread (declaration n) (declaration n') :=
  (closed.statement_declaration few le).2

end Congruence

end Parser

end Lox
