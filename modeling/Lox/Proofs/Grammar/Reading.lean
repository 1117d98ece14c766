import Lox.Proofs.Parser.Programs
import Lox.Proofs.Grammar.Rules

/-!
# Reading what a rule derives

A parser and a rule of the grammar are compared on tokens with the end of the input behind them.
The parser is `Sound` for the rule where all that it reads from the tokens is derived by the rule,
and it `Takes` the rule where it reads all that the rule derives, provided that what follows cannot
be read as more of it. Soundness is closed under sequencing. That a rule is taken is shown by
evaluating the parser on a derivation, token by token.
-/

set_option autoImplicit false

namespace Lox

open Grammar (Rule)

/-- Whether a kind has a single spelling or none of its own, so that tokens of the kind agree. -/
def Kind.isWord : Kind → Bool
  | .punctuation _ | .keyword _ | .identifier => true
  | .string _ | .number _ | .eof => false

theorem Kind.agrees_iff {word : Kind} (isWord : word.isWord = true) (kind : Kind) :
    kind.agrees word = true ↔ kind = word := by
  cases word with
  | punctuation mark =>
    cases kind with
    | punctuation other => exact beq_iff_eq.trans (Kind.punctuation.injEq other mark ▸ Iff.rfl)
    | keyword | identifier | string | number | eof => exact ⟨nofun, nofun⟩
  | keyword word =>
    cases kind with
    | keyword other => exact beq_iff_eq.trans (Kind.keyword.injEq other word ▸ Iff.rfl)
    | punctuation | identifier | string | number | eof => exact ⟨nofun, nofun⟩
  | identifier =>
    cases kind with
    | identifier => exact ⟨fun _ => rfl, fun _ => rfl⟩
    | punctuation | keyword | string | number | eof => exact ⟨nofun, nofun⟩
  | string | number | eof => cases isWord

theorem Kind.agrees_self (kind : Kind) : kind.agrees kind = true := by
  cases kind with
  | punctuation mark => exact beq_self_eq_true mark
  | keyword word => exact beq_self_eq_true word
  | identifier | string | number | eof => rfl

theorem Kind.unended_of_isWord {word : Kind} (isWord : word.isWord = true) :
    word.agrees .eof = false := by
  cases word with
  | punctuation | keyword | identifier => rfl
  | string | number | eof => cases isWord

namespace Cursor

/-- The cursor before tokens, with a last one behind them. -/
def before (ts : List Token) (last : Token) (n : Nat) : Cursor :=
  match ts with
  | [] => ⟨last, [], n⟩
  | t :: ts => ⟨t, ts ++ [last], n⟩

variable {t last : Token} {ts : List Token} {n : Nat} {word : Kind}

theorem atEnd_before_nil : (before [] last n).atEnd = true := by
  unfold atEnd before
  rw [List.isEmpty_nil, Bool.or_true]

theorem atEnd_before_cons : (before (t :: ts) last n).atEnd = t.kind.agrees .eof := by
  unfold atEnd before
  rw [List.isEmpty_eq_false_iff.mpr (List.append_ne_nil_of_right_ne_nil _ (List.cons_ne_nil _ _)),
    Bool.or_false]

theorem moved_before (unended : t.kind.agrees .eof = false) :
    (before (t :: ts) last n).moved = before ts last n := by
  unfold moved before
  rw [unended, if_neg Bool.false_ne_true]
  cases ts <;> rfl

theorem isAt_before (isWord : word.isWord = true) :
    (before (t :: ts) last n).isAt word = t.kind.agrees word := by
  unfold isAt
  rw [atEnd_before_cons]
  cases agrees : t.kind.agrees word with
  | false => exact (congrArg _ agrees).trans (Bool.and_false _)
  | true =>
    have is : t.kind = word := (Kind.agrees_iff isWord _).mp agrees
    rw [is, Kind.unended_of_isWord isWord]
    exact agrees

/-- Where the next token is of a kind, the cursor is at one. -/
theorem isAt_of_eq (isWord : word.isWord = true) (is : t.kind = word) :
    (before (t :: ts) last n).isAt word = true := by
  rw [isAt_before isWord]
  exact (Kind.agrees_iff isWord _).mpr is

/-- Where the next token, if there is one, is of another kind, the cursor is not at one. -/
theorem isAt_of_ne (isWord : word.isWord = true) (other : ∀ t ∈ ts.head?, t.kind ≠ word) :
    (before ts last n).isAt word = false := by
  cases ts with
  | nil =>
    unfold isAt
    rw [atEnd_before_nil]
    rfl
  | cons t ts =>
    rw [isAt_before isWord, Bool.eq_false_iff]
    exact fun agrees => other t rfl ((Kind.agrees_iff isWord _).mp agrees)

/-- A token of one kind is not of another. -/
theorem head_ne {kind : Kind} (is : t.kind = kind) (ne : kind.agrees word = false) :
    ∀ t' ∈ (t :: ts).head?, t'.kind ≠ word := by
  rintro _ ⟨⟩ same
  rw [← is, same, Kind.agrees_self] at ne
  cases ne

theorem moved_of_eq (isWord : word.isWord = true) (is : t.kind = word) :
    (before (t :: ts) last n).moved = before ts last n :=
  moved_before ((congrArg (Kind.agrees · .eof) is).trans (Kind.unended_of_isWord isWord))

/-- A cursor at a kind has a token of this kind before it. -/
theorem exists_cons_of_isAt (isWord : word.isWord = true)
    (here : (before ts last n).isAt word = true) : ∃ t ts', ts = t :: ts' ∧ t.kind = word := by
  cases ts with
  | nil =>
    have elsewhere : (before [] last n).isAt word = false := isAt_of_ne isWord nofun
    rw [elsewhere] at here
    cases here
  | cons t ts =>
    rw [isAt_before isWord] at here
    exact ⟨t, ts, rfl, (Kind.agrees_iff isWord _).mp here⟩

end Cursor

namespace Parser

open Cursor

variable {α β γ : Type} {t last : Token} {ts : List Token} {n : Nat} {word : Kind}

/-! ## Single tokens -/

section

theorem accept_of_eq (isWord : word.isWord = true) (is : t.kind = word) :
    accept word (before (t :: ts) last n) = .ok true (before ts last n) := by
  unfold accept
  rw [isAt_of_eq isWord is, if_pos rfl, moved_of_eq isWord is]

theorem accept_of_ne (word : Kind) (isWord : word.isWord = true)
    (other : ∀ t ∈ ts.head?, t.kind ≠ word) :
    accept word (before ts last n) = .ok false (before ts last n) := by
  unfold accept
  rw [isAt_of_ne isWord other, if_neg Bool.false_ne_true]

/-- Where the token is there, the first branch is taken. -/
theorem accept_then {p q : Parser α} (isWord : word.isWord = true) (is : t.kind = word) :
    (accept word >>= fun found => if found then p else q) (before (t :: ts) last n)
      = p (before ts last n) := by
  rw [bind_of_ok (accept_of_eq isWord is), if_pos rfl]

/-- Where the token is not there, the second branch is taken. -/
theorem accept_else {p q : Parser α} (word : Kind) (isWord : word.isWord = true)
    (other : ∀ t ∈ ts.head?, t.kind ≠ word) :
    (accept word >>= fun found => if found then p else q) (before ts last n)
      = q (before ts last n) := by
  rw [bind_of_ok (accept_of_ne word isWord other), if_neg Bool.false_ne_true]

theorem accept?_of_eq (isWord : word.isWord = true) (is : t.kind = word) :
    accept? word (before (t :: ts) last n) = .ok (some t) (before ts last n) := by
  unfold accept?
  rw [isAt_of_eq isWord is, if_pos rfl, moved_of_eq isWord is]
  rfl

theorem accept?_of_ne (word : Kind) (isWord : word.isWord = true)
    (other : ∀ t ∈ ts.head?, t.kind ≠ word) :
    accept? word (before ts last n) = .ok none (before ts last n) := by
  unfold accept?
  rw [isAt_of_ne isWord other, if_neg Bool.false_ne_true]

theorem expect_of_eq (isWord : word.isWord = true) (is : t.kind = word) (what : String) :
    expect word what (before (t :: ts) last n) = .ok t (before ts last n) := by
  unfold expect
  rw [isAt_of_eq isWord is, if_pos rfl, moved_of_eq isWord is]
  rfl

theorem isAt_here (isWord : word.isWord = true) (is : t.kind = word) :
    isAt word (before (t :: ts) last n) = .ok true (before (t :: ts) last n) :=
  congrArg (EStateM.Result.ok · _) (isAt_of_eq isWord is)

theorem isAt_elsewhere (word : Kind) (isWord : word.isWord = true)
    (other : ∀ t ∈ ts.head?, t.kind ≠ word) :
    isAt word (before ts last n) = .ok false (before ts last n) :=
  congrArg (EStateM.Result.ok · _) (isAt_of_ne isWord other)

theorem atEnd_within (unended : t.kind.agrees .eof = false) :
    atEnd (before (t :: ts) last n) = .ok false (before (t :: ts) last n) :=
  congrArg (EStateM.Result.ok · _) (atEnd_before_cons.trans unended)

theorem name_of_eq (is : t.kind = .identifier) (what : String) :
    name what (before (t :: ts) last n) = .ok ⟨t.lexeme, t.line⟩ (before ts last n) :=
  bind_of_ok (expect_of_eq rfl is what)

theorem acceptAs?_of_some {reading : Kind → Option γ} {a : γ}
    (unended : t.kind.agrees .eof = false) (means : reading t.kind = some a) :
    acceptAs? reading (before (t :: ts) last n) = .ok (some (a, t.line)) (before ts last n) := by
  unfold acceptAs?
  rw [atEnd_before_cons, unended, if_neg Bool.false_ne_true, moved_before unended]
  dsimp only [before]
  rw [means]

theorem acceptAs?_of_none {reading : Kind → Option γ}
    (other : ∀ t ∈ ts.head?, reading t.kind = none) :
    acceptAs? reading (before ts last n) = .ok none (before ts last n) := by
  unfold acceptAs?
  cases ts with
  | nil => rw [atEnd_before_nil, if_pos rfl]
  | cons t ts =>
    have none : reading (before (t :: ts) last n).current.kind = none := other t rfl
    rw [none, ite_self]

theorem freshId_before :
    freshId (before ts last n) = .ok (n % idCount) (before ts last (n + 1)) := by
  cases ts <;> rfl

end

/-! ## Statements

Which statement is read depends on its first token, but for statements that begin with an
expression. -/

section

variable {decl stmt : Parser Stmt} {b : Nat}

theorem statementOf_for (begins : t.kind = .keyword .for) :
    statementOf decl stmt b (before (t :: ts) last n)
      = forStatement (expression b) stmt (before ts last n) := by
  rw [statementOf, bind_of_ok (rfl : peek _ = .ok t _), accept_then rfl begins]

theorem statementOf_if (begins : t.kind = .keyword .if) :
    statementOf decl stmt b (before (t :: ts) last n)
      = ifStatement (expression b) stmt (before ts last n) := by
  rw [statementOf, bind_of_ok (rfl : peek _ = .ok t _),
    accept_else (.keyword .for) rfl (head_ne begins rfl), accept_then rfl begins]

theorem statementOf_while (begins : t.kind = .keyword .while) :
    statementOf decl stmt b (before (t :: ts) last n)
      = whileStatement (expression b) stmt (before ts last n) := by
  rw [statementOf, bind_of_ok (rfl : peek _ = .ok t _),
    accept_else (.keyword .for) rfl (head_ne begins rfl),
    accept_else (.keyword .if) rfl (head_ne begins rfl), accept_then rfl begins]

theorem statementOf_return (begins : t.kind = .keyword .return) :
    statementOf decl stmt b (before (t :: ts) last n)
      = returnStatement (expression b) t.line (before ts last n) := by
  rw [statementOf, bind_of_ok (rfl : peek _ = .ok t _),
    accept_else (.keyword .for) rfl (head_ne begins rfl),
    accept_else (.keyword .if) rfl (head_ne begins rfl),
    accept_else (.keyword .while) rfl (head_ne begins rfl), accept_then rfl begins]

theorem statementOf_block (begins : t.kind = .punctuation .leftBrace) :
    statementOf decl stmt b (before (t :: ts) last n)
      = (do return Stmt.block (← block decl b)) (before ts last n) := by
  rw [statementOf, bind_of_ok (rfl : peek _ = .ok t _),
    accept_else (.keyword .for) rfl (head_ne begins rfl),
    accept_else (.keyword .if) rfl (head_ne begins rfl),
    accept_else (.keyword .while) rfl (head_ne begins rfl),
    accept_else (.keyword .return) rfl (head_ne begins rfl), accept_then rfl begins]

theorem statementOf_print (begins : t.kind = .keyword .print) :
    statementOf decl stmt b (before (t :: ts) last n)
      = printStatement (expression b) (before ts last n) := by
  rw [statementOf, bind_of_ok (rfl : peek _ = .ok t _),
    accept_else (.keyword .for) rfl (head_ne begins rfl),
    accept_else (.keyword .if) rfl (head_ne begins rfl),
    accept_else (.keyword .while) rfl (head_ne begins rfl),
    accept_else (.keyword .return) rfl (head_ne begins rfl),
    accept_else (.punctuation .leftBrace) rfl (head_ne begins rfl), accept_then rfl begins]

end

/-! ## Primary expressions

What a primary expression is depends on its first token. -/

/-- Whether a token is the first of a primary expression. -/
def beginsPrimary : Kind → Bool
  | .number _ | .string _ | .identifier | .punctuation .leftParen => true
  | .keyword .false | .keyword .true | .keyword .nil | .keyword .this | .keyword .super => true
  | _ => false

/-- A primary expression behind its first token. -/
def primaryAfter (expr : Parser Expr) (t : Token) : Parser Expr :=
  match t.kind with
  | .number value => return .literal (.number value)
  | .string value => return .literal (.string value)
  | .keyword .false => return .literal (.bool false)
  | .keyword .true => return .literal (.bool true)
  | .keyword .nil => return .literal .nil
  | .keyword .this => return .this (← freshId) t.line
  | .keyword .super => do
    let _ ← expect (.punctuation .dot) "'.' after 'super'"
    let method ← name "superclass method name"
    return .super (← freshId) t.line method
  | .identifier => return .variable (← freshId) ⟨t.lexeme, t.line⟩
  | .punctuation .leftParen => do
    let inner ← expr
    let _ ← expect (.punctuation .rightParen) "')' after expression"
    return .grouping inner
  | _ => fail (.expected "expression")

variable {expr : Parser Expr}

theorem primary_of_begins {c : Cursor} (begins : beginsPrimary c.current.kind = true)
    (within : c.atEnd = false) : primary expr c = primaryAfter expr c.current c.moved := by
  have behind {p : Parser Expr} :
      (do if ← atEnd then fail (.expected "expression") else advance; p) c = p c.moved := by
    rw [bind_of_ok (rfl : atEnd c = .ok c.atEnd c), within, if_neg Bool.false_ne_true]
    rfl
  unfold primary primaryAfter
  rw [bind_of_ok (rfl : peek c = .ok c.current c)]
  revert begins
  cases c.current.kind with
  | number | string => exact fun _ => rfl
  | identifier => exact fun _ => behind
  | eof => exact nofun
  | keyword word =>
    cases word with
    | false | true | nil | this | super => exact fun _ => behind
    | and | «class» | «else» | «fun» | «for» | «if» | or | print | «return» | var | «while» =>
      exact nofun
  | punctuation mark =>
    cases mark with
    | leftParen => exact fun _ => behind
    | rightParen | leftBrace | rightBrace | comma | dot | minus | plus | semicolon | slash | star
    | bang | bangEqual | equal | equalEqual | greater | greaterEqual | less | lessEqual =>
      exact nofun

/-- No other token is the first of a primary expression. -/
theorem primary_of_other {c : Cursor} (other : beginsPrimary c.current.kind = false) :
    primary expr c = fail (.expected "expression") c := by
  have refuses : (atEnd >>= fun ended => if ended then fail (.expected "expression")
      else fail (.expected "expression") : Parser Expr) c = fail (.expected "expression") c := by
    rw [bind_of_ok (rfl : atEnd c = .ok c.atEnd c), ite_self]
  unfold primary
  rw [bind_of_ok (rfl : peek c = .ok c.current c)]
  revert other
  cases c.current.kind with
  | number | string | identifier => exact nofun
  | eof => exact fun _ => refuses
  | keyword word =>
    cases word with
    | false | true | nil | this | super => exact nofun
    | and | «class» | «else» | «fun» | «for» | «if» | or | print | «return» | var | «while» =>
      exact fun _ => refuses
  | punctuation mark =>
    cases mark with
    | leftParen => exact nofun
    | rightParen | leftBrace | rightBrace | comma | dot | minus | plus | semicolon | slash | star
    | bang | bangEqual | equal | equalEqual | greater | greaterEqual | less | lessEqual =>
      exact fun _ => refuses

/-- Before tokens with the first of a primary expression, what is behind it is read. -/
theorem primary_before (begins : beginsPrimary t.kind = true) :
    primary expr (before (t :: ts) last n) = primaryAfter expr t (before ts last n) := by
  have unended : t.kind.agrees .eof = false := by
    cases kind : t.kind with
    | eof =>
      rw [kind] at begins
      cases begins
    | punctuation | keyword | identifier | string | number => rfl
  exact (primary_of_begins (c := before (t :: ts) last n) begins
    (atEnd_before_cons.trans unended)).trans (congrArg _ (moved_before unended))

/-! ## Lists

Arguments and parameters are read by the same loop. -/

/-- The rest of a list of items with commas between them, after the items `read` (the latest
first), up to the most that a list may hold. -/
def itemsAfter (many : SyntaxError.Cause) (item : Parser α) : Nat → List α → Parser (List α)
  | 0, read => return read.reverse
  | n + 1, read => do
    if maxArity ≤ read.length then
      fail many
    else
      let a ← item
      if ← accept (.punctuation .comma) then
        itemsAfter many item n (a :: read)
      else
        return (a :: read).reverse

theorem argumentsAfter_eq (expr : Parser Expr) (n : Nat) (read : List Expr) :
    argumentsAfter expr n read = itemsAfter .tooManyArguments expr n read := by
  induction n generalizing read with
  | zero => rfl
  | succ n ih =>
    unfold argumentsAfter itemsAfter
    simp only [ih]

theorem parametersAfter_eq (n : Nat) (read : List Name) :
    parametersAfter n read = itemsAfter .tooManyParameters (name "parameter name") n read := by
  induction n generalizing read with
  | zero => rfl
  | succ n ih =>
    unfold parametersAfter itemsAfter
    simp only [ih]

/-! ## Soundness -/

/-- What is read from the tokens `ts`, counting ids from `n`, fulfils a condition on the tokens that
were read, the result and the counter after them. -/
def Derives (last : Token) (ts : List Token) (n : Nat) (p : Parser α)
    (S : List Token → α → Nat → Prop) : Prop :=
  ∀ a c, p (before ts last n) = .ok a c →
    ∃ us ts' m, ts = us ++ ts' ∧ c = before ts' last m ∧ S us a m

/-- What is read is derived by the rule, if there are no more tokens than `bound`. -/
def Sound (last : Token) (bound : Nat) (p : Parser α) (rule : Rule α) : Prop :=
  ∀ ts n, ts.length ≤ bound → Derives last ts n p (rule · n · ·)

variable {p : Parser α} {f : α → Parser β} {R S : List Token → α → Nat → Prop}
  {T : List Token → β → Nat → Prop}

theorem Sound.mono {bound bound' : Nat} {rule : Rule α} (sound : Sound last bound p rule)
    (le : bound' ≤ bound) : Sound last bound' p rule :=
  fun ts n few => sound ts n (Nat.le_trans few le)

theorem Derives.bind (first : Derives last ts n p R)
    (second : ∀ us ts' a m, ts = us ++ ts' → ts'.length ≤ ts.length → R us a m →
      Derives last ts' m (f a) fun vs => T (us ++ vs)) :
    Derives last ts n (p >>= f) T := by
  intro b c ok
  obtain ⟨a, c₁, okFirst, okSecond⟩ := bind_ok ok
  obtain ⟨us, ts₁, m, split, rfl, derived⟩ := first a c₁ okFirst
  have le : ts₁.length ≤ ts.length := by
    rw [split, List.length_append]
    omega
  obtain ⟨vs, ts₂, k, split', place, derived'⟩ := second us ts₁ a m split le derived b c okSecond
  refine ⟨us ++ vs, ts₂, k, ?_, place, derived'⟩
  rw [split, split', List.append_assoc]

theorem derives_pure {a : α} (derived : S [] a n) : Derives last ts n (pure a) S := by
  intro b c ok
  cases ok
  exact ⟨[], ts, n, rfl, rfl, derived⟩

/-- What a rule reads last is returned in a tree. -/
theorem Derives.returning {g : α → β} (first : Derives last ts n p R)
    (second : ∀ us a m, R us a m → T us (g a) m) :
    Derives last ts n (p >>= fun a => pure (g a)) T := by
  refine first.bind fun us ts' a m _ _ derived => derives_pure ?_
  rw [List.append_nil]
  exact second us a m derived

theorem Derives.mono (derives : Derives last ts n p R) (imp : ∀ us a m, R us a m → S us a m) :
    Derives last ts n p S := by
  intro a c ok
  obtain ⟨us, ts', m, split, place, derived⟩ := derives a c ok
  exact ⟨us, ts', m, split, place, imp us a m derived⟩

theorem derives_fail (cause : SyntaxError.Cause) : Derives last ts n (fail cause) S := nofun

theorem derives_throw (e : SyntaxError) : Derives last ts n (throw e : Parser α) S := nofun

/-- A token that must follow is followed by the rest of the rule. -/
theorem Derives.expect {g : Token → Parser β} {what : String} (isWord : word.isWord = true)
    (second : ∀ t ts', ts = t :: ts' → t.kind = word →
      Derives last ts' n (g t) fun us => T (t :: us)) :
    Derives last ts n (Parser.expect word what >>= g) T := by
  intro b c ok
  obtain ⟨t, c₁, found, ok⟩ := bind_ok ok
  unfold Parser.expect at found
  split at found
  · next here =>
    obtain ⟨t, ts', rfl, is⟩ := exists_cons_of_isAt isWord here
    rw [moved_of_eq isWord is] at found
    cases found
    obtain ⟨us, ts₁, m, rfl, place, derived⟩ := second t ts' rfl is b c ok
    exact ⟨t :: us, ts₁, m, rfl, place, derived⟩
  · cases found

theorem Derives.name {g : Name → Parser β} {what : String}
    (second : ∀ t ts', ts = t :: ts' → t.kind = .identifier →
      Derives last ts' n (g ⟨t.lexeme, t.line⟩) fun us => T (t :: us)) :
    Derives last ts n (Parser.name what >>= g) T := by
  have named : Derives last ts n (Parser.name what)
      fun us name m => ∃ t, us = [t] ∧ t.kind = .identifier ∧ name = ⟨t.lexeme, t.line⟩ ∧ m = n :=
    .expect rfl fun t ts' _ is => derives_pure ⟨t, rfl, is, rfl, rfl⟩
  refine named.bind ?_
  rintro _ ts' _ _ split - ⟨t, rfl, is, rfl, rfl⟩
  exact second t ts' split is

/-- A token that may follow is there or is not. -/
theorem Derives.accept {g : Bool → Parser β} (isWord : word.isWord = true)
    (here : ∀ t ts', ts = t :: ts' → t.kind = word →
      Derives last ts' n (g true) fun us => T (t :: us))
    (elsewhere : Derives last ts n (g false) T) :
    Derives last ts n (Parser.accept word >>= g) T := by
  intro b c ok
  obtain ⟨found, c₁, accepted, ok⟩ := bind_ok ok
  unfold Parser.accept at accepted
  split at accepted
  · next found =>
    obtain ⟨t, ts', rfl, is⟩ := exists_cons_of_isAt isWord found
    rw [moved_of_eq isWord is] at accepted
    cases accepted
    obtain ⟨us, ts₁, m, rfl, place, derived⟩ := here t ts' rfl is b c ok
    exact ⟨t :: us, ts₁, m, rfl, place, derived⟩
  · cases accepted
    exact elsewhere b c ok

theorem Derives.accept? {g : Option Token → Parser β} (isWord : word.isWord = true)
    (here : ∀ t ts', ts = t :: ts' → t.kind = word →
      Derives last ts' n (g (some t)) fun us => T (t :: us))
    (elsewhere : Derives last ts n (g none) T) :
    Derives last ts n (Parser.accept? word >>= g) T := by
  intro b c ok
  obtain ⟨found, c₁, accepted, ok⟩ := bind_ok ok
  unfold Parser.accept? at accepted
  split at accepted
  · next found =>
    obtain ⟨t, ts', rfl, is⟩ := exists_cons_of_isAt isWord found
    rw [moved_of_eq isWord is] at accepted
    cases accepted
    obtain ⟨us, ts₁, m, rfl, place, derived⟩ := here t ts' rfl is b c ok
    exact ⟨t :: us, ts₁, m, rfl, place, derived⟩
  · cases accepted
    exact elsewhere b c ok

theorem Derives.acceptAs? {reading : Kind → Option γ} {g : Option (γ × Nat) → Parser β}
    (here : ∀ t ts' a, ts = t :: ts' → reading t.kind = some a →
      Derives last ts' n (g (some (a, t.line))) fun us => T (t :: us))
    (elsewhere : Derives last ts n (g none) T) :
    Derives last ts n (Parser.acceptAs? reading >>= g) T := by
  intro b c ok
  obtain ⟨found, c₁, accepted, ok⟩ := bind_ok ok
  unfold Parser.acceptAs? at accepted
  split at accepted
  · next a means =>
    cases ts with
    | nil =>
      rw [atEnd_before_nil, if_pos rfl] at means
      cases means
    | cons t ts' =>
      rw [atEnd_before_cons] at means
      split at means
      · cases means
      · next unended =>
        rw [moved_before (Bool.eq_false_iff.mpr unended)] at accepted
        cases accepted
        obtain ⟨us, ts₁, m, rfl, place, derived⟩ := here t ts' a rfl means b c ok
        exact ⟨t :: us, ts₁, m, rfl, place, derived⟩
  · cases accepted
    exact elsewhere b c ok

/-- Behind a token there is one token less. -/
theorem length_of_cons {t : Token} {ts' : List Token} (split : ts = t :: ts')
    (few : ts.length ≤ n + 1) : ts'.length ≤ n := by
  rw [split, List.length_cons] at few
  omega

/-- A look at the next token reads nothing. -/
theorem Derives.peek {g : Token → Parser β}
    (second : Derives last ts n (g (before ts last n).current) T) :
    Derives last ts n (Parser.peek >>= g) T :=
  second

theorem Derives.isAt {g : Bool → Parser β} (either : ∀ b, Derives last ts n (g b) T) :
    Derives last ts n (Parser.isAt word >>= g) T :=
  either _

theorem Derives.atEnd {g : Bool → Parser β} (either : ∀ b, Derives last ts n (g b) T) :
    Derives last ts n (Parser.atEnd >>= g) T :=
  either _

theorem Derives.freshId {g : NodeId → Parser β}
    (second : Derives last ts (n + 1) (g (n % idCount)) T) :
    Derives last ts n (Parser.freshId >>= g) T := by
  cases ts with
  | nil => exact second
  | cons t ts => exact second

/-! ## Completeness -/

/-- From tokens that are derived by the rule, of which there are no more than `bound`, the tree of
the derivation is read, where what follows fulfils a condition. -/
def Takes (last : Token) (bound : Nat) (follows : List Token → Prop) (p : Parser α)
    (rule : Rule α) : Prop :=
  ∀ us n a m, rule us n a m → us.length ≤ bound → ∀ ts, follows ts →
    p (before (us ++ ts) last n) = .ok a (before ts last m)

end Parser

end Lox
