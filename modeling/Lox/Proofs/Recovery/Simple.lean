import Lox.Proofs.Parser.Bounds

/-!
# Simple statements

A simple statement ends at its only semicolon, and holds no brace and behind its first token no
keyword that begins a statement. Read alone it is either complete or faulty. Where it is faulty, the
fault is found before the semicolon is passed: at the semicolon an expression ends, and what must
follow an expression is either the semicolon or missing. So the same fault is found whatever is
behind the statement. All tokens that are left of it are passed in looking for a boundary, which is
right behind the semicolon.
-/

set_option autoImplicit false

namespace Lox

/-- Whether a token neither ends anything nor is a brace. -/
def Kind.isPlain : Kind → Bool
  | .eof | .punctuation .semicolon | .punctuation .leftBrace | .punctuation .rightBrace => false
  | _ => true

theorem Kind.unended_of_isPlain {kind : Kind} (plain : kind.isPlain = true) :
    kind.agrees .eof = false := by
  cases kind with
  | eof => cases plain
  | punctuation | keyword | identifier | string | number => rfl

/-- Tokens that have the shape of a statement without a body in braces. -/
structure SimpleStatement where
  body : List Token
  closing : Token
  semicolon : closing.kind = .punctuation .semicolon
  plain : ∀ t ∈ body, t.kind.isPlain = true
  wordless : ∀ t ∈ body.tail, Cursor.beginsStatement t.kind = false
  not_for : ∀ t ∈ body.head?, t.kind ≠ .keyword .for

namespace SimpleStatement

/-- The tokens of the statement. -/
def tokens (M : SimpleStatement) : List Token :=
  M.body ++ [M.closing]

end SimpleStatement

/-- Whether a token can stand behind the first one of a simple statement, before its semicolon. -/
def Token.Inner (t : Token) : Prop :=
  t.kind.isPlain = true ∧ Cursor.beginsStatement t.kind = false

theorem Token.Inner.ne {t : Token} (inner : t.Inner) {word : Kind}
    (other : (word.isPlain && !Cursor.beginsStatement word) = false) : t.kind ≠ word := by
  rintro rfl
  rw [inner.1, inner.2] at other
  cases other

/-- A token inside is not taken for what cannot stand there. -/
theorem Token.Inner.disagrees {t : Token} (inner : t.Inner) {word : Kind}
    (isWord : word.isWord = true)
    (other : (word.isPlain && !Cursor.beginsStatement word) = false) :
    t.kind.agrees word = false :=
  Bool.eq_false_iff.mpr fun agrees => inner.ne other ((Kind.agrees_iff isWord _).mp agrees)

theorem Token.Inner.unended {t : Token} (inner : t.Inner) : t.kind.agrees .eof = false :=
  Kind.unended_of_isPlain inner.1

/-- A statement that is read alone, and with others behind it. -/
structure Horizon.Simple (h : Horizon) : Prop where
  inner : ∀ t, h.inside t → t.Inner
  semicolon : h.halt.kind = .punctuation .semicolon
  alone : ∃ last, h.behind = [last]

namespace Cursor

variable {h : Horizon} {k : Nat} {c c' : Cursor}

/-- At the semicolon of a simple statement. -/
theorem Abreast.isAt_semicolon (simple : h.Simple) (abreast : Abreast h 0 c c') :
    c.isAt (.punctuation .semicolon) = true := by
  obtain ⟨us, none, -, here, -⟩ := abreast.ahead
  obtain rfl : us = [] := List.length_eq_zero_iff.mp none
  obtain ⟨current, rest⟩ := List.cons.inj here
  obtain ⟨last, alone⟩ := simple.alone
  unfold Cursor.isAt Cursor.atEnd
  rw [current, rest, alone, simple.semicolon]
  rfl

/-- Behind the semicolon of a simple statement which is read alone. -/
theorem Abreast.atEnd_moved (simple : h.Simple) (abreast : Abreast h 0 c c') :
    c.moved.atEnd = true := by
  obtain ⟨us, none, -, here, -⟩ := abreast.ahead
  obtain rfl : us = [] := List.length_eq_zero_iff.mp none
  obtain ⟨current, rest⟩ := List.cons.inj here
  obtain ⟨last, alone⟩ := simple.alone
  have unended : c.current.kind.agrees .eof = false := by
    rw [current, simple.semicolon]
    rfl
  unfold Cursor.moved
  rw [unended, if_neg Bool.false_ne_true, rest, alone]
  exact Bool.or_true _

/-- A kind that no token of a simple statement is of. -/
theorem Abreast.isAt_other (simple : h.Simple) (abreast : Abreast h k c c') {word : Kind}
    (isWord : word.isWord = true) (other : (word.isPlain && !beginsStatement word) = false)
    (mark : Kind.agrees (.punctuation .semicolon) word = false) : c.isAt word = false := by
  have elsewhere : c.current.kind.agrees word = false := by
    rcases abreast.current_cases with ⟨-, halted⟩ | ⟨-, inside, -⟩
    · rw [halted, simple.semicolon, mark]
    · exact (simple.inner _ inside).disagrees isWord other
  unfold Cursor.isAt
  rw [elsewhere, Bool.and_false]

/-! ## The boundary behind a simple statement -/

theorem resume_semicolon {z : Token} (semicolon : z.kind = .punctuation .semicolon)
    (current : Token) (rest : List Token) : resume z current rest = (current, rest) := by
  cases rest with
  | nil => rfl
  | cons next rest =>
    have agrees : z.kind.agrees (.punctuation .semicolon) = true := by
      rw [semicolon]
      rfl
    rw [resume, agrees, Bool.or_true, Bool.true_or, if_pos rfl]

/-- No token of a simple statement before its semicolon is a boundary. -/
theorem resume_inner {us : List Token} (inner : ∀ t ∈ us, t.Inner) {z : Token}
    (semicolon : z.kind = .punctuation .semicolon) {previous current next : Token}
    {rest later : List Token} (within : previous.Inner)
    (here : current :: rest = us ++ z :: next :: later) :
    resume previous current rest = (next, later) := by
  have unpassed : previous.kind.agrees (.punctuation .semicolon) = false := within.disagrees rfl rfl
  induction us generalizing previous current rest with
  | nil =>
    obtain ⟨rfl, rfl⟩ := List.cons.inj here
    rw [resume, unpassed, semicolon]
    exact resume_semicolon semicolon next later
  | cons u us ih =>
    obtain ⟨rfl, ahead⟩ := List.cons.inj here
    have first := inner current List.mem_cons_self
    cases rest with
    | nil => exact absurd ahead.symm (List.append_ne_nil_of_right_ne_nil us (List.cons_ne_nil _ _))
    | cons x xs =>
      rw [resume, unpassed, first.unended, first.2]
      exact ih (fun t member => inner t (List.mem_cons_of_mem _ member)) first ahead
        (first.disagrees rfl rfl)

/-- After a fault in a simple statement parsing goes on behind its semicolon. -/
theorem synchronized_inner {us : List Token} (inner : ∀ t ∈ us, t.Inner) {z : Token}
    (semicolon : z.kind = .punctuation .semicolon) {next : Token} {later : List Token}
    (here : c.current :: c.rest = us ++ z :: next :: later) :
    c.synchronized = ⟨next, later, c.nextId⟩ := by
  obtain ⟨current, rest, nextId⟩ := c
  unfold synchronized moved atEnd
  dsimp only at here ⊢
  cases us with
  | nil =>
    obtain ⟨rfl, rfl⟩ := List.cons.inj here
    have unended : current.kind.agrees .eof = false := by
      rw [semicolon]
      rfl
    rw [unended, Bool.false_or, List.isEmpty_cons, if_neg Bool.false_ne_true,
      if_neg Bool.false_ne_true]
    dsimp only
    rw [resume_semicolon semicolon]
  | cons u us =>
    obtain ⟨rfl, ahead⟩ := List.cons.inj here
    have first := inner current List.mem_cons_self
    cases rest with
    | nil => exact absurd ahead.symm (List.append_ne_nil_of_right_ne_nil us (List.cons_ne_nil _ _))
    | cons x xs =>
      rw [first.unended, Bool.false_or, List.isEmpty_cons, if_neg Bool.false_ne_true,
        if_neg Bool.false_ne_true]
      dsimp only
      rw [resume_inner (fun t member => inner t (List.mem_cons_of_mem _ member)) semicolon first
        ahead]

end Cursor

namespace Parser

open Cursor

variable {α β : Type} {h : Horizon} {i m n n' : Nat} {p p' : Parser α} {f f' : α → Parser β}

/-! ## Reading a simple statement -/

/-- The endings of two runs, of which the first reads a statement alone: it is complete, or both
have the same fault inside the statement. -/
inductive Settled (h : Horizon) : EStateM.Result SyntaxError Cursor α →
    EStateM.Result SyntaxError Cursor α → Prop
  | complete {a : α} {d : Cursor} {r' : EStateM.Result SyntaxError Cursor α}
      (ended : d.atEnd = true) : Settled h (.ok a d) r'
  | refused {e : SyntaxError} {d d' : Cursor} {k : Nat} (abreast : d.Abreast h k d') :
      Settled h (.error e d) (.error e d')

/-- From cursors abreast in a statement the first rule reads the statement to its end, or both have
the same fault. -/
def Settles (h : Horizon) (m : Nat) (p p' : Parser α) : Prop :=
  ∀ k c c', k ≤ m → c.Abreast h k c' → Settled h (p c) (p' c')

theorem Agrees.settles (first : Agrees h i m p p') (second : ∀ a, Settles h m (f a) (f' a)) :
    Settles h m (p >>= f) (p' >>= f') := by
  intro k c c' few abreast
  have here := first k c c' few abreast
  rw [bind_eq, bind_eq]
  generalize p c = r, p' c' = r' at here
  cases here with
  | ok passed abreast' => exact second _ _ _ _ (by omega) abreast'
  | error le abreast' => exact .refused abreast'

/-- Behind a statement that is complete a rule may look for more. -/
theorem Settles.bind (first : Settles h m p p')
    (second : ∀ a d, d.atEnd = true → ∃ b d', f a d = .ok b d' ∧ d'.atEnd = true) :
    Settles h m (p >>= f) (p' >>= f') := by
  intro k c c' few abreast
  have here := first k c c' few abreast
  rw [bind_eq, bind_eq]
  generalize p c = r, p' c' = r' at here
  cases here with
  | complete ended =>
    obtain ⟨b, d', more, ended'⟩ := second _ _ ended
    dsimp only
    rw [more]
    exact .complete ended'
  | refused abreast' => exact .refused abreast'

section

variable (simple : h.Simple)

include simple

/-- The semicolon completes a statement. -/
theorem settles_semicolon (what : String) (a : α) :
    Settles h m (do let _ ← expect (.punctuation .semicolon) what; return a)
      (do let _ ← expect (.punctuation .semicolon) what; return a) := by
  intro k c c' few abreast
  rw [bind_eq, bind_eq]
  unfold expect
  rw [abreast.isAt]
  cases k with
  | zero =>
    rw [abreast.isAt_semicolon simple, if_pos rfl]
    exact .complete (abreast.atEnd_moved simple)
  | succ k =>
    have elsewhere : c.isAt (.punctuation .semicolon) = false := by
      rcases abreast.current_cases with ⟨none, -⟩ | ⟨-, inside, -⟩
      · cases none
      · unfold Cursor.isAt
        rw [(simple.inner _ inside).disagrees rfl rfl, Bool.and_false]
    rw [elsewhere, if_neg Bool.false_ne_true, if_neg Bool.false_ne_true, abreast.current]
    exact .refused abreast

/-- A brace is missing. -/
theorem settles_brace (what : String) {f f' : Token → Parser β} :
    Settles h m (expect (.punctuation .leftBrace) what >>= f)
      (expect (.punctuation .leftBrace) what >>= f') := by
  intro k c c' few abreast
  rw [bind_eq, bind_eq]
  unfold expect
  rw [abreast.isAt, abreast.isAt_other simple rfl rfl rfl, if_neg Bool.false_ne_true,
    if_neg Bool.false_ne_true, abreast.current]
  exact .refused abreast

/-- A keyword that begins a statement, or a brace, is not there. -/
theorem Settles.accept {word : Kind} {f f' : Bool → Parser β} (isWord : word.isWord = true)
    (other : (word.isPlain && !beginsStatement word) = false)
    (mark : Kind.agrees (.punctuation .semicolon) word = false)
    (no : Settles h m (f false) (f' false)) :
    Settles h m (accept word >>= f) (Parser.accept word >>= f') := by
  intro k c c' few abreast
  rw [bind_eq, bind_eq]
  unfold Parser.accept
  rw [abreast.isAt, abreast.isAt_other simple isWord other mark]
  exact no k c c' few abreast

variable {expr expr' : Parser Expr} {decl decl' stmt stmt' : Parser Stmt}

theorem settles_expressionStatement (inner : Agrees h 1 m expr expr') :
    Settles h m (expressionStatement expr) (expressionStatement expr') :=
  inner.settles fun _ => settles_semicolon simple _ _

theorem settles_printStatement (inner : Agrees h 1 m expr expr') :
    Settles h m (printStatement expr) (printStatement expr') :=
  inner.settles fun _ => settles_semicolon simple _ _

theorem settles_varDeclaration (inner : Agrees h 1 m expr expr') :
    Settles h m (varDeclaration expr) (varDeclaration expr') :=
  (agrees_name _).settles fun _ =>
    (agrees_initializer? inner).settles fun _ => settles_semicolon simple _ _

theorem settles_returnStatement (inner : Agrees h 1 m expr expr') (line : Nat) :
    Settles h m (returnStatement expr line) (returnStatement expr' line) :=
  (agrees_optional _ inner).settles fun _ => settles_semicolon simple _ _

omit simple in
theorem settles_ifStatement (inner : Agrees h 1 m expr expr') (branch : Settles h m stmt stmt') :
    Settles h m (ifStatement expr stmt) (ifStatement expr' stmt') := by
  refine (agrees_expect (h.bars rfl) _).settles fun _ => inner.settles fun condition => ?_
  refine (agrees_expect (h.bars rfl) _).settles fun _ => branch.bind fun thenBranch d ended => ?_
  -- Alone the statement has nothing behind it, and so no `else`.
  have elsewhere : d.isAt (.keyword .else) = false := by
    unfold Cursor.isAt
    rw [ended]
    rfl
  refine ⟨.if condition thenBranch none, d, ?_, ended⟩
  rw [bind_eq]
  unfold accept
  rw [elsewhere]
  rfl

omit simple in
theorem settles_whileStatement (inner : Agrees h 1 m expr expr')
    (branch : Settles h m stmt stmt') :
    Settles h m (whileStatement expr stmt) (whileStatement expr' stmt') := by
  refine (agrees_expect (h.bars rfl) _).settles fun _ => inner.settles fun condition => ?_
  refine (agrees_expect (h.bars rfl) _).settles fun _ => branch.bind fun body d ended => ?_
  exact ⟨_, d, rfl, ended⟩

theorem settles_function (few : m < n) (few' : m < n') (what : String) :
    Settles h m (function decl n what) (function decl' n' what) := by
  refine (agrees_name _).settles fun _ => (agrees_expect (h.bars rfl) _).settles fun _ => ?_
  refine (agrees_parameters few few').settles fun _ => ?_
  exact (agrees_expect (h.bars rfl) _).settles fun _ => settles_brace simple _

theorem settles_classDeclaration :
    Settles h m (classDeclaration decl n) (classDeclaration decl' n') :=
  (agrees_name _).settles fun _ => agrees_superclass?.settles fun _ => settles_brace simple _

/-- Inside a simple statement there are only expressions. -/
theorem settles_statementOf (few : m ≤ n) (few' : m ≤ n') :
    Settles h m (statementOf decl stmt n) (statementOf decl' stmt' n') := by
  refine agrees_peek.settles fun token => ?_
  refine .accept simple rfl rfl rfl (.accept simple rfl rfl rfl (.accept simple rfl rfl rfl ?_))
  refine .accept simple rfl rfl rfl (.accept simple rfl rfl rfl (.accept simple rfl rfl rfl ?_))
  exact settles_expressionStatement simple (agrees_expression (by omega) (by omega))

theorem settles_statement (few : m < n) (few' : m < n') :
    Settles h m (statement n) (statement n') := by
  obtain ⟨n, rfl⟩ := Nat.exists_eq_add_one.mpr (Nat.zero_lt_of_lt few)
  obtain ⟨n', rfl⟩ := Nat.exists_eq_add_one.mpr (Nat.zero_lt_of_lt few')
  exact settles_statementOf simple (by omega) (by omega)

theorem settles_unrecovered (few : m ≤ n) (few' : m ≤ n') :
    Settles h m (unrecovered decl stmt n) (unrecovered decl' stmt' n') := by
  refine .accept simple rfl rfl rfl (.accept simple rfl rfl rfl (.accept simple rfl rfl rfl ?_))
  exact settles_statementOf simple few few'

end

/-! ## From the first token on -/

/-- A declaration behind the keyword that begins it. -/
def declarationAfter (decl stmt : Parser Stmt) (n : Nat) (t : Token) : Parser Stmt :=
  match t.kind with
  | .keyword .class => classDeclaration decl n
  | .keyword .fun => return .function (← function decl n "function")
  | .keyword .var => varDeclaration (expression n)
  | .keyword .for => forStatement (expression n) stmt
  | .keyword .if => ifStatement (expression n) stmt
  | .keyword .while => whileStatement (expression n) stmt
  | .keyword .return => returnStatement (expression n) t.line
  | .keyword .print => printStatement (expression n)
  | _ => fail (.expected "expression")

/-- What begins with none of the keywords for declarations is read as a statement. -/
theorem unrecovered_of_statement {decl stmt : Parser Stmt} {last : Token} {ts : List Token}
    {id : Nat} (notClass : ∀ t ∈ ts.head?, t.kind ≠ .keyword .class)
    (notFun : ∀ t ∈ ts.head?, t.kind ≠ .keyword .fun)
    (notVar : ∀ t ∈ ts.head?, t.kind ≠ .keyword .var) :
    unrecovered decl stmt n (before ts last id) = statementOf decl stmt n (before ts last id) := by
  rw [unrecovered, accept_else (.keyword .class) rfl notClass,
    accept_else (.keyword .fun) rfl notFun, accept_else (.keyword .var) rfl notVar]

theorem unrecovered_before {decl stmt : Parser Stmt} {t last : Token} {ts : List Token} {id : Nat}
    (begins : beginsStatement t.kind = true) :
    unrecovered decl stmt n (before (t :: ts) last id)
      = declarationAfter decl stmt n t (before ts last id) := by
  unfold declarationAfter
  cases kind : t.kind with
  | punctuation | identifier | string | number | eof =>
    rw [kind] at begins
    cases begins
  | keyword word =>
    cases word with
    | and | «else» | false | nil | or | super | this | true =>
      rw [kind] at begins
      cases begins
    | «class» => rw [unrecovered, accept_then rfl kind]
    | «fun» =>
      rw [unrecovered, accept_else (.keyword .class) rfl (head_ne kind rfl), accept_then rfl kind]
    | var =>
      rw [unrecovered, accept_else (.keyword .class) rfl (head_ne kind rfl),
        accept_else (.keyword .fun) rfl (head_ne kind rfl), accept_then rfl kind]
    | «for» | «if» | «while» | «return» | print =>
      rw [unrecovered_of_statement (head_ne kind rfl) (head_ne kind rfl) (head_ne kind rfl)]
      first
        | exact statementOf_for kind
        | exact statementOf_if kind
        | exact statementOf_while kind
        | exact statementOf_return kind
        | exact statementOf_print kind

theorem settles_declarationAfter (simple : h.Simple) {t : Token}
    (not_for : t.kind ≠ .keyword .for) (few : m < n) (few' : m < n') :
    Settles h m (declarationAfter (declaration n) (statement n) n t)
      (declarationAfter (declaration n') (statement n') n' t) := by
  have ofExpr : Agrees h 1 m (expression n) (expression n') := agrees_expression few few'
  have ofStmt := settles_statement simple few few'
  have fails : Settles h m (fail (.expected "expression") : Parser Stmt)
      (fail (.expected "expression")) := by
    intro k c c' _ abreast
    unfold fail
    rw [abreast.current]
    exact .refused abreast
  unfold declarationAfter
  cases kind : t.kind with
  | punctuation | identifier | string | number | eof => exact fails
  | keyword word =>
    cases word with
    | and | «else» | false | nil | or | super | this | true => exact fails
    | «class» => exact settles_classDeclaration simple
    | «fun» => exact (settles_function simple few few' _).bind fun f d ended => ⟨_, d, rfl, ended⟩
    | var => exact settles_varDeclaration simple ofExpr
    | «for» => exact absurd kind not_for
    | «if» => exact settles_ifStatement ofExpr ofStmt
    | «while» => exact settles_whileStatement ofExpr ofStmt
    | «return» => exact settles_returnStatement simple ofExpr _
    | print => exact settles_printStatement simple ofExpr

end Parser

namespace SimpleStatement

open Cursor Lox.Parser

variable (M : SimpleStatement) {n n' : Nat} {last last' : Token} {ts : List Token} {id id' : Nat}
  (same : id' % idCount = id % idCount)

/-- The statement with the end of the input behind it, and with other tokens. -/
def horizon (last last' : Token) (ts : List Token) : Horizon where
  inside := Token.Inner
  halt := M.closing
  behind := [last]
  behind' := ts ++ [last']
  first := id
  first' := id'
  unended _ := Token.Inner.unended
  halts := .inr M.semicolon
  same := by
    rw [List.isEmpty_cons, List.isEmpty_eq_false_iff]
    exact List.append_ne_nil_of_right_ne_nil ts (List.cons_ne_nil _ _)
  numbered := same

theorem simple_horizon : (M.horizon same last last' ts).Simple :=
  ⟨fun _ inner => inner, M.semicolon, last, rfl⟩

theorem abreast_inner (us : List Token) (inner : ∀ t ∈ us, t.Inner) :
    (before (us ++ [M.closing]) last id).Abreast (M.horizon same last last' ts) us.length
      (before (us ++ M.closing :: ts) last' id') := by
  cases us with
  | nil => exact ⟨⟨[], rfl, nofun, rfl, rfl⟩, 0, rfl, rfl⟩
  | cons t us =>
    refine ⟨⟨t :: us, rfl, inner, ?_, ?_⟩, 0, rfl, rfl⟩
    · exact congrArg (t :: ·) (List.append_assoc us [M.closing] [last])
    · exact congrArg (t :: ·) (List.append_assoc us (M.closing :: ts) [last'])

/-- The statement is complete alone, or has the same fault whatever is behind it. -/
theorem settled (last last' : Token) (ts : List Token) (few : M.body.length ≤ n)
    (few' : M.body.length ≤ n') :
    Settled (M.horizon same last last' ts)
      (unrecovered (declaration n) (statement n) n (before M.tokens last id))
      (unrecovered (declaration n') (statement n') n' (before (M.tokens ++ ts) last' id')) := by
  obtain ⟨body, closing, semicolon, plain, wordless, not_for⟩ := M
  -- A keyword in front has to be passed before the tokens are those of the inside.
  let M : SimpleStatement := ⟨body, closing, semicolon, plain, wordless, not_for⟩
  show Settled (M.horizon same last last' ts)
    (unrecovered _ _ n (before (body ++ [closing]) last id))
    (unrecovered _ _ n' (before (body ++ [closing] ++ ts) last' id'))
  have simple : (M.horizon same last last' ts).Simple := M.simple_horizon same
  rw [List.append_assoc, List.singleton_append]
  cases body with
  | nil =>
    exact settles_unrecovered simple few few' _ _ _ (Nat.le_refl _)
      (M.abreast_inner same [] nofun)
  | cons t us =>
    have inner : ∀ u ∈ us, u.Inner := fun u member =>
      ⟨plain u (List.mem_cons_of_mem t member), wordless u member⟩
    cases begins : beginsStatement t.kind with
    | false =>
      have all : ∀ u ∈ t :: us, u.Inner := by
        intro u member
        rcases List.mem_cons.mp member with rfl | member
        · exact ⟨plain u List.mem_cons_self, begins⟩
        · exact inner u member
      exact settles_unrecovered simple few few' _ _ _ (Nat.le_refl _)
        (M.abreast_inner same _ all)
    | true =>
      rw [List.cons_append, List.cons_append, unrecovered_before begins,
        unrecovered_before begins]
      exact settles_declarationAfter simple (not_for t rfl) few few' _ _ _ (Nat.le_refl _)
        (M.abreast_inner same _ inner)

/-- What is at the end of a statement's faulty tokens. -/
theorem synchronized_abreast {k : Nat} {d d' : Cursor}
    (abreast : d.Abreast (M.horizon same last last' ts) k d') :
    d.synchronized = before [] last d.nextId ∧ d'.synchronized = before ts last' d'.nextId := by
  obtain ⟨us, -, inner, here, here'⟩ := abreast.ahead
  constructor
  · exact synchronized_inner inner M.semicolon here
  · cases ts with
    | nil => exact synchronized_inner inner M.semicolon here'
    | cons t ts => exact synchronized_inner inner M.semicolon here'

include same in
/-- **A simple statement among others.** Read alone the statement is complete, or it has the same
fault with any tokens behind it, has taken as many ids, and parsing goes on with these tokens. -/
theorem declaration_cases (last last' : Token) (ts : List Token) (few : M.body.length < n)
    (few' : M.body.length < n') :
    (∃ s d, declaration n (before M.tokens last id) = .ok s d ∧ d.atEnd = true) ∨
      ∃ e j, declaration n (before M.tokens last id) = .error e (before [] last (id + j)) ∧
        declaration n' (before (M.tokens ++ ts) last' id')
          = .error e (before ts last' (id' + j)) := by
  obtain ⟨n, rfl⟩ := Nat.exists_eq_add_one.mpr (Nat.zero_lt_of_lt few)
  obtain ⟨n', rfl⟩ := Nat.exists_eq_add_one.mpr (Nat.zero_lt_of_lt few')
  have settled := M.settled same last last' ts (Nat.le_of_lt_succ few) (Nat.le_of_lt_succ few')
  rw [declaration_eq, declaration_eq]
  unfold recovering
  generalize unrecovered (declaration n) (statement n) n (before M.tokens last id) = r,
    unrecovered (declaration n') (statement n') n' (before (M.tokens ++ ts) last' id') = r'
    at settled
  cases settled with
  | complete ended => exact .inl ⟨_, _, rfl, ended⟩
  | @refused e d d' _ abreast =>
    obtain ⟨here, here'⟩ := M.synchronized_abreast same abreast
    obtain ⟨j, taken, taken'⟩ := abreast.taken
    have taken : d.nextId = id + j := taken
    have taken' : d'.nextId = id' + j := taken'
    dsimp only
    rw [here, here', taken, taken']
    exact .inr ⟨e, j, rfl, rfl⟩

end SimpleStatement

end Lox
