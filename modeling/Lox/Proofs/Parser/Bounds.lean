import Lox.Proofs.Grammar.Acceptance
import Lox.Proofs.Parser.Abreast

/-!
# Bounds that are not reached

Statements halt at the end of the input only. So two cursors before the same tokens are abreast up
to the end, and a program is read the same with all bounds above the number of its tokens: the
bounds do nothing but let the rules be defined by recursion. For the same reason it does not matter
if the ids are counted on from a number or from its remainder.
-/

set_option autoImplicit false

namespace Lox

/-- Before the tokens of an input the cursor is not at its end. -/
theorem Tokens.within (tokens : Tokens) (pos : 0 < tokens.body.length) (id : Nat) :
    (Cursor.before tokens.body tokens.last id).atEnd = false := by
  obtain ⟨t, ts, some⟩ := List.exists_cons_of_length_pos pos
  rw [some, Cursor.atEnd_before_cons]
  exact tokens.unended t (some ▸ List.mem_cons_self)

namespace Cursor

variable {h : Horizon} {k : Nat} {c c' : Cursor}

theorem Abreast.ended (ended : h.halt.kind.agrees .eof = true) (abreast : Abreast h 0 c c') :
    c.atEnd = true := by
  rcases abreast.current_cases with ⟨-, halted⟩ | ⟨pos, -⟩
  · unfold Cursor.atEnd
    rw [halted, ended, Bool.true_or]
  · exact absurd pos (Nat.lt_irrefl 0)

/-- A boundary is looked for up to the end of the input. -/
theorem resume_abreast (ended : h.halt.kind.agrees .eof = true) {us : List Token}
    (inside : ∀ t ∈ us, h.inside t) (previous : Token) {current current' : Token}
    {rest rest' : List Token} (here : current :: rest = us ++ h.halt :: h.behind)
    (here' : current' :: rest' = us ++ h.halt :: h.behind') :
    ∃ vs, vs.length ≤ us.length ∧ (∀ t ∈ vs, h.inside t) ∧
      (resume previous current rest).1 :: (resume previous current rest).2
        = vs ++ h.halt :: h.behind ∧
      (resume previous current' rest').1 :: (resume previous current' rest').2
        = vs ++ h.halt :: h.behind' := by
  induction us generalizing previous current current' rest rest' with
  | nil =>
    have stays {previous : Token} {behind : List Token} :
        resume previous h.halt behind = (h.halt, behind) := by
      cases behind with
      | nil => rfl
      | cons next behind =>
        unfold resume
        rw [ended, Bool.true_or, Bool.true_or, if_pos rfl]
    obtain ⟨rfl, rfl⟩ := List.cons.inj here
    obtain ⟨rfl, rfl⟩ := List.cons.inj here'
    rw [stays, stays]
    exact ⟨[], Nat.le_refl 0, fun _ member => absurd member List.not_mem_nil, rfl, rfl⟩
  | cons u us ih =>
    rw [List.cons_append] at here here'
    obtain ⟨rfl, ahead⟩ := List.cons.inj here
    obtain ⟨rfl, ahead'⟩ := List.cons.inj here'
    -- Neither list runs out before the token at the horizon.
    cases rest with
    | nil => exact absurd ahead.symm (List.append_ne_nil_of_right_ne_nil us (List.cons_ne_nil _ _))
    | cons next rest =>
    cases rest' with
    | nil => exact absurd ahead'.symm (List.append_ne_nil_of_right_ne_nil us (List.cons_ne_nil _ _))
    | cons next' rest' =>
    unfold resume
    split
    · exact ⟨current' :: us, Nat.le_refl _, inside, here, here'⟩
    · obtain ⟨vs, le, within, stopped, stopped'⟩ :=
        ih (fun t member => inside t (List.mem_cons_of_mem _ member)) current' ahead ahead'
      exact ⟨vs, Nat.le_succ_of_le le, within, stopped, stopped'⟩

/-- Up to the end of the input two cursors go on at the same boundary, behind a token. -/
theorem Abreast.synchronized (ended : h.halt.kind.agrees .eof = true)
    (abreast : Abreast h k c c') :
    ∃ j, (j = 0 ∨ j < k) ∧ Abreast h j c.synchronized c'.synchronized := by
  unfold Cursor.synchronized
  rw [abreast.atEnd]
  rcases abreast.current_cases with ⟨rfl, -⟩ | ⟨pos, -, unended, -⟩
  · rw [abreast.ended ended, if_pos rfl, if_pos rfl]
    exact ⟨0, .inl rfl, abreast⟩
  · obtain ⟨k, rfl⟩ := Nat.exists_eq_add_one.mpr pos
    obtain ⟨us, length, inside, here, here'⟩ := abreast.moved.ahead
    obtain ⟨vs, le, within, stopped, stopped'⟩ :=
      resume_abreast ended inside c.current here here'
    rw [unended, if_neg Bool.false_ne_true, if_neg Bool.false_ne_true, abreast.current]
    exact ⟨vs.length, .inr (by omega), ⟨vs, rfl, within, stopped, stopped'⟩, abreast.taken⟩

end Cursor

namespace Parser

open Cursor

variable {α : Type} {h : Horizon} {m n n' : Nat}

/-! ## Parts of statements -/

section

variable {expr expr' : Parser Expr}

theorem agrees_parametersAfter (few : m < n) (few' : m < n') (read : List Name) :
    Agrees h 0 m (parametersAfter n read) (parametersAfter n' read) := by
  induction n generalizing n' m read with
  | zero => exact absurd few (Nat.not_lt_zero m)
  | succ n ih =>
    obtain ⟨n', rfl⟩ := Nat.exists_eq_add_one.mpr (Nat.zero_lt_of_lt few')
    unfold parametersAfter
    split
    · exact agrees_fail _
    · refine ((agrees_name _).then fun k lt param => ?_).weaken
      refine .accept (h.bars rfl) (Nat.zero_le 1) (fun k' lt' => ?_) (agrees_pure _)
      exact ih (by omega) (by omega) _

theorem agrees_parameters (few : m < n) (few' : m < n') :
    Agrees h 0 m (parameters n) (parameters n') := by
  unfold parameters
  refine (agrees_isAt _).bind fun none => ?_
  cases none with
  | true => exact agrees_pure _
  | false => exact agrees_parametersAfter few few' []

theorem agrees_superclass? : Agrees h 0 m superclass? superclass? := by
  unfold superclass?
  refine .accept (h.bars rfl) (Nat.zero_le 1) (fun k lt => ?_) (agrees_pure _)
  refine ((agrees_name _).then fun k' lt' name => ?_).weaken
  exact agrees_freshId.bind fun id => agrees_pure _

theorem agrees_initializer? (inner : Agrees h 1 m expr expr') :
    Agrees h 0 m (initializer? expr) (initializer? expr') := by
  unfold initializer?
  refine .accept (h.bars rfl) (Nat.zero_le 1) (fun k lt => ?_) (agrees_pure _)
  exact ((inner.mono (Nat.le_of_lt lt)).then fun k' lt' e => agrees_pure _).weaken

theorem agrees_optional (close : Punctuation) (inner : Agrees h 1 m expr expr') :
    Agrees h 0 m (optional close expr) (optional close expr') := by
  unfold optional
  refine (agrees_isAt _).bind fun none => ?_
  cases none with
  | true => exact agrees_pure _
  | false => exact (inner.then fun k lt e => agrees_pure _).weaken

end

/-! ## Statements

From here on the end of the input is the horizon. -/

section

variable {expr expr' : Parser Expr} {decl decl' stmt stmt' : Parser Stmt}
  (ended : h.halt.kind.agrees .eof = true)

include ended

theorem agrees_varDeclaration (inner : Agrees h 1 m expr expr') :
    Agrees h 1 m (varDeclaration expr) (varDeclaration expr') := by
  refine (agrees_name _).then fun k lt name => ?_
  refine (agrees_initializer? (inner.mono (Nat.le_of_lt lt))).bind fun value => ?_
  exact ((agrees_expect (.inl ended) _).then fun k' lt' close => agrees_pure _).weaken

theorem agrees_expressionStatement (inner : Agrees h 1 m expr expr') :
    Agrees h 1 m (expressionStatement expr) (expressionStatement expr') := by
  refine inner.then fun k lt e => ?_
  exact ((agrees_expect (.inl ended) _).then fun k' lt' close => agrees_pure _).weaken

theorem agrees_printStatement (inner : Agrees h 1 m expr expr') :
    Agrees h 1 m (printStatement expr) (printStatement expr') := by
  refine inner.then fun k lt e => ?_
  exact ((agrees_expect (.inl ended) _).then fun k' lt' close => agrees_pure _).weaken

theorem agrees_returnStatement (inner : Agrees h 1 m expr expr') (line : Nat) :
    Agrees h 1 m (returnStatement expr line) (returnStatement expr' line) := by
  refine (agrees_optional _ inner).bind fun value => ?_
  exact (agrees_expect (.inl ended) _).then fun k lt close => agrees_pure _

theorem agrees_ifStatement (inner : Agrees h 1 m expr expr') (branch : Agrees h 1 m stmt stmt') :
    Agrees h 1 m (ifStatement expr stmt) (ifStatement expr' stmt') := by
  refine (agrees_expect (.inl ended) _).then fun k₁ lt₁ opening => ?_
  refine ((inner.mono (Nat.le_of_lt lt₁)).then fun k₂ lt₂ condition => ?_).weaken
  refine ((agrees_expect (.inl ended) _).then fun k₃ lt₃ closing => ?_).weaken
  refine ((branch.mono (by omega)).then fun k₄ lt₄ thenBranch => ?_).weaken
  refine .accept (.inl ended) (Nat.zero_le 1) (fun k₅ lt₅ => ?_) (agrees_pure _)
  exact ((branch.mono (by omega)).then fun k₆ lt₆ elseBranch => agrees_pure _).weaken

theorem agrees_whileStatement (inner : Agrees h 1 m expr expr')
    (branch : Agrees h 1 m stmt stmt') :
    Agrees h 1 m (whileStatement expr stmt) (whileStatement expr' stmt') := by
  refine (agrees_expect (.inl ended) _).then fun k₁ lt₁ opening => ?_
  refine ((inner.mono (Nat.le_of_lt lt₁)).then fun k₂ lt₂ condition => ?_).weaken
  refine ((agrees_expect (.inl ended) _).then fun k₃ lt₃ closing => ?_).weaken
  exact ((branch.mono (by omega)).then fun k₄ lt₄ body => agrees_pure _).weaken

theorem agrees_forInitializer (inner : Agrees h 1 m expr expr') :
    Agrees h 1 m (forInitializer expr) (forInitializer expr') := by
  refine .accept (.inl ended) (Nat.le_refl 1) (fun k lt => agrees_pure _) ?_
  refine .accept (.inl ended) (Nat.le_refl 1) (fun k lt => ?_) ?_
  · refine ((agrees_varDeclaration ended (inner.mono (Nat.le_of_lt lt))).then ?_).weaken
    exact fun k' lt' s => agrees_pure _
  · exact (agrees_expressionStatement ended inner).then fun k lt s => agrees_pure _

theorem agrees_forStatement (inner : Agrees h 1 m expr expr') (branch : Agrees h 1 m stmt stmt') :
    Agrees h 1 m (forStatement expr stmt) (forStatement expr' stmt') := by
  refine (agrees_expect (.inl ended) _).then fun k₁ lt₁ opening => ?_
  refine ((agrees_forInitializer ended (inner.mono (by omega))).then
    fun k₂ lt₂ initializer => ?_).weaken
  refine (agrees_optional _ (inner.mono (by omega))).bind fun condition => ?_
  refine ((agrees_expect (.inl ended) _).then fun k₃ lt₃ semicolon => ?_).weaken
  refine (agrees_optional _ (inner.mono (by omega))).bind fun increment => ?_
  refine ((agrees_expect (.inl ended) _).then fun k₄ lt₄ closing => ?_).weaken
  exact ((branch.mono (by omega)).then fun k₅ lt₅ body => agrees_pure _).weaken

theorem agrees_blockAfter (inner : Agrees h 1 m decl decl') (few : m < n) (few' : m < n')
    (read : List Stmt) : Agrees h 0 m (blockAfter decl n read) (blockAfter decl' n' read) := by
  induction n generalizing n' m read with
  | zero => exact absurd few (Nat.not_lt_zero m)
  | succ n ih =>
    obtain ⟨n', rfl⟩ := Nat.exists_eq_add_one.mpr (Nat.zero_lt_of_lt few')
    unfold blockAfter
    refine (agrees_isAt _).bind fun closed => agrees_atEnd.bind fun atEnd => ?_
    split
    · exact ((agrees_expect (.inl ended) _).then fun k lt close => agrees_pure _).weaken
    · refine (inner.then fun k lt s => ?_).weaken
      exact ih (inner.mono (Nat.le_of_lt lt)) (by omega) (by omega) _

theorem agrees_function (inner : Agrees h 1 m decl decl') (few : m ≤ n) (few' : m ≤ n')
    (what : String) : Agrees h 1 m (function decl n what) (function decl' n' what) := by
  refine (agrees_name _).then fun k₁ lt₁ name => ?_
  refine ((agrees_expect (.inl ended) _).then fun k₂ lt₂ opening => ?_).weaken
  refine (agrees_parameters (by omega) (by omega)).bind fun params => ?_
  refine ((agrees_expect (.inl ended) _).then fun k₃ lt₃ closing => ?_).weaken
  refine ((agrees_expect (.inl ended) _).then fun k₄ lt₄ begins => ?_).weaken
  refine (agrees_blockAfter ended (inner.mono (by omega)) (by omega) (by omega) []).bind ?_
  exact fun body => agrees_pure _

theorem agrees_methodsAfter (inner : Agrees h 1 m decl decl') (few : m < n) (few' : m < n')
    (read : List FunctionDecl) :
    Agrees h 0 m (methodsAfter decl n read) (methodsAfter decl' n' read) := by
  induction n generalizing n' m read with
  | zero => exact absurd few (Nat.not_lt_zero m)
  | succ n ih =>
    obtain ⟨n', rfl⟩ := Nat.exists_eq_add_one.mpr (Nat.zero_lt_of_lt few')
    unfold methodsAfter
    refine (agrees_isAt _).bind fun closed => agrees_atEnd.bind fun atEnd => ?_
    split
    · exact agrees_pure _
    · refine ((agrees_function ended inner (by omega) (by omega) _).then fun k lt f => ?_).weaken
      exact ih (inner.mono (Nat.le_of_lt lt)) (by omega) (by omega) _

theorem agrees_classDeclaration (inner : Agrees h 1 m decl decl') (few : m ≤ n) (few' : m ≤ n') :
    Agrees h 1 m (classDeclaration decl n) (classDeclaration decl' n') := by
  refine (agrees_name _).then fun k₁ lt₁ name => agrees_superclass?.bind fun parent => ?_
  refine ((agrees_expect (.inl ended) _).then fun k₂ lt₂ opening => ?_).weaken
  refine (agrees_methodsAfter ended (inner.mono (by omega)) (by omega) (by omega) []).bind ?_
  exact fun methods =>
    ((agrees_expect (.inl ended) _).then fun k₃ lt₃ closing => agrees_pure _).weaken

/-- A statement has passed its keyword or brace before another nests in it. -/
theorem agrees_statementOf (ofDecl : ∀ k < m, Agrees h 1 k decl decl')
    (ofStmt : ∀ k < m, Agrees h 1 k stmt stmt') (few : m ≤ n) (few' : m ≤ n') :
    Agrees h 1 m (statementOf decl stmt n) (statementOf decl' stmt' n') := by
  have ofExpr {k : Nat} (lt : k < m) : Agrees h 1 k (expression n) (expression n') :=
    agrees_expression (by omega) (by omega)
  refine agrees_peek.bind fun token => ?_
  refine .accept (.inl ended) (Nat.le_refl 1) (fun k lt => ?_) ?_
  · exact (agrees_forStatement ended (ofExpr lt) (ofStmt k lt)).weaken
  refine .accept (.inl ended) (Nat.le_refl 1) (fun k lt => ?_) ?_
  · exact (agrees_ifStatement ended (ofExpr lt) (ofStmt k lt)).weaken
  refine .accept (.inl ended) (Nat.le_refl 1) (fun k lt => ?_) ?_
  · exact (agrees_whileStatement ended (ofExpr lt) (ofStmt k lt)).weaken
  refine .accept (.inl ended) (Nat.le_refl 1) (fun k lt => ?_) ?_
  · exact (agrees_returnStatement ended (ofExpr lt) _).weaken
  refine .accept (.inl ended) (Nat.le_refl 1) (fun k lt => ?_) ?_
  · refine (agrees_blockAfter ended (ofDecl k lt) (by omega) (by omega) []).bind ?_
    exact fun body => agrees_pure _
  refine .accept (.inl ended) (Nat.le_refl 1) (fun k lt => ?_) ?_
  · exact (agrees_printStatement ended (ofExpr lt)).weaken
  · exact agrees_expressionStatement ended (agrees_expression (by omega) (by omega))

end

/-- A declaration without recovery from its faults. -/
def unrecovered (decl stmt : Parser Stmt) (n : Nat) : Parser Stmt := do
  if ← accept (.keyword .class) then
    classDeclaration decl n
  else if ← accept (.keyword .fun) then
    return .function (← function decl n "function")
  else if ← accept (.keyword .var) then
    varDeclaration (expression n)
  else
    statementOf decl stmt n

theorem declaration_eq (n : Nat) :
    declaration (n + 1) = recovering (unrecovered (declaration n) (statement n) n) :=
  rfl

section

variable {p p' : Parser α} {decl decl' stmt stmt' : Parser Stmt}
  (ended : h.halt.kind.agrees .eof = true)

include ended

theorem agrees_unrecovered (ofDecl : ∀ k < m, Agrees h 1 k decl decl')
    (ofStmt : ∀ k < m, Agrees h 1 k stmt stmt') (few : m ≤ n) (few' : m ≤ n') :
    Agrees h 1 m (unrecovered decl stmt n) (unrecovered decl' stmt' n') := by
  refine .accept (.inl ended) (Nat.le_refl 1) (fun k lt => ?_) ?_
  · exact (agrees_classDeclaration ended (ofDecl k lt) (by omega) (by omega)).weaken
  refine .accept (.inl ended) (Nat.le_refl 1) (fun k lt => ?_) ?_
  · refine ((agrees_function ended (ofDecl k lt) (by omega) (by omega) _).then ?_).weaken
    exact fun k' lt' f => agrees_pure _
  refine .accept (.inl ended) (Nat.le_refl 1) (fun k lt => ?_) ?_
  · exact (agrees_varDeclaration ended (agrees_expression (by omega) (by omega))).weaken
  · exact agrees_statementOf ended ofDecl ofStmt few few'

/-- Recovery goes on at the same place, which is behind a token unless the input has ended. -/
theorem recovering_cases (agrees : Agrees h 1 m p p') {k : Nat} {c c' : Cursor} (few : k ≤ m)
    (abreast : c.Abreast h k c') :
    (∃ a d d' j, recovering p c = .ok a d ∧ recovering p' c' = .ok a d' ∧ j < k ∧
        d.Abreast h j d') ∨
      ∃ e d d' j, recovering p c = .error e d ∧ recovering p' c' = .error e d' ∧
        (j = 0 ∨ j < k) ∧ d.Abreast h j d' := by
  have here := agrees k c c' few abreast
  unfold recovering
  generalize p c = r, p' c' = r' at here
  cases here with
  | ok passed abreast' => exact .inl ⟨_, _, _, _, rfl, rfl, passed, abreast'⟩
  | error le abreast' =>
    obtain ⟨j, lt, abreast''⟩ := abreast'.synchronized ended
    exact .inr ⟨_, _, _, j, rfl, rfl, by omega, abreast''⟩

theorem Agrees.recovering (agrees : Agrees h 1 m p p') :
    Agrees h 1 m (recovering p) (Parser.recovering p') := by
  intro k c c' few abreast
  rcases recovering_cases ended agrees few abreast with
    ⟨a, d, d', j, here, here', lt, abreast'⟩ | ⟨e, d, d', j, here, here', lt, abreast'⟩
  · rw [here, here']
    exact .ok lt abreast'
  · rw [here, here']
    exact .error (by omega) abreast'

/-- **Statements and declarations** are read alike with all bounds above the number of tokens. -/
theorem agrees_statement_declaration (few : m < n) (few' : m < n') :
    Agrees h 1 m (statement n) (statement n') ∧ Agrees h 1 m (declaration n) (declaration n') := by
  induction n generalizing m n' with
  | zero => exact absurd few (Nat.not_lt_zero m)
  | succ n ih =>
    obtain ⟨n', rfl⟩ := Nat.exists_eq_add_one.mpr (Nat.zero_lt_of_lt few')
    have ofDecl : ∀ k < m, Agrees h 1 k (declaration n) (declaration n') :=
      fun k lt => (ih (by omega) (by omega)).2
    have ofStmt : ∀ k < m, Agrees h 1 k (statement n) (statement n') :=
      fun k lt => (ih (by omega) (by omega)).1
    exact ⟨agrees_statementOf ended ofDecl ofStmt (by omega) (by omega),
      .recovering ended (agrees_unrecovered ended ofDecl ofStmt (by omega) (by omega))⟩

/-- A declaration is read alike or fails alike, and the next one is further on. -/
theorem declaration_cases {k : Nat} (few : k < n) (few' : k < n') {c c' : Cursor}
    (abreast : c.Abreast h k c') :
    (∃ s d d' j, declaration n c = .ok s d ∧ declaration n' c' = .ok s d' ∧ j < k ∧
        d.Abreast h j d') ∨
      ∃ e d d' j, declaration n c = .error e d ∧ declaration n' c' = .error e d' ∧
        (j = 0 ∨ j < k) ∧ d.Abreast h j d' := by
  obtain ⟨n, rfl⟩ := Nat.exists_eq_add_one.mpr (Nat.zero_lt_of_lt few)
  obtain ⟨n', rfl⟩ := Nat.exists_eq_add_one.mpr (Nat.zero_lt_of_lt few')
  have inner {k' : Nat} (lt : k' < k) : Agrees h 1 k' (statement n) (statement n') ∧
      Agrees h 1 k' (declaration n) (declaration n') :=
    agrees_statement_declaration ended (by omega) (by omega)
  exact recovering_cases ended (agrees_unrecovered ended (fun _ lt => (inner lt).2)
    (fun _ lt => (inner lt).1) (by omega) (by omega)) (Nat.le_refl k) abreast

/-- The declarations up to the end are read alike, and the faults among them. -/
theorem declarations_abreast {bound bound' k : Nat} (above : k < bound) (above' : k < bound')
    (turns : k ≤ n) (turns' : k ≤ n') (read : List Stmt) (faults : List SyntaxError)
    {c c' : Cursor} (abreast : c.Abreast h k c') :
    ∃ program all d d', declarations bound n read faults c = (program, all, d) ∧
      declarations bound' n' read faults c' = (program, all, d') ∧
      d'.nextId % idCount = d.nextId % idCount := by
  induction n generalizing n' k read faults c c' with
  | zero =>
    obtain rfl : k = 0 := Nat.le_zero.mp turns
    have atEnd := abreast.ended ended
    rw [declarations_ended 0 read faults atEnd,
      declarations_ended n' read faults (abreast.atEnd.trans atEnd)]
    exact ⟨_, _, c, c', rfl, rfl, abreast.nextId⟩
  | succ n ih =>
    rcases abreast.current_cases with ⟨rfl, -⟩ | ⟨pos, -, within, within'⟩
    · have atEnd := abreast.ended ended
      rw [declarations_ended (n + 1) read faults atEnd,
        declarations_ended n' read faults (abreast.atEnd.trans atEnd)]
      exact ⟨_, _, c, c', rfl, rfl, abreast.nextId⟩
    · obtain ⟨n', rfl⟩ := Nat.exists_eq_add_one.mpr (Nat.lt_of_lt_of_le pos turns')
      rw [declarations, declarations, within, within', if_neg Bool.false_ne_true,
        if_neg Bool.false_ne_true]
      rcases declaration_cases ended above above' abreast with
        ⟨s, d, d', j, here, here', lt, abreast'⟩ | ⟨e, d, d', j, here, here', lt, abreast'⟩
      · rw [here, here']
        exact ih (by omega) (by omega) (by omega) (by omega) (s :: read) faults abreast'
      · -- Behind a fault there are fewer tokens, or none: the turns do in either case.
        rw [here, here']
        exact ih (by omega) (by omega) (by omega) (by omega) read (e :: faults) abreast'

end

/-! ## Programs -/

variable {last : Token} {ts : List Token}

/-- The tokens up to the end of the input. -/
def upToEnd (tokens : Tokens) {id id' : Nat} (same : id' % idCount = id % idCount) : Horizon where
  inside t := t.kind.agrees .eof = false
  halt := tokens.last
  behind := []
  behind' := []
  first := id
  first' := id'
  unended _ unended := unended
  halts := .inl tokens.ended
  same := rfl
  numbered := same

theorem abreast_before (tokens : Tokens) {id id' : Nat} (same : id' % idCount = id % idCount) :
    (before tokens.body tokens.last id).Abreast (upToEnd tokens same) tokens.body.length
      (before tokens.body tokens.last id') := by
  obtain ⟨body, last, unended, ended⟩ := tokens
  cases body with
  | nil => exact ⟨⟨[], rfl, nofun, rfl, rfl⟩, 0, rfl, rfl⟩
  | cons t body => exact ⟨⟨t :: body, rfl, unended, rfl, rfl⟩, 0, rfl, rfl⟩

/-- **The bounds are not reached.** A program is what is read with any bounds above the number of
its tokens, wherever the ids are counted from. -/
theorem parse_eq_declarations (tokens : Tokens) {bound : Nat}
    (above : tokens.body.length < bound) (turns : tokens.body.length ≤ n) {firstId id : Nat}
    (same : id % idCount = firstId % idCount) :
    parse tokens.all firstId =
      let (program, faults, c) :=
        declarations bound n [] [] (before tokens.body tokens.last id)
      ⟨if faults.isEmpty then .ok program else .error faults, c.nextId % idCount⟩ := by
  obtain ⟨first, rest, here⟩ := tokens.exists_cons
  -- The bounds that a program is parsed with count the end of the input too.
  have above' : tokens.body.length < (first :: rest).length := by
    rw [← here, tokens.length_all]
    exact Nat.lt_succ_self _
  obtain ⟨program, faults, d, d', read, read', nextId⟩ :=
    declarations_abreast tokens.ended above' above (Nat.le_of_lt above') turns [] []
      (abreast_before tokens same)
  rw [here]
  unfold parse
  dsimp only
  rw [start_eq_before tokens firstId here, read, read']
  dsimp only
  rw [nextId]

/-! ## One declaration after another -/

variable {bound : Nat} {c d : Cursor} {read : List Stmt} {faults : List SyntaxError}

theorem declarations_of_ok (within : c.atEnd = false) {s : Stmt}
    (ok : declaration bound c = .ok s d) :
    declarations bound (n + 1) read faults c = declarations bound n (s :: read) faults d := by
  rw [declarations, within, if_neg Bool.false_ne_true, ok]

theorem declarations_of_error (within : c.atEnd = false) {e : SyntaxError}
    (failed : declaration bound c = .error e d) :
    declarations bound (n + 1) read faults c = declarations bound n read (e :: faults) d := by
  rw [declarations, within, if_neg Bool.false_ne_true, failed]

/-- A program of a single declaration. -/
theorem parse_of_ok (tokens : Tokens) {firstId id : Nat} (same : id % idCount = firstId % idCount)
    (pos : 0 < tokens.body.length) {s : Stmt} (above : tokens.body.length < bound)
    (ok : declaration bound (before tokens.body tokens.last id) = .ok s d)
    (ended : d.atEnd = true) : parse tokens.all firstId = ⟨.ok [s], d.nextId % idCount⟩ := by
  rw [parse_eq_declarations tokens above (Nat.le_succ _) same,
    declarations_of_ok (tokens.within pos id) ok, declarations_ended _ _ _ ended]
  rfl

/-- A program of a single faulty declaration. -/
theorem parse_of_error (tokens : Tokens) {firstId id : Nat}
    (same : id % idCount = firstId % idCount) (pos : 0 < tokens.body.length) {e : SyntaxError}
    (above : tokens.body.length < bound)
    (failed : declaration bound (before tokens.body tokens.last id) = .error e d)
    (ended : d.atEnd = true) : parse tokens.all firstId = ⟨.error [e], d.nextId % idCount⟩ := by
  rw [parse_eq_declarations tokens above (Nat.le_succ _) same,
    declarations_of_error (tokens.within pos id) failed, declarations_ended _ _ _ ended]
  rfl

end Parser

end Lox
