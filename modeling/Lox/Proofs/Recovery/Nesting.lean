import Mathlib.Logic.Function.Iterate
import Lox.Proofs.Recovery.Malformed

/-!
# Recovery inside blocks

A fault in a block ends the declaration around the block too, and each declaration further out. Every
one of them lets the cursor go on to a statement boundary, and always by at least one token. So
behind a malformed statement that stands `k` blocks deep, `k` boundaries more are passed, with what
is before them, and what is left is parsed as declarations outside of any block. The statement's
fault is therefore the only one just if this remainder is a program.

The tokens in front of a place are derived like a program, but for the declarations around the place,
of which they hold the first part.
-/

set_option autoImplicit false

namespace Lox

namespace Grammar

mutual

/-- The tokens in front of a place that is some number of blocks deep: complete declarations, and
then one that goes on around the place unless there is no block. -/
inductive Before : Nat → List Token → Nat → Nat → Prop
  | here {us : List Token} {n m : Nat} {as : List Stmt} (it : Many (Declaration True) us n as m) :
      Before 0 us n m
  | inside {k : Nat} {us vs : List Token} {n i m : Nat} {as : List Stmt}
      (it : Many (Declaration True) us n as i) (around : Opened k vs i m) :
      Before (k + 1) (us ++ vs) n m

/-- The first tokens of a declaration, up to a place in a block in it. -/
inductive Opened : Nat → List Token → Nat → Nat → Prop
  | function {k : Nat} {t i l r b : Token} {us vs : List Token} {n j m : Nat} {params : List Name}
      (word : t.kind = .keyword .fun) (name : i.kind = .identifier)
      (opening : l.kind = .punctuation .leftParen) (parameters : Listing Identifier us n params j)
      (closing : r.kind = .punctuation .rightParen) (begins : b.kind = .punctuation .leftBrace)
      (inner : Before k vs j m) : Opened k (t :: i :: l :: (us ++ r :: b :: vs)) n m
  | method {k : Nat} {t c g i l r b : Token} {ws xs us vs : List Token} {n n₁ n₂ j m : Nat}
      {superclass : Option Superclass} {methods : List FunctionDecl} {params : List Name}
      (word : t.kind = .keyword .class) (title : c.kind = .identifier)
      (parent : Maybe Parent ws n superclass n₁) (begin : g.kind = .punctuation .leftBrace)
      (others : Many (Function (Declaration True)) xs n₁ methods n₂) (name : i.kind = .identifier)
      (opening : l.kind = .punctuation .leftParen) (parameters : Listing Identifier us n₂ params j)
      (closing : r.kind = .punctuation .rightParen) (begins : b.kind = .punctuation .leftBrace)
      (inner : Before k vs j m) :
      Opened k (t :: c :: (ws ++ g :: (xs ++ i :: l :: (us ++ r :: b :: vs)))) n m
  | statement {k : Nat} {us : List Token} {n m : Nat} (it : OpenedStatement k us n m) :
      Opened k us n m

/-- The first tokens of a statement, up to a place in a block in it. -/
inductive OpenedStatement : Nat → List Token → Nat → Nat → Prop
  | block {k : Nat} {l : Token} {us : List Token} {n m : Nat}
      (opening : l.kind = .punctuation .leftBrace) (inner : Before k us n m) :
      OpenedStatement k (l :: us) n m
  | while {k : Nat} {t l r : Token} {us vs : List Token} {n i m : Nat} {condition : Expr}
      (word : t.kind = .keyword .while) (opening : l.kind = .punctuation .leftParen)
      (test : Expression us n condition i) (closing : r.kind = .punctuation .rightParen)
      (inner : OpenedStatement k vs i m) : OpenedStatement k (t :: l :: (us ++ r :: vs)) n m
  | for {k : Nat} {t l z r : Token} {us vs ws xs : List Token} {n n₁ n₂ n₃ m : Nat}
      {initializer : Option Stmt} {condition increment : Option Expr}
      (word : t.kind = .keyword .for) (opening : l.kind = .punctuation .leftParen)
      (first : ForInitializer us n initializer n₁) (test : Maybe Expression vs n₁ condition n₂)
      (semicolon : z.kind = .punctuation .semicolon) (step : Maybe Expression ws n₂ increment n₃)
      (closing : r.kind = .punctuation .rightParen) (inner : OpenedStatement k xs n₃ m) :
      OpenedStatement k (t :: l :: (us ++ (vs ++ z :: (ws ++ r :: xs)))) n m
  | if {k : Nat} {t l r : Token} {us vs : List Token} {n i m : Nat} {condition : Expr}
      (word : t.kind = .keyword .if) (opening : l.kind = .punctuation .leftParen)
      (test : Expression us n condition i) (closing : r.kind = .punctuation .rightParen)
      (inner : OpenedStatement k vs i m) : OpenedStatement k (t :: l :: (us ++ r :: vs)) n m
  | else {k : Nat} {t l r w : Token} {us vs ws : List Token} {n i j m : Nat} {condition : Expr}
      {thenBranch : Stmt} (word : t.kind = .keyword .if)
      (opening : l.kind = .punctuation .leftParen) (test : Expression us n condition i)
      (closing : r.kind = .punctuation .rightParen)
      (branch : Statement True false vs i thenBranch j) (otherwise : w.kind = .keyword .else)
      (inner : OpenedStatement k ws j m) :
      OpenedStatement k (t :: l :: (us ++ r :: (vs ++ w :: ws))) n m

end

theorem OpenedStatement.first {k n m : Nat} {us : List Token} (it : OpenedStatement k us n m) :
    ∃ t rest, us = t :: rest ∧ opensStatement t.kind = true := by
  cases it with
  | block opening => exact ⟨_, _, rfl, by rw [opening]; rfl⟩
  | «while» word => exact ⟨_, _, rfl, by rw [word]; rfl⟩
  | «for» word => exact ⟨_, _, rfl, by rw [word]; rfl⟩
  | «if» word => exact ⟨_, _, rfl, by rw [word]; rfl⟩
  | «else» word => exact ⟨_, _, rfl, by rw [word]; rfl⟩

theorem Opened.first {k n m : Nat} {us : List Token} (it : Opened k us n m) :
    ∃ t rest, us = t :: rest ∧ beginsDeclaration t.kind = true := by
  cases it with
  | function word => exact ⟨_, _, rfl, by rw [word]; rfl⟩
  | method word => exact ⟨_, _, rfl, by rw [word]; rfl⟩
  | statement it =>
    obtain ⟨t, rest, rfl, opens⟩ := it.first
    exact ⟨t, rest, rfl, beginsDeclaration_of_statement opens⟩

end Grammar

namespace Parser

open Cursor Grammar

/-! ## Where parsing goes on -/

/-- The tokens from the next boundary on, behind a token that was passed. -/
def boundary (previous : Token) : List Token → List Token
  | [] => []
  | t :: ts =>
    if previous.kind.agrees (.punctuation .semicolon) || beginsStatement t.kind then t :: ts
    else boundary t ts

/-- The tokens from the next boundary on, behind at least one token. -/
def resynchronized : List Token → List Token
  | [] => []
  | t :: ts => boundary t ts

theorem boundary_suffix (previous : Token) (ts : List Token) : boundary previous ts <:+ ts := by
  induction ts generalizing previous with
  | nil => exact List.suffix_refl []
  | cons t ts ih =>
    unfold boundary
    split
    · exact List.suffix_refl _
    · exact (ih t).trans (List.suffix_cons t ts)

theorem resynchronized_suffix (k : Nat) (ts : List Token) : resynchronized^[k] ts <:+ ts := by
  induction k generalizing ts with
  | zero => exact List.suffix_refl ts
  | succ k ih =>
    refine (ih (resynchronized ts)).trans ?_
    cases ts with
    | nil => exact List.suffix_refl []
    | cons t ts => exact (boundary_suffix t ts).trans (List.suffix_cons t ts)

variable {last : Token} {ts : List Token} {n m : Nat}

theorem resume_before (unended : ∀ t ∈ ts, t.kind.agrees .eof = false) (previous : Token) :
    resume previous (before ts last n).current (before ts last n).rest
      = ((before (boundary previous ts) last n).current,
          (before (boundary previous ts) last n).rest) := by
  induction ts generalizing previous with
  | nil => rfl
  | cons t ts ih =>
    have first := unended t List.mem_cons_self
    have later : ∀ u ∈ ts, u.kind.agrees .eof = false :=
      fun u member => unended u (List.mem_cons_of_mem t member)
    -- The end of the input is no boundary of its own, so only the two conditions are left.
    have step : resume previous t (ts ++ [last]) =
        if previous.kind.agrees (.punctuation .semicolon) || beginsStatement t.kind then
          (t, ts ++ [last])
        else resume t (before ts last n).current (before ts last n).rest := by
      cases ts with
      | nil =>
        show (if t.kind.agrees .eof || _ || _ then _ else _) = _
        rw [first, Bool.false_or]
        rfl
      | cons u ts =>
        show (if t.kind.agrees .eof || _ || _ then _ else _) = _
        rw [first, Bool.false_or]
        rfl
    show resume previous t (ts ++ [last]) = _
    rw [step]
    unfold boundary
    split
    · rfl
    · exact ih later t

/-- After a fault parsing goes on at the next boundary. -/
theorem synchronized_before (unended : ∀ t ∈ ts, t.kind.agrees .eof = false) :
    (before ts last n).synchronized = before (resynchronized ts) last n := by
  unfold synchronized
  cases ts with
  | nil => rw [atEnd_before_nil, if_pos rfl]; rfl
  | cons t ts =>
    have first := unended t List.mem_cons_self
    have later : ∀ u ∈ ts, u.kind.agrees .eof = false :=
      fun u member => unended u (List.mem_cons_of_mem t member)
    rw [atEnd_before_cons, first, if_neg Bool.false_ne_true, moved_before first]
    dsimp only
    rw [resume_before later]
    have whole : ∀ vs, (⟨(before vs last n).current, (before vs last n).rest, n⟩ : Cursor)
        = before vs last n := by
      rintro (_ | ⟨v, vs⟩) <;> rfl
    exact whole (boundary t ts)

theorem iterate_synchronized_before (k : Nat) (unended : ∀ t ∈ ts, t.kind.agrees .eof = false) :
    synchronized^[k] (before ts last n) = before (resynchronized^[k] ts) last n := by
  induction k with
  | zero => rfl
  | succ k ih =>
    rw [Function.iterate_succ_apply', Function.iterate_succ_apply', ih]
    exact synchronized_before fun t member =>
      unended t ((resynchronized_suffix k ts).subset member)

/-! ## A fault behind the first tokens of a declaration -/

/-- A declaration is expected before the tokens. -/
structure Ready (ts : List Token) : Prop where
  within : ∃ t rest, ts = t :: rest ∧ t.kind.agrees .eof = false
  unclosed : ∀ t ∈ ts.head?, t.kind ≠ .punctuation .rightBrace
  unbranched : Unbranched ts

theorem Ready.of_begins {t : Token} (begins : beginsDeclaration t.kind = true) : Ready (t :: ts) :=
  ⟨⟨t, ts, rfl, unended_of_beginsDeclaration begins⟩, beginsDeclaration_ne begins rfl,
    beginsDeclaration_ne begins rfl⟩

/-- A malformed statement is taken for a declaration. -/
theorem ready_tokens (M : SimpleStatement) (unbranched : Unbranched M.tokens) :
    Ready (M.tokens ++ ts) := by
  have some : ∃ t rest, M.tokens = t :: rest ∧ t.kind ≠ .punctuation .rightBrace := by
    obtain ⟨body, closing, semicolon, plain, wordless, not_for⟩ := M
    cases body with
    | nil => exact ⟨closing, [], rfl, by rw [semicolon]; exact nofun⟩
    | cons t body =>
      refine ⟨t, body ++ [closing], rfl, fun brace => ?_⟩
      have first := plain t List.mem_cons_self
      rw [brace] at first
      cases first
  obtain ⟨t, rest, split, unclosed⟩ := some
  have unended : t.kind.agrees .eof = false := M.unended t (split ▸ List.mem_cons_self)
  rw [split] at unbranched ⊢
  refine ⟨⟨t, rest ++ ts, rfl, unended⟩, ?_, ?_⟩
  · rintro _ ⟨⟩
    exact unclosed
  · rintro _ ⟨⟩
    exact unbranched t rfl

theorem bind_of_error {α β : Type} {q : Parser α} {f : α → Parser β} {c d : Cursor}
    {e : SyntaxError} (failed : q c = .error e d) : (q >>= f) c = .error e d := by
  rw [bind_eq, failed]

section

variable {decl stmt : Parser Stmt} {us ws : List Token} {i b k : Nat} {e : SyntaxError}
  {c : Cursor}

/-- A loop has a turn left behind items that are read, each of which has a token. -/
theorem turns_of_many {α : Type} {item : Rule α} {as : List α}
    (pos : ∀ us n a m, item us n a m → 0 < us.length) (it : Many item us n as m) {turns : Nat}
    (enough : us.length < turns) :
    ∃ left, turns = left + 1 + as.length ∧ turns ≤ left + 1 + us.length := by
  have le : as.length ≤ us.length := by
    clear enough
    induction it with
    | nil => exact Nat.le_refl 0
    | cons first rest ih =>
      have := pos _ _ _ _ first
      rw [List.length_cons, List.length_append]
      omega
  exact ⟨turns - 1 - as.length, by omega, by omega⟩

/-- The declarations in front of a place in a block are read. -/
theorem blockAfter_past (takes : Takes last b Unbranched decl (Declaration True))
    {as : List Stmt} (it : Many (Declaration True) us n as m) (few : us.length ≤ b)
    (behind : Unbranched ws) {turns left : Nat} (count : turns = left + as.length)
    (read : List Stmt) :
    blockAfter decl turns read (before (us ++ ws) last n)
      = blockAfter decl left (as.reverse ++ read) (before ws last m) := by
  subst count
  induction it generalizing read with
  | nil => rfl
  | @cons us vs _ _ _ s as first rest ih =>
    rw [List.length_append] at few
    -- What begins a declaration does not close the block.
    obtain ⟨t, us', rfl, begins⟩ := first.first
    rw [List.append_assoc, List.length_cons, ← Nat.add_assoc, blockAfter, List.cons_append,
      untilBrace_elsewhere (unended_of_beginsDeclaration begins) (beginsDeclaration_ne begins rfl),
      ← List.cons_append,
      bind_of_ok (takes _ _ _ _ first (by omega) _ (unbranched_of_many rest behind)),
      ih (by omega), List.reverse_cons, List.append_assoc, List.singleton_append]

theorem blockAfter_fault (ready : Ready ws) (failed : decl (before ws last m) = .error e c)
    (turns : Nat) (read : List Stmt) :
    blockAfter decl (turns + 1) read (before ws last m) = .error e c := by
  obtain ⟨t, rest, rfl, unended⟩ := ready.within
  rw [blockAfter, untilBrace_elsewhere unended ready.unclosed, bind_of_error failed]

/-- The methods in front of one in a class are read. -/
theorem methodsAfter_past (takes : Takes last b Unbranched decl (Declaration True))
    {as : List FunctionDecl} (it : Many (Function (Declaration True)) us n as m)
    {turns left : Nat} (count : turns = left + as.length) (few : us.length ≤ turns)
    (le : turns ≤ b) (read : List FunctionDecl) :
    methodsAfter decl turns read (before (us ++ ws) last n)
      = methodsAfter decl left (as.reverse ++ read) (before ws last m) := by
  subst count
  induction it generalizing read with
  | nil => rfl
  | @cons us vs _ _ _ f as first rest ih =>
    rw [List.length_append, List.length_cons, ← Nat.add_assoc] at few
    rw [List.length_cons, ← Nat.add_assoc] at le
    have pos := first.pos
    obtain ⟨t, us', rfl, word⟩ : ∃ t us', us = t :: us' ∧ t.kind = .identifier := by
      cases first with
      | intro name _ _ _ _ _ _ => exact ⟨_, _, rfl, name⟩
    have method := takes_function (takes.mono (Nat.le_of_succ_le le)) "method"
    rw [List.append_assoc, List.length_cons, ← Nat.add_assoc, methodsAfter, List.cons_append,
      untilBrace_elsewhere (word ▸ rfl) (head_ne word rfl), ← List.cons_append,
      bind_of_ok (method _ _ _ _ first (by omega) _ trivial),
      ih (f :: read) (by omega) (by omega), List.reverse_cons, List.append_assoc,
      List.singleton_append]

/-- A fault at the place ends the block that it stands in, and the declarations around the place in
that block. -/
theorem blockAfter_of_before (takes : Takes last b Unbranched decl (Declaration True))
    (ready : Ready ts) (here : decl (before ts last m) = .error e c)
    (around : ∀ k us n, Opened k us n m → us.length + ts.length ≤ b →
      decl (before (us ++ ts) last n) = .error e (synchronized^[k + 1] c))
    (it : Before k us n m) (few : us.length + ts.length ≤ b) {turns : Nat}
    (enough : us.length + ts.length ≤ turns) (read : List Stmt) :
    blockAfter decl turns read (before (us ++ ts) last n) = .error e (synchronized^[k] c) := by
  obtain ⟨t, rest, some, -⟩ := ready.within
  have pos : 0 < ts.length := some ▸ Nat.succ_pos _
  cases it with
  | here it =>
    obtain ⟨left, count, -⟩ := turns_of_many (fun _ _ _ _ it => it.pos) it
      (show us.length < turns by omega)
    rw [blockAfter_past takes it (by omega) ready.unbranched count,
      blockAfter_fault ready here left]
    rfl
  | @inside _ us vs _ i _ as it opened =>
    rw [List.length_append] at few enough
    obtain ⟨left, count, -⟩ := turns_of_many (fun _ _ _ _ it => it.pos) it
      (show us.length < turns by omega)
    have next : Ready (vs ++ ts) := by
      obtain ⟨t, rest, rfl, begins⟩ := opened.first
      exact .of_begins begins
    rw [List.append_assoc, blockAfter_past takes it (by omega) next.unbranched count,
      blockAfter_fault next (around _ _ _ opened (by omega)) left]

/-- A fault in the body of a function ends the function. -/
theorem function_of_before {i l r w : Token} {us vs : List Token} {params : List Name} {j : Nat}
    (name : i.kind = .identifier) (opening : l.kind = .punctuation .leftParen)
    (parameters : Listing Identifier us n params j) (closing : r.kind = .punctuation .rightParen)
    (begins : w.kind = .punctuation .leftBrace) {turns : Nat} (enough : us.length ≤ turns)
    (body : blockAfter decl turns [] (before vs last j) = .error e c) (what : String) :
    function decl turns what (before (i :: l :: (us ++ r :: w :: vs)) last n) = .error e c := by
  rw [function, bind_of_ok (name_of_eq name _), bind_of_ok (expect_of_eq rfl opening _),
    bind_of_ok (parameters_of_listing parameters enough closing _),
    bind_of_ok (expect_of_eq rfl closing _), bind_of_ok (expect_of_eq rfl begins _), block,
    bind_of_error body]

/-- What is needed of the parsers for what nests: complete declarations and statements are read, and
a fault at the place ends those around it. -/
structure Fails (last : Token) (ts : List Token) (m b : Nat) (e : SyntaxError) (c : Cursor) :
    Prop where
  ready : Ready ts
  here : declaration b (before ts last m) = .error e c
  declarations : ∀ k us n, Opened k us n m → us.length + ts.length ≤ b →
    declaration b (before (us ++ ts) last n) = .error e (synchronized^[k + 1] c)
  statements : ∀ k us n, OpenedStatement k us n m → us.length + ts.length ≤ b →
    statement b (before (us ++ ts) last n) = .error e (synchronized^[k] c)

theorem Fails.block (fails : Fails last ts m b e c) (it : Before k us n m)
    (few : us.length + ts.length ≤ b) {turns : Nat} (enough : us.length + ts.length ≤ turns) :
    blockAfter (declaration b) turns [] (before (us ++ ts) last n)
      = .error e (synchronized^[k] c) :=
  blockAfter_of_before (takes_statement_declaration b).2 fails.ready fails.here
    fails.declarations it few enough []

theorem Fails.statementOf (fails : Fails last ts m b e c) (it : OpenedStatement k us n m)
    (few : us.length + ts.length ≤ b + 1) :
    statementOf (declaration b) (statement b) b (before (us ++ ts) last n)
      = .error e (synchronized^[k] c) := by
  have ofExpr : Takes last b Closed (expression b) Expression := takes_expression b
  have ofStmt : TakesStatements last b (statement b) := (takes_statement_declaration b).1
  -- What stands before the nested part is read as without a fault, and the fault is passed up as it is.
  cases it with
  | @block _ l us _ _ opening inner =>
    rw [List.length_cons] at few
    rw [List.cons_append, statementOf_block opening, Parser.block,
      bind_of_error (fails.block inner (by omega) (by omega))]
  | @«while» _ t l r us vs _ _ _ condition word opening test closing inner =>
    simp only [List.length_cons, List.length_append] at few
    simp only [List.append_assoc, List.cons_append]
    rw [statementOf_while word, whileStatement,
      bind_of_ok (expect_of_eq rfl opening _),
      bind_of_ok (ofExpr _ _ _ _ test (by omega) _ (.of_rightParen closing)),
      bind_of_ok (expect_of_eq rfl closing _),
      bind_of_error (fails.statements _ _ _ inner (by omega))]
  | @«for» _ t l z r us vs ws xs _ _ _ _ _ _ _ _ word opening first test semicolon step closing
      inner =>
    simp only [List.length_cons, List.length_append] at few
    simp only [List.append_assoc, List.cons_append]
    rw [statementOf_for word, forStatement,
      bind_of_ok (expect_of_eq rfl opening _),
      bind_of_ok (takes_forInitializer ofExpr _ _ _ _ first (by omega) _ trivial),
      bind_of_ok (optional_of_maybe ofExpr test (by omega) semicolon .semicolon _),
      bind_of_ok (expect_of_eq rfl semicolon _),
      bind_of_ok (optional_of_maybe ofExpr step (by omega) closing .rightParen _),
      bind_of_ok (expect_of_eq rfl closing _),
      bind_of_error (fails.statements _ _ _ inner (by omega))]
  | @«if» _ t l r us vs _ _ _ condition word opening test closing inner =>
    simp only [List.length_cons, List.length_append] at few
    simp only [List.append_assoc, List.cons_append]
    rw [statementOf_if word, ifStatement,
      bind_of_ok (expect_of_eq rfl opening _),
      bind_of_ok (ofExpr _ _ _ _ test (by omega) _ (.of_rightParen closing)),
      bind_of_ok (expect_of_eq rfl closing _),
      bind_of_error (fails.statements _ _ _ inner (by omega))]
  | @«else» _ t l r w us vs ws _ _ _ _ condition thenBranch word opening test closing branch otherwise
      inner =>
    simp only [List.length_cons, List.length_append] at few
    simp only [List.append_assoc, List.cons_append]
    rw [statementOf_if word, ifStatement,
      bind_of_ok (expect_of_eq rfl opening _),
      bind_of_ok (ofExpr _ _ _ _ test (by omega) _ (.of_rightParen closing)),
      bind_of_ok (expect_of_eq rfl closing _),
      bind_of_ok (ofStmt _ _ _ _ _ branch (by omega) _
        fun impossible => absurd impossible Bool.false_ne_true), accept_then rfl otherwise,
      bind_of_error (fails.statements _ _ _ inner (by omega))]

theorem Fails.unrecovered (fails : Fails last ts m b e c) (it : Opened k us n m)
    (few : us.length + ts.length ≤ b + 1) :
    unrecovered (declaration b) (statement b) b (before (us ++ ts) last n)
      = .error e (synchronized^[k] c) := by
  have takes : Takes last b Unbranched (declaration b) (Declaration True) :=
    (takes_statement_declaration b).2
  cases it with
  | @function _ t i l r w us vs _ _ _ params word name opening parameters closing begins inner =>
    simp only [List.length_cons, List.length_append] at few
    simp only [List.append_assoc, List.cons_append]
    rw [Parser.unrecovered, accept_else (.keyword .class) rfl (head_ne word rfl),
      accept_then rfl word, bind_of_error (function_of_before name opening parameters closing begins
        (by omega) (fails.block inner (by omega) (by omega)) _)]
  | @method _ t g q i l r w ws xs us vs _ _ _ _ _ superclass methods params word title parent begin
      others name opening parameters closing begins inner =>
    simp only [List.length_cons, List.length_append] at few
    simp only [List.append_assoc, List.cons_append]
    obtain ⟨left, count, more⟩ := turns_of_many (fun _ _ _ _ it => it.pos) others
      (show xs.length < b by omega)
    rw [Parser.unrecovered, accept_then rfl word, classDeclaration,
      bind_of_ok (name_of_eq title _), bind_of_ok (superclass?_of_maybe parent begin _),
      bind_of_ok (expect_of_eq rfl begin _)]
    refine bind_of_error ?_
    rw [methodsAfter_past takes others count (by omega) (Nat.le_refl b), methodsAfter,
      untilBrace_elsewhere (name ▸ rfl) (head_ne name rfl),
      bind_of_error (function_of_before name opening parameters closing begins (by omega)
        (fails.block inner (by omega) (by omega)) _)]
  | statement it =>
    have failed := fails.statementOf it few
    obtain ⟨t, rest, rfl, opens⟩ := it.first
    have other {word : Kind} (none : opensStatement word = false) :
        ∀ t' ∈ (t :: rest ++ ts).head?, t'.kind ≠ word := opensStatement_ne opens none
    exact (unrecovered_of_statement (other rfl) (other rfl) (other rfl)).trans failed

/-- **A fault is passed up** through the declarations around it, and each goes on to a boundary. -/
theorem fails_of_here (ready : Ready ts)
    (here : ∀ b, ts.length ≤ b → declaration b (before ts last m) = .error e c)
    (few : ts.length ≤ b) : Fails last ts m b e c := by
  obtain ⟨t, rest, some, -⟩ := ready.within
  have pos : 0 < ts.length := some ▸ Nat.succ_pos _
  -- By induction on the bound, since what nests is read with a smaller one. Only a declaration goes
  -- on to a boundary, so a statement passes one less.
  have upTo : ∀ b, (∀ k us n, OpenedStatement k us n m → us.length + ts.length ≤ b →
        statement b (before (us ++ ts) last n) = .error e (synchronized^[k] c)) ∧
      ∀ k us n, Opened k us n m → us.length + ts.length ≤ b →
        declaration b (before (us ++ ts) last n) = .error e (synchronized^[k + 1] c) := by
    intro b
    induction b with
    | zero => exact ⟨fun _ _ _ _ few => by omega, fun _ _ _ _ few => by omega⟩
    | succ b ih =>
      have inner (few : ts.length ≤ b) : Fails last ts m b e c := ⟨ready, here b few, ih.2, ih.1⟩
      constructor
      · intro k us n it few
        obtain ⟨t, rest, rfl, -⟩ := it.first
        rw [List.length_cons] at few
        exact (inner (by omega)).statementOf it (by rwa [List.length_cons])
      · intro k us n it few
        obtain ⟨t, rest, rfl, -⟩ := it.first
        rw [List.length_cons] at few
        have failed := (inner (by omega)).unrecovered it (by rwa [List.length_cons])
        rw [declaration_eq, recovering, failed, Function.iterate_succ_apply']
  exact ⟨ready, here b few, (upTo b).2, (upTo b).1⟩

end

end Parser

end Lox
