import Lox.Proofs.Grammar.Reading

/-!
# What is read is derived

Every rule of the parser is sound for its rule of the grammar. The parser reads the operands on a
level, the calls behind an expression and the items of a list in loops that hand on what they have
read so far; such a loop is sound in that it completes a derivation of what stands before it. A loop
that stops because its bound is reached has come to the end of the tokens, where the mark is missing
that must close a list.

Nothing is said here of the `if` that an `else` belongs to.
-/

set_option autoImplicit false

namespace Lox

open Grammar

namespace Grammar

variable {E : Rule Expr} {us : List Token} {n m : Nat} {e : Expr}

/-- A primary expression has a token. -/
theorem Primary.pos (it : Primary E us n e m) : 0 < us.length := by
  cases it <;> exact Nat.succ_pos _

theorem Function.pos {D : Rule Stmt} {f : FunctionDecl} (it : Function D us n f m) :
    0 < us.length := by
  cases it
  exact Nat.succ_pos _

/-- What can be assigned to is not the result of an operator. -/
theorem Infix.call_of_assigned {level : Nat} {value whole : Expr}
    (assigns : Parser.assigned? e value = some whole) (it : Infix E level us n e m) :
    Call E us n e m := by
  induction it with
  | unary it =>
    cases it with
    | call it => exact it
    | sign _ _ => cases assigns
  | tighter _ ih => exact ih assigns
  | @operator _ _ _ _ _ _ _ op _ _ _ _ _ _ _ => cases op <;> cases assigns

/-- The operators on a level are those that the parser takes for it. -/
structure Operates (level : Level) (i : Nat) : Prop where
  of_some : ∀ kind op, level kind = some op → Operator i kind op
  to_some : ∀ kind op, Operator i kind op → level kind = some op

theorem operates_disjunction : Operates Level.disjunction 0 where
  of_some kind op means := by
    unfold Level.disjunction at means
    split at means <;> cases means
    exact .or
  to_some kind op := by rintro ⟨⟩; rfl

theorem operates_conjunction : Operates Level.conjunction 1 where
  of_some kind op means := by
    unfold Level.conjunction at means
    split at means <;> cases means
    exact .and
  to_some kind op := by rintro ⟨⟩; rfl

theorem operates_equality : Operates Level.equality 2 where
  of_some kind op means := by
    unfold Level.equality at means
    split at means <;> cases means
    · exact .notEqual
    · exact .equal
  to_some kind op := by rintro ⟨⟩ <;> rfl

theorem operates_comparison : Operates Level.comparison 3 where
  of_some kind op means := by
    unfold Level.comparison at means
    split at means <;> cases means
    · exact .greater
    · exact .greaterEqual
    · exact .less
    · exact .lessEqual
  to_some kind op := by rintro ⟨⟩ <;> rfl

theorem operates_sum : Operates Level.sum 4 where
  of_some kind op means := by
    unfold Level.sum at means
    split at means <;> cases means
    · exact .subtract
    · exact .add
  to_some kind op := by rintro ⟨⟩ <;> rfl

theorem operates_product : Operates Level.product 5 where
  of_some kind op means := by
    unfold Level.product at means
    split at means <;> cases means
    · exact .multiply
    · exact .divide
  to_some kind op := by rintro ⟨⟩ <;> rfl

end Grammar

namespace Parser

open Cursor

variable {last : Token} {ts : List Token} {m n : Nat}

/-! ## Lists -/

section

variable {α : Type} {item : Parser α} {I : Rule α}

theorem derives_itemsAfter (inner : Sound last n item I) (few : ts.length ≤ n)
    (many : SyntaxError.Cause) (read : List α) :
    Derives last ts m (itemsAfter many item n read) fun us all k =>
      us = ts ∨ ∃ as, all = read.reverse ++ as ∧ Separated I us m as k ∧ all.length ≤ maxArity := by
  induction n generalizing m ts read with
  | zero => exact derives_pure (.inl (List.length_eq_zero_iff.mp (Nat.le_zero.mp few)).symm)
  | succ n ih =>
    unfold itemsAfter
    split
    · exact derives_fail _
    · next room =>
      refine (inner ts m few).bind fun us ts' a k split le derived => ?_
      refine .accept rfl (fun comma ts'' split' separated => ?_) (derives_pure (.inr ?_))
      · have few' : ts''.length ≤ n := length_of_cons split' (Nat.le_trans le few)
        refine (ih (inner.mono (Nat.le_succ n)) few' (a :: read)).mono ?_
        rintro vs all k' (rfl | ⟨as, rfl, items, short⟩)
        · exact .inl (by rw [split, split'])
        · refine .inr ⟨a :: as, ?_, .more derived separated items, short⟩
          rw [List.reverse_cons, List.append_assoc, List.singleton_append]
      · refine ⟨[a], List.reverse_cons, ?_, ?_⟩
        · rw [List.append_nil]
          exact .one derived
        · rw [List.length_reverse, List.length_cons]
          omega

/-- A list is read as the grammar derives it, or up to the end of the tokens. -/
theorem derives_items (inner : Sound last n item I) (few : ts.length ≤ n)
    (many : SyntaxError.Cause) :
    Derives last ts m (itemsAfter many item n []) fun us all k =>
      us = ts ∨ Listing I us m all k := by
  refine (derives_itemsAfter inner few many []).mono ?_
  rintro us all k (whole | ⟨as, rfl, items, short⟩)
  · exact .inl whole
  · exact .inr (.some items short)

/-- The mark behind a list is not found at the end of the tokens. -/
theorem Derives.closing {β : Type} {word : Kind} {what : String} {us us' : List Token}
    {g : Token → Parser β} {T : List Token → β → Nat → Prop} {derived : Prop}
    (split : ts = us ++ us') (read : us = ts ∨ derived) (isWord : word.isWord = true)
    (second : derived → ∀ t ts', us' = t :: ts' → t.kind = word →
      Derives last ts' n (g t) fun us => T (t :: us)) :
    Derives last us' n (Parser.expect word what >>= g) T := by
  refine .expect isWord fun t ts' split' is => ?_
  rcases read with whole | derived
  · have length := congrArg List.length split
    rw [whole, split', List.length_append, List.length_cons] at length
    omega
  · exact second derived t ts' split' is

end

/-! ## Expressions -/

section

variable {expr : Parser Expr} {E : Rule Expr}

theorem derives_arguments (inner : Sound last n expr E) (few : ts.length ≤ n) :
    Derives last ts m (arguments expr n) fun us all k => us = ts ∨ Listing E us m all k := by
  unfold arguments
  refine .isAt fun none => ?_
  cases none with
  | true => exact derives_pure (.inr .none)
  | false =>
    rw [argumentsAfter_eq]
    exact derives_items inner few _

theorem sound_primary (ended : last.kind.agrees .eof = true) (inner : Sound last n expr E) :
    Sound last (n + 1) (primary expr) (Primary E) := by
  intro ts m few
  by_cases begins : ∃ t ts', ts = t :: ts' ∧ beginsPrimary t.kind = true
  · obtain ⟨t, ts, rfl, begins⟩ := begins
    -- What is behind the first token is read, and the token is put before it again.
    suffices behind : Derives last ts m (primaryAfter expr t)
        fun us e k => Primary E (t :: us) m e k by
      intro e c ok
      rw [primary_before begins] at ok
      obtain ⟨us, ts', k, rfl, place, derived⟩ := behind e c ok
      exact ⟨t :: us, ts', k, rfl, place, derived⟩
    unfold primaryAfter
    split
    · next is => exact derives_pure (.number is)
    · next is => exact derives_pure (.string is)
    · next is => exact derives_pure (.false is)
    · next is => exact derives_pure (.true is)
    · next is => exact derives_pure (.nil is)
    · next is => exact .freshId (derives_pure (.this is))
    · next is =>
      refine .expect rfl fun d ts₁ _ dot => .name fun i ts₂ _ method => ?_
      exact .freshId (derives_pure (.super is dot method))
    · next is => exact .freshId (derives_pure (.variable is))
    · next is =>
      refine (inner ts m (Nat.le_of_succ_le_succ few)).bind fun us ts' e k _ _ derived => ?_
      exact .expect rfl fun r ts₁ _ closing => derives_pure (.grouping is derived closing)
    · exact derives_fail _
  · intro e c ok
    rw [primary_of_other ?_] at ok
    · cases ok
    cases ts with
    | nil =>
      show beginsPrimary last.kind = false
      cases kind : last.kind with
      | eof => rfl
      | punctuation | keyword | identifier | string | number =>
        rw [kind] at ended
        cases ended
    | cons t ts => exact Bool.eq_false_iff.mpr fun first => begins ⟨t, ts, rfl, first⟩

/-- The calls behind an expression complete its derivation. -/
theorem derives_suffixes (inner : Sound last n expr E) (few : ts.length ≤ n) {us₀ : List Token}
    {n₀ : Nat} {left : Expr} (before : Call E us₀ n₀ left m) :
    Derives last ts m (suffixes expr n left) fun us e k => Call E (us₀ ++ us) n₀ e k := by
  have complete : Call E (us₀ ++ []) n₀ left m := by rwa [List.append_nil]
  induction n generalizing m ts us₀ left with
  | zero => exact derives_pure complete
  | succ n ih =>
    have inner' := inner.mono (Nat.le_succ n)
    unfold suffixes
    refine .accept rfl (fun l ts' split opening => ?_)
      (.accept rfl (fun d ts' split dot => ?_) (derives_pure complete))
    · have few' : ts'.length ≤ n := length_of_cons split few
      refine (derives_arguments inner' few').bind fun us ts₁ values k split₁ le read => ?_
      refine .closing split₁ read rfl fun items r ts₂ split₂ closing => ?_
      have called := Call.call before opening items closing
      have few₂ : ts₂.length ≤ n := length_of_cons split₂ (Nat.le_succ_of_le (Nat.le_trans le few'))
      refine (ih inner' few₂ called ?_).mono fun us e k derived => ?_
      · rwa [List.append_nil]
      · rwa [List.append_assoc, List.cons_append, List.append_assoc] at derived
    · refine .name fun i ts₁ split₁ property => ?_
      have got := Call.get before dot property
      have few₁ : ts₁.length ≤ n := by
        rw [split, split₁, List.length_cons, List.length_cons] at few
        omega
      refine (ih inner' few₁ got ?_).mono fun us e k derived => ?_
      · rwa [List.append_nil]
      · rwa [List.append_assoc] at derived

/-- The signs before an operand are put before its derivation, the latest innermost. -/
theorem derives_signs (read : List (UnaryOp × Nat)) :
    Derives last ts m (signs n read) fun us all k => k = m ∧ ∀ vs e k', Unary E vs m e k' →
      ∃ e', Unary E (us ++ vs) m e' k' ∧
        all.foldl (fun right (op, line) => Expr.unary op right line) e
          = read.foldl (fun right (op, line) => Expr.unary op right line) e' := by
  induction n generalizing ts read with
  | zero => exact derives_pure ⟨rfl, fun vs e k' it => ⟨e, it, rfl⟩⟩
  | succ n ih =>
    unfold signs
    refine .acceptAs? (fun t ts' op split means => ?_)
      (derives_pure ⟨rfl, fun vs e k' it => ⟨e, it, rfl⟩⟩)
    have sign : Sign t.kind op := by
      unfold UnaryOp.ofKind? at means
      split at means <;> cases means
      · next is => exact is ▸ .not
      · next is => exact is ▸ .negate
    refine (ih ((op, t.line) :: read)).mono ?_
    rintro us all k ⟨rfl, behind⟩
    refine ⟨rfl, fun vs e k' it => ?_⟩
    obtain ⟨e', derived, same⟩ := behind vs e k' it
    exact ⟨.unary op e' t.line, .sign sign derived, same⟩

theorem sound_unary (ended : last.kind.agrees .eof = true) (inner : Sound last n expr E) :
    Sound last (n + 1) (unary expr n) (Unary E) := by
  intro ts m few
  unfold unary
  refine (derives_signs (E := E) []).bind ?_
  rintro us ts₁ operators _ - le₁ ⟨rfl, signed⟩
  refine (sound_primary ended inner ts₁ _ (Nat.le_trans le₁ few)).bind ?_
  intro vs ts₂ operand k split le₂ begun
  have few' : ts₂.length ≤ n := by
    have pos := begun.pos
    have length := congrArg List.length split
    rw [List.length_append] at length
    omega
  refine (derives_suffixes inner few' (.primary begun)).returning fun ws e k' called => ?_
  obtain ⟨e', derived, same⟩ := signed (vs ++ ws) e k' (.call called)
  exact same ▸ derived

/-- The operators on a level complete the derivation of the operand before them. -/
theorem derives_chain {level : Level} {i b : Nat} (operates : Operates level i)
    {operand : Parser Expr} (inner : Sound last b operand (Infix E (i + 1))) (few : ts.length ≤ b)
    {us₀ : List Token} {n₀ : Nat} {left : Expr} (before : Infix E i us₀ n₀ left m) :
    Derives last ts m (chain level operand n left) fun us e k => Infix E i (us₀ ++ us) n₀ e k := by
  have complete : Infix E i (us₀ ++ []) n₀ left m := by rwa [List.append_nil]
  induction n generalizing m ts us₀ left with
  | zero => exact derives_pure complete
  | succ n ih =>
    unfold chain
    refine .acceptAs? (fun t ts' op split means => ?_) (derives_pure complete)
    have few' : ts'.length ≤ b := by
      rw [split, List.length_cons] at few
      omega
    refine (inner ts' m few').bind fun us ts₁ right k _ le derived => ?_
    have built := Infix.operator before (operates.of_some t.kind op means) derived
    refine (ih (Nat.le_trans le few') built ?_).mono fun vs e k' derived' => ?_
    · rwa [List.append_nil]
    · rwa [List.append_assoc] at derived'

theorem sound_level {level : Level} {tighter : List Level} {i b : Nat}
    (operates : Operates level i) (inner : Sound last b (levels expr n tighter) (Infix E (i + 1))) :
    Sound last b (levels expr n (level :: tighter)) (Infix E i) := by
  intro ts m few
  refine (inner ts m few).bind fun us ts' left k _ le derived => ?_
  exact derives_chain operates inner (Nat.le_trans le few) (.tighter derived)

theorem sound_levels (ended : last.kind.agrees .eof = true) (inner : Sound last n expr E) :
    Sound last (n + 1) (levels expr n Level.all) (Infix E 0) := by
  have sound₆ : Sound last (n + 1) (levels expr n []) (Infix E 6) := fun ts m few =>
    (sound_unary ended inner ts m few).mono fun us e k it => .unary it
  have sound₅ := sound_level operates_product sound₆
  have sound₄ := sound_level operates_sum sound₅
  have sound₃ := sound_level operates_comparison sound₄
  have sound₂ := sound_level operates_equality sound₃
  have sound₁ := sound_level operates_conjunction sound₂
  exact sound_level operates_disjunction sound₁

theorem sound_assignment (ended : last.kind.agrees .eof = true) (inner : Sound last n expr E) :
    Sound last (n + 1) (assignment expr n) (Assignment E) := by
  intro ts m few
  unfold assignment
  refine (sound_levels ended inner ts m few).bind fun us ts₁ target k _ le₁ derived => ?_
  refine .accept? rfl (fun q ts₂ split equals => ?_) (derives_pure ?_)
  · have few' : ts₂.length ≤ n := length_of_cons split (Nat.le_trans le₁ few)
    refine (inner ts₂ k few').bind fun vs ts₃ value k' _ _ assigned => ?_
    split
    · next whole assigns =>
      have call := derived.call_of_assigned assigns
      refine derives_pure ?_
      rw [List.append_nil]
      unfold assigned? at assigns
      split at assigns
      · cases assigns
        cases call with
        | primary it =>
          cases it with
          | «variable» word => exact .variable word equals assigned
      · cases assigns
        cases call with
        | primary it => cases it
        | get before dot property =>
          rw [List.append_assoc]
          exact .property before dot property equals assigned
      · cases assigns
    · exact derives_throw _
  · rw [List.append_nil]
    exact .plain derived

/-- Expressions are read as the grammar derives them. -/
theorem sound_expression (ended : last.kind.agrees .eof = true) (n : Nat) :
    Sound last n (expression n) Expression := by
  induction n with
  | zero => exact fun ts m few => derives_fail _
  | succ n ih =>
    exact fun ts m few => (sound_assignment ended ih ts m few).mono fun us e k it => .assignment it

end

/-! ## Statements -/

section

variable {expr : Parser Expr} {decl stmt : Parser Stmt} {D : Rule Stmt} {b : Nat}

theorem sound_name (what : String) : Sound last n (name what) Identifier :=
  fun _ _ _ => .expect rfl fun _ _ _ is => derives_pure (.intro is)

theorem derives_parameters (few : ts.length ≤ n) :
    Derives last ts m (parameters n) fun us all k => us = ts ∨ Listing Identifier us m all k := by
  unfold parameters
  refine .isAt fun none => ?_
  cases none with
  | true => exact derives_pure (.inr .none)
  | false =>
    rw [parametersAfter_eq]
    exact derives_items (sound_name _) few _

theorem derives_blockEnd (read : List Stmt) :
    Derives last ts m
      (do let _ ← expect (.punctuation .rightBrace) "'\x7d' after block"; return read.reverse)
      fun us all k => ∃ vs r as, us = vs ++ [r] ∧ r.kind = .punctuation .rightBrace ∧
        all = read.reverse ++ as ∧ Many D vs m as k :=
  .expect rfl fun r _ _ closing =>
    derives_pure ⟨[], r, [], rfl, closing, (List.append_nil _).symm, .nil⟩

theorem derives_blockAfter (inner : Sound last b decl D) (few : ts.length ≤ b)
    (read : List Stmt) :
    Derives last ts m (blockAfter decl n read) fun us all k => ∃ vs r as, us = vs ++ [r] ∧
      r.kind = .punctuation .rightBrace ∧ all = read.reverse ++ as ∧ Many D vs m as k := by
  induction n generalizing ts m read with
  | zero => exact derives_blockEnd read
  | succ n ih =>
    unfold blockAfter
    refine .isAt fun closed => .atEnd fun ended => ?_
    split
    · exact derives_blockEnd read
    · refine (inner ts m few).bind fun us ts' s k _ le derived => ?_
      refine (ih (Nat.le_trans le few) (s :: read)).mono ?_
      rintro _ all k' ⟨vs, r, as, rfl, closing, rfl, rest⟩
      refine ⟨us ++ vs, r, s :: as, (List.append_assoc us vs [r]).symm, closing, ?_, ?_⟩
      · rw [List.reverse_cons, List.append_assoc, List.singleton_append]
      · exact .cons derived rest

theorem derives_block (inner : Sound last b decl D) (few : ts.length ≤ b) :
    Derives last ts m (block decl n) fun us body k => ∃ vs r, us = vs ++ [r] ∧
      r.kind = .punctuation .rightBrace ∧ Many D vs m body k := by
  refine (derives_blockAfter inner few []).mono ?_
  rintro us body k ⟨vs, r, as, split, closing, rfl, rest⟩
  exact ⟨vs, r, split, closing, rest⟩

theorem sound_function (inner : Sound last n decl D) (what : String) :
    Sound last (n + 1) (function decl n what) (Function D) := by
  intro ts m few
  refine .name fun i ts₁ split₁ name => .expect rfl fun l ts₂ split₂ opening => ?_
  have few₂ : ts₂.length ≤ n := by
    rw [split₁, split₂, List.length_cons, List.length_cons] at few
    omega
  refine (derives_parameters few₂).bind fun us ts₃ params k split₃ le₃ read => ?_
  refine .closing split₃ read rfl fun parameters r ts₄ split₄ closing => ?_
  refine .expect rfl fun b ts₅ split₅ begins => ?_
  have few₅ : ts₅.length ≤ n := by
    rw [split₄, split₅, List.length_cons, List.length_cons] at le₃
    omega
  refine (derives_block inner few₅).returning ?_
  rintro _ body k' ⟨vs, z, rfl, ends, rest⟩
  exact .intro name opening parameters closing begins rest ends

theorem derives_methodsAfter (inner : Sound last n decl D) (few : ts.length ≤ n)
    (read : List FunctionDecl) :
    Derives last ts m (methodsAfter decl n read) fun us all k =>
      ∃ as, all = read.reverse ++ as ∧ Many (Function D) us m as k := by
  induction n generalizing ts m read with
  | zero => exact derives_pure ⟨[], (List.append_nil _).symm, .nil⟩
  | succ n ih =>
    have inner' := inner.mono (Nat.le_succ n)
    unfold methodsAfter
    refine .isAt fun closed => .atEnd fun ended => ?_
    split
    · exact derives_pure ⟨[], (List.append_nil _).symm, .nil⟩
    · refine (sound_function inner' "method" ts m few).bind fun us ts' f k split _ derived => ?_
      have few' : ts'.length ≤ n := by
        have pos := derived.pos
        rw [split, List.length_append] at few
        omega
      refine (ih inner' few' (f :: read)).mono ?_
      rintro vs all k' ⟨as, rfl, rest⟩
      refine ⟨f :: as, ?_, .cons derived rest⟩
      rw [List.reverse_cons, List.append_assoc, List.singleton_append]

theorem sound_superclass? : Sound last n superclass? (Maybe Parent) := by
  intro ts m few
  unfold superclass?
  refine .accept rfl (fun l ts₁ _ sign => .name fun i ts₂ _ name => ?_) (derives_pure .none)
  exact .freshId (derives_pure (.some (.intro sign name)))

theorem sound_initializer? (inner : Sound last n expr Expression) :
    Sound last (n + 1) (initializer? expr) (Maybe Initializer) := by
  intro ts m few
  unfold initializer?
  refine .accept rfl (fun q ts₁ split equals => ?_) (derives_pure .none)
  have few₁ : ts₁.length ≤ n := length_of_cons split few
  exact (inner ts₁ m few₁).returning fun us e k value => .some (.intro equals value)

theorem sound_optional (close : Punctuation) (inner : Sound last n expr Expression) :
    Sound last n (optional close expr) (Maybe Expression) := by
  intro ts m few
  unfold optional
  refine .isAt fun none => ?_
  cases none with
  | true => exact derives_pure .none
  | false => exact (inner ts m few).returning fun us e k value => .some value

/-- A variable declaration is one with its keyword before it. -/
theorem derives_varDeclaration (inner : Sound last n expr Expression) (few : ts.length ≤ n)
    {t : Token} (word : t.kind = .keyword .var) :
    Derives last ts m (varDeclaration expr) fun us s k => VarDeclaration (t :: us) m s k := by
  refine .name fun i ts₁ split₁ name => ?_
  have few₁ : ts₁.length ≤ n + 1 := by
    rw [split₁, List.length_cons] at few
    omega
  refine (sound_initializer? inner ts₁ m few₁).bind fun us ts₂ value k _ _ initializer => ?_
  exact .expect rfl fun z _ _ closing => derives_pure (.intro word name initializer closing)

theorem sound_expressionStatement (inner : Sound last n expr Expression) :
    Sound last n (expressionStatement expr) ExpressionStatement := by
  intro ts m few
  refine (inner ts m few).bind fun us ts' e k _ _ it => ?_
  exact .expect rfl fun z _ _ closing => derives_pure (.intro it closing)

theorem sound_forInitializer (inner : Sound last n expr Expression) :
    Sound last n (forInitializer expr) ForInitializer := by
  intro ts m few
  unfold forInitializer
  refine .accept rfl (fun z _ _ closing => derives_pure (.none closing)) ?_
  refine .accept rfl (fun t ts₁ split word => ?_) ?_
  · have few₁ : ts₁.length ≤ n := length_of_cons split (Nat.le_succ_of_le few)
    exact (derives_varDeclaration inner few₁ word).returning fun us s k it => .var it
  · exact (sound_expressionStatement inner ts m few).returning fun us s k it => .expression it

variable {t : Token}

theorem derives_ifStatement (ofExpr : Sound last n expr Expression)
    (ofStmt : Sound last n stmt (AnyStatement False)) (few : ts.length ≤ n)
    (word : t.kind = .keyword .if) :
    Derives last ts m (ifStatement expr stmt) fun us s k => AnyStatement False (t :: us) m s k := by
  refine .expect rfl fun l ts₁ split₁ opening => ?_
  have le₁ : ts₁.length ≤ n := length_of_cons split₁ (Nat.le_succ_of_le few)
  refine (ofExpr ts₁ m le₁).bind fun us ts₂ condition k₁ _ le₂ test => ?_
  refine .expect rfl fun r ts₃ split₃ closing => ?_
  have le₃ : ts₃.length ≤ n := length_of_cons split₃ (Nat.le_succ_of_le (Nat.le_trans le₂ le₁))
  refine (ofStmt ts₃ k₁ le₃).bind ?_
  rintro vs ts₄ thenBranch k₂ - le₄ ⟨isOpen, inner⟩
  refine .accept rfl (fun w ts₅ split₅ otherwise => ?_) (derives_pure ⟨true, ?_⟩)
  · have le₅ : ts₅.length ≤ n := length_of_cons split₅ (Nat.le_succ_of_le (Nat.le_trans le₄ le₃))
    refine (ofStmt ts₅ k₂ le₅).returning ?_
    rintro ws elseBranch k₃ ⟨isOpen', inner'⟩
    exact ⟨isOpen', .ifElse word opening test closing inner nofun otherwise inner'⟩
  · rw [List.append_nil]
    exact .if word opening test closing inner

theorem derives_whileStatement (ofExpr : Sound last n expr Expression)
    (ofStmt : Sound last n stmt (AnyStatement False)) (few : ts.length ≤ n)
    (word : t.kind = .keyword .while) :
    Derives last ts m (whileStatement expr stmt) fun us s k =>
      AnyStatement False (t :: us) m s k := by
  refine .expect rfl fun l ts₁ split₁ opening => ?_
  have le₁ : ts₁.length ≤ n := length_of_cons split₁ (Nat.le_succ_of_le few)
  refine (ofExpr ts₁ m le₁).bind fun us ts₂ condition k₁ _ le₂ test => ?_
  refine .expect rfl fun r ts₃ split₃ closing => ?_
  have le₃ : ts₃.length ≤ n := length_of_cons split₃ (Nat.le_succ_of_le (Nat.le_trans le₂ le₁))
  refine (ofStmt ts₃ k₁ le₃).returning ?_
  rintro vs body k₂ ⟨isOpen, inner⟩
  exact ⟨isOpen, .while word opening test closing inner⟩

theorem derives_forStatement (ofExpr : Sound last n expr Expression)
    (ofStmt : Sound last n stmt (AnyStatement False)) (few : ts.length ≤ n)
    (word : t.kind = .keyword .for) :
    Derives last ts m (forStatement expr stmt) fun us s k =>
      AnyStatement False (t :: us) m s k := by
  refine .expect rfl fun l ts₁ split₁ opening => ?_
  have le₁ : ts₁.length ≤ n := length_of_cons split₁ (Nat.le_succ_of_le few)
  refine (sound_forInitializer ofExpr ts₁ m le₁).bind fun us ts₂ initializer k₁ _ le₂ first => ?_
  have few₂ := Nat.le_trans le₂ le₁
  refine (sound_optional _ ofExpr ts₂ k₁ few₂).bind fun vs ts₃ condition k₂ _ le₃ test => ?_
  refine .expect rfl fun z ts₄ split₄ semicolon => ?_
  have le₄ : ts₄.length ≤ n :=
    length_of_cons split₄ (Nat.le_succ_of_le (Nat.le_trans le₃ few₂))
  refine (sound_optional _ ofExpr ts₄ k₂ le₄).bind fun ws ts₅ increment k₃ _ le₅ step => ?_
  refine .expect rfl fun r ts₆ split₆ closing => ?_
  have le₆ : ts₆.length ≤ n :=
    length_of_cons split₆ (Nat.le_succ_of_le (Nat.le_trans le₅ le₄))
  refine (ofStmt ts₆ k₃ le₆).returning ?_
  rintro xs body k₄ ⟨isOpen, inner⟩
  exact ⟨isOpen, .for word opening first test semicolon step closing inner⟩

/-- A statement reads as one of the forms, whose keyword or brace has been passed. -/
theorem sound_statementOf (ended : last.kind.agrees .eof = true)
    (ofDecl : Sound last n decl (Declaration False))
    (ofStmt : Sound last n stmt (AnyStatement False)) :
    Sound last (n + 1) (statementOf decl stmt n) (AnyStatement False) := by
  intro ts m few
  have ofExpr := sound_expression ended n
  unfold statementOf
  refine .peek ?_
  refine .accept rfl (fun t ts' split word => ?_) ?_
  · exact derives_forStatement ofExpr ofStmt (length_of_cons split few) word
  refine .accept rfl (fun t ts' split word => ?_) ?_
  · exact derives_ifStatement ofExpr ofStmt (length_of_cons split few) word
  refine .accept rfl (fun t ts' split word => ?_) ?_
  · exact derives_whileStatement ofExpr ofStmt (length_of_cons split few) word
  refine .accept rfl (fun t ts' split word => ?_) ?_
  · subst split
    refine (sound_optional _ ofExpr ts' m (length_of_cons rfl few)).bind ?_
    intro us ts₁ value k _ _ result
    exact .expect rfl fun z _ _ closing => derives_pure ⟨false, .return word result closing⟩
  refine .accept rfl (fun l ts' split opening => ?_) ?_
  · refine (derives_block ofDecl (length_of_cons split few)).returning ?_
    rintro _ body k ⟨vs, r, rfl, closing, inner⟩
    exact ⟨false, .block opening inner closing⟩
  refine .accept rfl (fun t ts' split word => ?_) ?_
  · refine (ofExpr ts' m (length_of_cons split few)).bind fun us ts₁ e k _ _ value => ?_
    exact .expect rfl fun z _ _ closing => derives_pure ⟨false, .print word value closing⟩
  · refine (sound_expressionStatement (sound_expression ended (n + 1)) ts m few).mono ?_
    exact fun us s k it => ⟨false, .expression it⟩

theorem derives_classDeclaration (ofDecl : Sound last n decl (Declaration False))
    (few : ts.length ≤ n) (word : t.kind = .keyword .class) :
    Derives last ts m (classDeclaration decl n) fun us s k =>
      Declaration False (t :: us) m s k := by
  refine .name fun i ts₁ split₁ name => ?_
  have le₁ : ts₁.length ≤ n := length_of_cons split₁ (Nat.le_succ_of_le few)
  refine (sound_superclass? ts₁ m le₁).bind fun us ts₂ superclass k _ le₂ parent => ?_
  refine .expect rfl fun l ts₃ split₃ opening => ?_
  have le₃ : ts₃.length ≤ n :=
    length_of_cons split₃ (Nat.le_succ_of_le (Nat.le_trans le₂ le₁))
  refine (derives_methodsAfter ofDecl le₃ []).bind ?_
  rintro vs ts₄ _ k' - - ⟨methods, rfl, inner⟩
  refine .expect rfl fun r _ _ closing => derives_pure ?_
  exact .class word name parent opening inner closing

theorem sound_declarationOf (ended : last.kind.agrees .eof = true)
    (ofDecl : Sound last n decl (Declaration False))
    (ofStmt : Sound last n stmt (AnyStatement False)) :
    Sound last (n + 1) (declarationOf decl stmt n) (Declaration False) := by
  intro ts m few
  -- A declaration that is read has not been recovered from.
  suffices plain : Derives last ts m _ _ from
    fun s c ok => plain s c ((recovering_ok_iff _ _ s c).mp ok)
  refine .accept rfl (fun t ts' split word => ?_) ?_
  · exact derives_classDeclaration ofDecl (length_of_cons split few) word
  refine .accept rfl (fun t ts' split word => ?_) ?_
  · have few' : ts'.length ≤ n + 1 := Nat.le_succ_of_le (length_of_cons split few)
    exact (sound_function ofDecl _ ts' m few').returning fun us f k it => .function word it
  refine .accept rfl (fun t ts' split word => ?_) ?_
  · have few' := length_of_cons split few
    refine (derives_varDeclaration (sound_expression ended n) few' word).mono ?_
    exact fun us s k it => .var it
  · refine (sound_statementOf ended ofDecl ofStmt ts m few).mono ?_
    rintro us s k ⟨isOpen, it⟩
    exact .statement it

/-- **Soundness.** Statements and declarations are read as the grammar derives them. -/
theorem sound_statement_declaration (ended : last.kind.agrees .eof = true) (n : Nat) :
    Sound last n (statement n) (AnyStatement False) ∧
      Sound last n (declaration n) (Declaration False) := by
  induction n with
  | zero =>
    refine ⟨fun ts m few => derives_fail _, fun ts m few s c ok => ?_⟩
    exact derives_fail _ s c ((recovering_ok_iff _ _ s c).mp ok)
  | succ n ih =>
    exact ⟨sound_statementOf ended ih.2 ih.1, sound_declarationOf ended ih.2 ih.1⟩

end

end Parser

end Lox
