import Lox.Proofs.Grammar.Soundness

/-!
# What is derived is read

The parser is evaluated on a derivation, token by token. It never looks further ahead than one
token, so two facts about single tokens carry the proof: with which token a derivation begins, and
which tokens may stand behind it without being read as more of it.

The levels of operators and the calls behind an expression are derived from the left and read by
loops. What is shown of them is that the loop, begun before a derivation, has come behind it with
the tree of the derivation, with a bound that is reduced by no more than the number of tokens passed.
-/

set_option autoImplicit false

namespace Lox

open Grammar

/-! ## First tokens and what may follow -/

namespace Grammar

variable {E : Rule Expr} {us ts : List Token} {n m i : Nat} {e : Expr}

/-- Whether a token is the first of an expression. -/
def beginsExpression (kind : Kind) : Bool :=
  Parser.beginsPrimary kind || (UnaryOp.ofKind? kind).isSome

theorem Sign.means {kind : Kind} {op : UnaryOp} (sign : Sign kind op) :
    UnaryOp.ofKind? kind = some op := by
  cases sign <;> rfl

theorem Sign.unended {kind : Kind} {op : UnaryOp} (sign : Sign kind op) :
    kind.agrees .eof = false := by
  cases sign <;> rfl

theorem Operator.unended {kind : Kind} {op : InfixOp} (sign : Operator i kind op) :
    kind.agrees .eof = false := by
  cases sign <;> rfl

theorem Primary.first (it : Primary E us n e m) :
    ∃ t rest, us = t :: rest ∧ Parser.beginsPrimary t.kind = Bool.true := by
  cases it with
  | number word | string word | true word | false word | nil word | this word | «variable» word
  | super word _ _ | grouping word _ _ =>
    refine ⟨_, _, rfl, ?_⟩
    rw [word]
    rfl

theorem Call.first (it : Call E us n e m) :
    ∃ t rest, us = t :: rest ∧ Parser.beginsPrimary t.kind = true := by
  induction it with
  | primary it => exact it.first
  | call _ _ _ _ ih | get _ _ _ ih =>
    obtain ⟨t, rest, rfl, begins⟩ := ih
    exact ⟨t, _, rfl, begins⟩

theorem Unary.first (it : Unary E us n e m) :
    ∃ t rest, us = t :: rest ∧ beginsExpression t.kind = true := by
  cases it with
  | call it =>
    obtain ⟨t, rest, split, begins⟩ := it.first
    exact ⟨t, rest, split, (congrArg (· || _) begins).trans (Bool.true_or _)⟩
  | sign sign _ =>
    refine ⟨_, _, rfl, ?_⟩
    unfold beginsExpression
    rw [sign.means]
    exact Bool.or_true _

theorem Unary.pos (it : Unary E us n e m) : 0 < us.length := by
  obtain ⟨t, rest, rfl, -⟩ := it.first
  exact Nat.succ_pos _

theorem Infix.first (it : Infix E i us n e m) :
    ∃ t rest, us = t :: rest ∧ beginsExpression t.kind = true := by
  induction it with
  | unary it => exact it.first
  | tighter _ ih => exact ih
  | operator _ _ _ ih _ =>
    obtain ⟨t, rest, rfl, begins⟩ := ih
    exact ⟨t, _, rfl, begins⟩

theorem Infix.pos (it : Infix E i us n e m) : 0 < us.length := by
  obtain ⟨t, rest, rfl, -⟩ := it.first
  exact Nat.succ_pos _

theorem Expression.first (it : Expression us n e m) :
    ∃ t rest, us = t :: rest ∧ beginsExpression t.kind = true := by
  obtain ⟨it⟩ := it
  cases it with
  | plain it => exact it.first
  | «variable» target _ _ =>
    refine ⟨_, _, rfl, ?_⟩
    rw [target]
    rfl
  | property before _ _ _ _ =>
    obtain ⟨t, rest, rfl, begins⟩ := before.first
    exact ⟨t, _, rfl, (congrArg (· || _) begins).trans (Bool.true_or _)⟩

theorem Expression.pos (it : Expression us n e m) : 0 < us.length := by
  obtain ⟨t, rest, rfl, -⟩ := it.first
  exact Nat.succ_pos _

/-- The tokens that are read as more of an operand on a level: calls, properties and the operators
on this level and tighter ones. -/
inductive Continues (i : Nat) : Kind → Prop
  | call : Continues i (.punctuation .leftParen)
  | get : Continues i (.punctuation .dot)
  | operator {j : Nat} {kind : Kind} {op : InfixOp} (sign : Operator j kind op) (le : i ≤ j) :
      Continues i kind

/-- The next token, if there is one, does not continue an operand on a level. -/
def Stops (i : Nat) (ts : List Token) : Prop :=
  ∀ t ∈ ts.head?, ¬ Continues i t.kind

/-- The marks that stand behind an expression. -/
inductive ClosingMark : Kind → Prop
  | rightParen : ClosingMark (.punctuation .rightParen)
  | comma : ClosingMark (.punctuation .comma)
  | semicolon : ClosingMark (.punctuation .semicolon)

/-- The next token is a mark that stands behind an expression. -/
def Closed (ts : List Token) : Prop :=
  ∃ t rest, ts = t :: rest ∧ ClosingMark t.kind

theorem Closed.of_semicolon {z : Token}
    (closing : z.kind = .punctuation .semicolon) : Closed (z :: ts) :=
  ⟨z, ts, rfl, closing ▸ .semicolon⟩

theorem Closed.of_rightParen {r : Token}
    (closing : r.kind = .punctuation .rightParen) : Closed (r :: ts) :=
  ⟨r, ts, rfl, closing ▸ .rightParen⟩

/-- What begins an expression is of no kind that begins none. -/
theorem beginsExpression_ne {t : Token} {word : Kind} (begins : beginsExpression t.kind = true)
    (other : beginsExpression word = false) : ∀ t' ∈ (t :: ts).head?, t'.kind ≠ word := by
  rintro _ ⟨⟩ same
  rw [same, other] at begins
  cases begins

/-- Whether a token is the first of a statement. -/
def opensStatement : Kind → Bool
  | .keyword .for | .keyword .if | .keyword .while | .keyword .return | .keyword .print => true
  | .punctuation .leftBrace => true
  | kind => beginsExpression kind

/-- Whether a token is the first of a declaration. -/
def beginsDeclaration : Kind → Bool
  | .keyword .class | .keyword .fun | .keyword .var => true
  | kind => opensStatement kind

theorem opensStatement_of_expression {kind : Kind} (begins : beginsExpression kind = true) :
    opensStatement kind = true := by
  unfold opensStatement
  split <;> first | rfl | exact begins

theorem beginsDeclaration_of_statement {kind : Kind} (opens : opensStatement kind = true) :
    beginsDeclaration kind = true := by
  unfold beginsDeclaration
  split <;> first | rfl | exact opens

theorem ExpressionStatement.first {s : Stmt} (it : ExpressionStatement us n s m) :
    ∃ t rest, us = t :: rest ∧ beginsExpression t.kind = true := by
  obtain ⟨it, closing⟩ := it
  obtain ⟨t, rest, rfl, begins⟩ := it.first
  exact ⟨t, _, rfl, begins⟩

theorem VarDeclaration.first {s : Stmt} (it : VarDeclaration us n s m) :
    ∃ t rest, us = t :: rest ∧ t.kind = .keyword .var := by
  cases it with
  | intro word _ _ _ => exact ⟨_, _, rfl, word⟩

theorem Statement.first {nearest : Prop} {isOpen : Bool} {s : Stmt}
    (it : Statement nearest isOpen us n s m) :
    ∃ t rest, us = t :: rest ∧ opensStatement t.kind = true := by
  cases it with
  | expression it =>
    obtain ⟨t, rest, split, begins⟩ := it.first
    exact ⟨t, rest, split, opensStatement_of_expression begins⟩
  | print word | «while» word | «for» word | «if» word | ifElse word | block word | «return» word =>
    refine ⟨_, _, rfl, ?_⟩
    rw [word]
    rfl

theorem Declaration.first {nearest : Prop} {s : Stmt} (it : Declaration nearest us n s m) :
    ∃ t rest, us = t :: rest ∧ beginsDeclaration t.kind = true := by
  cases it with
  | «class» word | function word =>
    refine ⟨_, _, rfl, ?_⟩
    rw [word]
    rfl
  | var it =>
    obtain ⟨t, rest, split, word⟩ := it.first
    exact ⟨t, rest, split, word ▸ rfl⟩
  | statement it =>
    obtain ⟨t, rest, split, opens⟩ := it.first
    exact ⟨t, rest, split, beginsDeclaration_of_statement opens⟩

theorem Declaration.pos {nearest : Prop} {s : Stmt} (it : Declaration nearest us n s m) :
    0 < us.length := by
  obtain ⟨t, rest, rfl, -⟩ := it.first
  exact Nat.succ_pos _

/-- What opens a statement is of no kind that opens none. -/
theorem opensStatement_ne {t : Token} {word : Kind} (opens : opensStatement t.kind = true)
    (other : opensStatement word = false) : ∀ t' ∈ (t :: ts).head?, t'.kind ≠ word := by
  rintro _ ⟨⟩ same
  rw [same, other] at opens
  cases opens

/-- What begins a declaration is of no kind that begins none. -/
theorem beginsDeclaration_ne {t : Token} {word : Kind} (begins : beginsDeclaration t.kind = true)
    (other : beginsDeclaration word = false) : ∀ t' ∈ (t :: ts).head?, t'.kind ≠ word := by
  rintro _ ⟨⟩ same
  rw [same, other] at begins
  cases begins

theorem unended_of_beginsDeclaration {kind : Kind} (begins : beginsDeclaration kind = true) :
    kind.agrees .eof = false := by
  cases kind with
  | eof => cases begins
  | punctuation | keyword | identifier | string | number => rfl

theorem Continues.looser {kind : Kind} (continues : Continues (i + 1) kind) : Continues i kind := by
  cases continues with
  | call => exact .call
  | get => exact .get
  | operator sign le => exact .operator sign (Nat.le_of_succ_le le)

theorem Stops.tighter (stops : Stops i ts) : Stops (i + 1) ts :=
  fun t member continues => stops t member continues.looser

/-- An operator stands behind operands that bind tighter. -/
theorem Operator.stops {t : Token} {op : InfixOp} (sign : Operator i t.kind op) :
    Stops (i + 1) (t :: ts) := by
  rintro _ ⟨⟩ continues
  revert sign continues
  generalize t.kind = kind
  rintro sign (_ | _ | ⟨sign', le⟩)
  · cases sign
  · cases sign
  · cases sign <;> cases sign' <;> omega

theorem Closed.stops (closed : Closed ts) : Stops 0 ts := by
  obtain ⟨t, rest, rfl, closes⟩ := closed
  rintro _ ⟨⟩ continues
  revert closes continues
  generalize t.kind = kind
  rintro closes (_ | _ | ⟨sign, le⟩)
  · cases closes
  · cases closes
  · cases closes <;> cases sign

/-- Behind all levels stands `unary`. -/
theorem Infix.le_six (it : Infix E i us n e m) : i ≤ 6 := by
  induction it with
  | unary _ => exact Nat.le_refl 6
  | tighter _ ih => exact Nat.le_of_succ_le ih
  | operator _ _ _ ih _ => exact ih

theorem Infix.unary_of_six (it : Infix E 6 us n e m) : Unary E us n e m := by
  cases it with
  | unary it => exact it
  | tighter it => exact absurd it.le_six (by decide)
  | operator _ sign _ => cases sign

end Grammar

namespace Parser

open Cursor

variable {last : Token} {m n k b : Nat}

theorem Takes.mono {α : Type} {b b' : Nat} {follows : List Token → Prop} {p : Parser α}
    {rule : Rule α} (takes : Takes last b follows p rule) (le : b' ≤ b) :
    Takes last b' follows p rule :=
  fun us n a m it few => takes us n a m it (Nat.le_trans few le)

/-! ## Lists -/

section

variable {α : Type} {item : Parser α} {I : Rule α} {us : List Token} {as : List α}

/-- The items of a list are read up to its closing parenthesis. -/
theorem itemsAfter_of_separated (inner : Takes last b Closed item I)
    (pos : ∀ us n a m, I us n a m → 0 < us.length) (it : Separated I us m as k)
    (few : us.length ≤ b) (turns : us.length ≤ n) (many : SyntaxError.Cause) (read : List α)
    (short : read.length + as.length ≤ maxArity) {r : Token} (ts : List Token)
    (closing : r.kind = .punctuation .rightParen) :
    itemsAfter many item n read (before (us ++ r :: ts) last m)
      = .ok (read.reverse ++ as) (before (r :: ts) last k) := by
  induction it generalizing n read with
  | @one _ _ _ a it =>
    obtain ⟨n, rfl⟩ := Nat.exists_eq_add_one.mpr (Nat.lt_of_lt_of_le (pos _ _ _ _ it) turns)
    have room : ¬ maxArity ≤ read.length := by
      rw [List.length_singleton] at short
      omega
    have closed : Closed (r :: ts) := ⟨r, ts, rfl, closing ▸ .rightParen⟩
    unfold itemsAfter
    rw [if_neg room, bind_of_ok (inner _ _ _ _ it few _ closed),
      accept_else (.punctuation .comma) rfl (head_ne closing rfl),
      List.reverse_cons]
    rfl
  | @more us vs comma _ _ _ a as first separated rest ih =>
    rw [List.length_append, List.length_cons] at few turns
    rw [List.length_cons] at short
    obtain ⟨n, rfl⟩ := Nat.exists_eq_add_one.mpr (show 0 < n by omega)
    have room : ¬ maxArity ≤ read.length := by omega
    have closed : Closed (comma :: (vs ++ r :: ts)) := ⟨comma, _, rfl, separated ▸ .comma⟩
    unfold itemsAfter
    rw [List.append_assoc, List.cons_append, if_neg room,
      bind_of_ok (inner _ _ _ _ first (by omega) _ closed),
      accept_then rfl separated,
      ih (by omega) (by omega) (a :: read) (by rw [List.length_cons]; omega),
      List.reverse_cons, List.append_assoc, List.singleton_append]

end

/-! ## Expressions -/

section

variable {expr : Parser Expr} {us : List Token} {e : Expr}

theorem arguments_of_listing (inner : Takes last b Closed expr Expression) {all : List Expr}
    (it : Listing Expression us m all k) (few : us.length ≤ b) (turns : us.length ≤ n) {r : Token}
    (ts : List Token) (closing : r.kind = .punctuation .rightParen) :
    arguments expr n (before (us ++ r :: ts) last m) = .ok all (before (r :: ts) last k) := by
  unfold arguments
  cases it with
  | none => exact bind_of_ok (isAt_here rfl closing)
  | some items short =>
    have first : ∀ t ∈ (us ++ r :: ts).head?, t.kind ≠ .punctuation .rightParen := by
      have begins : ∃ t rest, us = t :: rest ∧ beginsExpression t.kind = true := by
        cases items with
        | one it => exact it.first
        | more first _ _ =>
          obtain ⟨t, rest, rfl, begins⟩ := first.first
          exact ⟨t, _, rfl, begins⟩
      obtain ⟨t, rest, rfl, begins⟩ := begins
      exact beginsExpression_ne begins rfl
    rw [bind_of_ok (isAt_elsewhere _ rfl first), if_neg Bool.false_ne_true, argumentsAfter_eq,
      itemsAfter_of_separated inner (fun _ _ _ _ => Expression.pos) items few turns _ []
        (by rw [List.length_nil, Nat.zero_add]; exact short) ts closing]
    rfl

theorem takes_primary (inner : Takes last n Closed expr Expression) :
    Takes last (n + 1) (fun _ => True) (primary expr) (Primary Expression) := by
  intro us m e k it few ts _
  have begins : ∃ t rest, us = t :: rest ∧ beginsPrimary t.kind = true := it.first
  obtain ⟨t, rest, rfl, begins⟩ := begins
  rw [List.cons_append, primary_before begins]
  unfold primaryAfter
  cases it with
  | number word | string word | true word | false word | nil word => rw [word]; rfl
  | this word | «variable» word =>
    rw [word]
    exact bind_of_ok freshId_before
  | grouping opening it closing =>
    rw [List.length_cons, List.length_append] at few
    rw [opening]
    dsimp only
    rw [List.append_assoc, List.singleton_append,
      bind_of_ok (inner _ _ _ _ it (by omega) _ ⟨_, _, rfl, closing ▸ .rightParen⟩),
      bind_of_ok (expect_of_eq rfl closing _)]
    rfl
  | super word dot method =>
    rw [word]
    dsimp only
    rw [List.cons_append, bind_of_ok (expect_of_eq rfl dot _), List.cons_append,
      bind_of_ok (name_of_eq method _), bind_of_ok freshId_before]
    rfl

/-- The loop over calls, begun behind the primary expression, comes behind all of them. -/
theorem suffixes_of_call (inner : Takes last n Closed expr Expression)
    (it : Call Expression us m e k) (few : us.length ≤ n + 1) (ts : List Token) :
    ∃ j, n + 1 ≤ j + us.length ∧
      (primary expr >>= suffixes expr n) (before (us ++ ts) last m)
        = suffixes expr j e (before ts last k) := by
  induction it generalizing ts with
  | primary it =>
    have pos := it.pos
    exact ⟨n, by omega, bind_of_ok (takes_primary inner _ _ _ _ it few ts trivial)⟩
  | @call us vs l r _ _ _ callee values before opening list closing ih =>
    rw [List.length_append, List.length_cons, List.length_append, List.length_singleton] at few
    obtain ⟨j, enough, come⟩ := ih (by omega) (l :: (vs ++ r :: ts))
    obtain ⟨j, rfl⟩ := Nat.exists_eq_add_one.mpr (show 0 < j by omega)
    refine ⟨j, ?_, ?_⟩
    · rw [List.length_append, List.length_cons, List.length_append, List.length_singleton]
      omega
    · rw [List.append_assoc, List.cons_append, List.append_assoc, List.singleton_append, come]
      rw [suffixes, accept_then rfl opening,
        bind_of_ok (arguments_of_listing inner list (by omega) (by omega) ts closing),
        bind_of_ok (expect_of_eq rfl closing _)]
  | @get us d i _ _ object before dot property ih =>
    rw [List.length_append, List.length_cons, List.length_singleton] at few
    obtain ⟨j, enough, come⟩ := ih (by omega) (d :: i :: ts)
    obtain ⟨j, rfl⟩ := Nat.exists_eq_add_one.mpr (show 0 < j by omega)
    refine ⟨j, ?_, ?_⟩
    · rw [List.length_append, List.length_cons, List.length_singleton]
      omega
    · rw [List.append_assoc, List.cons_append, List.singleton_append, come, suffixes,
        accept_else (.punctuation .leftParen) rfl (head_ne dot rfl),
        accept_then rfl dot, bind_of_ok (name_of_eq property _)]

/-- The loop over calls ends where none follows. -/
theorem suffixes_of_stops {ts : List Token} (stops : Stops 6 ts) :
    suffixes expr n e (before ts last m) = .ok e (before ts last m) := by
  have elsewhere (kind : Kind) (continues : Continues 6 kind) : ∀ t ∈ ts.head?, t.kind ≠ kind :=
    fun t member same => stops t member (same ▸ continues)
  cases n with
  | zero => rfl
  | succ n =>
    rw [suffixes, accept_else _ rfl (elsewhere _ .call),
      accept_else _ rfl (elsewhere _ .get)]
    rfl

/-- No sign is read before a primary expression. -/
theorem signs_of_begins {t : Token} (begins : beginsPrimary t.kind = true) {j : Nat}
    (read : List (UnaryOp × Nat)) (ts : List Token) :
    signs j read (before (t :: ts) last m) = .ok read (before (t :: ts) last m) := by
  have unsigned : UnaryOp.ofKind? t.kind = none := by
    unfold UnaryOp.ofKind?
    split
    · next is =>
      rw [is] at begins
      cases begins
    · next is =>
      rw [is] at begins
      cases begins
    · rfl
  cases j with
  | zero => rfl
  | succ j =>
    have none : ∀ t' ∈ (t :: ts).head?, UnaryOp.ofKind? t'.kind = none := by
      rintro _ ⟨⟩
      exact unsigned
    rw [signs, bind_of_ok (acceptAs?_of_none none)]
    rfl

/-- The signs before an operand are read with it, and put before what the operand becomes. -/
theorem unary_of_signs (inner : Takes last n Closed expr Expression)
    (it : Unary Expression us m e k) (few : us.length ≤ n + 1) {j : Nat}
    (turns : us.length ≤ j + 1) (read : List (UnaryOp × Nat)) {ts : List Token}
    (stops : Stops 6 ts) :
    (do
      let operators ← signs j read
      let operand ← primary expr
      let operand ← suffixes expr n operand
      return operators.foldl (fun right (op, line) => Expr.unary op right line) operand)
      (before (us ++ ts) last m)
      = .ok (read.foldl (fun right (op, line) => Expr.unary op right line) e)
          (before ts last k) := by
  induction it generalizing j read with
  | @call us _ _ e it =>
    obtain ⟨i, -, come⟩ := suffixes_of_call inner it few ts
    obtain ⟨t, rest, rfl, begins⟩ := it.first
    rw [List.cons_append, bind_of_ok (signs_of_begins begins read _)]
    rw [List.cons_append, suffixes_of_stops stops] at come
    obtain ⟨operand, c, first, come⟩ := bind_ok come
    rw [bind_of_ok first, bind_of_ok come]
    rfl
  | @sign t us _ _ op e sign operand ih =>
    rw [List.length_cons] at few turns
    have pos := operand.pos
    obtain ⟨j, rfl⟩ := Nat.exists_eq_add_one.mpr (show 0 < j by omega)
    have here := ih (Nat.le_of_succ_le few) (Nat.le_of_succ_le_succ turns) ((op, t.line) :: read)
    rw [List.cons_append, signs, bind_assoc,
      bind_of_ok (acceptAs?_of_some sign.unended sign.means)]
    exact here

theorem takes_unary (inner : Takes last n Closed expr Expression) :
    Takes last (n + 1) (Stops 6) (unary expr n) (Unary Expression) :=
  fun _ _ _ _ it few _ stops => unary_of_signs inner it few few [] stops

section

variable {level : Level} {tighter : List Level} {i : Nat}

/-- The loop over the operators on a level, begun before a derivation, comes behind it. -/
theorem chain_of_infix (operates : Operates level i)
    (operand : Takes last (n + 1) (Stops (i + 1)) (levels expr n tighter)
      (Infix Expression (i + 1)))
    (it : Infix Expression i us m e k) (le : i < 6) (few : us.length ≤ n + 1) {ts : List Token}
    (stops : Stops (i + 1) ts) :
    ∃ j, n + 1 ≤ j + us.length ∧ levels expr n (level :: tighter) (before (us ++ ts) last m)
      = chain level (levels expr n tighter) j e (before ts last k) := by
  induction it generalizing ts with
  | unary it => exact absurd le (Nat.lt_irrefl 6)
  | tighter it =>
    have pos := it.pos
    exact ⟨n, by omega, bind_of_ok (operand _ _ _ _ it few ts stops)⟩
  | @operator i us vs t _ _ _ op left right before sign it ih =>
    rw [List.length_append, List.length_cons] at few
    obtain ⟨j, enough, come⟩ := ih operates operand le (by omega) sign.stops
    obtain ⟨j, rfl⟩ := Nat.exists_eq_add_one.mpr (show 0 < j by omega)
    refine ⟨j, ?_, ?_⟩
    · rw [List.length_append, List.length_cons]
      omega
    · rw [List.append_assoc, List.cons_append, come, chain,
        bind_of_ok (acceptAs?_of_some sign.unended (operates.to_some _ _ sign))]
      dsimp only
      rw [bind_of_ok (operand _ _ _ _ it (by omega) ts stops)]

/-- The loop over the operators on a level ends where none follows. -/
theorem chain_of_stops (operates : Operates level i) {operand : Parser Expr} {ts : List Token}
    (stops : Stops i ts) :
    chain level operand n e (before ts last m) = .ok e (before ts last m) := by
  have none : ∀ t ∈ ts.head?, level t.kind = none := by
    intro t member
    cases means : level t.kind with
    | none => rfl
    | some op =>
      have sign := operates.of_some t.kind op means
      exact absurd (.operator sign (Nat.le_refl i)) (stops t member)
  cases n with
  | zero => rfl
  | succ n =>
    rw [chain, bind_of_ok (acceptAs?_of_none none)]
    rfl

theorem takes_level (operates : Operates level i) (le : i < 6)
    (operand : Takes last (n + 1) (Stops (i + 1)) (levels expr n tighter)
      (Infix Expression (i + 1))) :
    Takes last (n + 1) (Stops i) (levels expr n (level :: tighter)) (Infix Expression i) := by
  intro us m e k it few ts stops
  obtain ⟨j, -, come⟩ := chain_of_infix operates operand it le few stops.tighter
  rw [come, chain_of_stops operates stops]

end

theorem takes_levels (inner : Takes last n Closed expr Expression) :
    Takes last (n + 1) (Stops 0) (levels expr n Level.all) (Infix Expression 0) := by
  have takes₆ : Takes last (n + 1) (Stops 6) (levels expr n []) (Infix Expression 6) :=
    fun us m e k it few ts stops => takes_unary inner us m e k it.unary_of_six few ts stops
  have takes₅ := takes_level operates_product (by decide) takes₆
  have takes₄ := takes_level operates_sum (by decide) takes₅
  have takes₃ := takes_level operates_comparison (by decide) takes₄
  have takes₂ := takes_level operates_equality (by decide) takes₃
  have takes₁ := takes_level operates_conjunction (by decide) takes₂
  exact takes_level operates_disjunction (by decide) takes₁

theorem Infix.of_call {E : Rule Expr} (it : Call E us m e k) : Infix E 0 us m e k := by
  have it₆ : Infix E 6 us m e k := .unary (.call it)
  exact .tighter (.tighter (.tighter (.tighter (.tighter (.tighter it₆)))))

theorem takes_assignment (inner : Takes last n Closed expr Expression) :
    Takes last (n + 1) Closed (assignment expr n) (Assignment Expression) := by
  intro us m e k it few ts closed
  -- An equals sign does not continue what stands before it.
  have equals_stops {q : Token} {ts : List Token} (equals : q.kind = .punctuation .equal) :
      Stops 0 (q :: ts) := by
    rintro _ ⟨⟩ continues
    rw [equals] at continues
    cases continues with
    | operator sign _ => cases sign
  unfold assignment
  cases it with
  | plain it =>
    have other : ∀ t ∈ ts.head?, t.kind ≠ .punctuation .equal := by
      obtain ⟨t, rest, rfl, closes⟩ := closed
      rintro _ ⟨⟩ equals
      rw [equals] at closes
      cases closes
    rw [bind_of_ok (takes_levels inner _ _ _ _ it few ts closed.stops),
      bind_of_ok (accept?_of_ne _ rfl other)]
    rfl
  | @«variable» i q us _ _ e target equals value =>
    have it : Infix Expression 0 [i] m (.variable (m % idCount) ⟨i.lexeme, i.line⟩) (m + 1) :=
      Infix.of_call (.primary (.variable target))
    rw [List.length_cons, List.length_cons] at few
    have short : [i].length ≤ n + 1 := Nat.succ_le_succ (Nat.zero_le n)
    have target : i :: q :: us ++ ts = [i] ++ q :: (us ++ ts) := rfl
    rw [target, bind_of_ok (takes_levels inner _ _ _ _ it short _ (equals_stops equals)),
      bind_of_ok (accept?_of_eq rfl equals)]
    dsimp only
    rw [bind_of_ok (inner _ _ _ _ value (by omega) ts closed)]
    rfl
  | @property d i q us vs _ l _ object e object' dot target equals value =>
    have it : Infix Expression 0 (us ++ [d, i]) m (.get object ⟨i.lexeme, i.line⟩) l :=
      Infix.of_call (.get object' dot target)
    rw [List.length_append, List.length_cons, List.length_cons, List.length_cons] at few
    have short : (us ++ [d, i]).length ≤ n + 1 := by
      rw [List.length_append, List.length_cons, List.length_singleton]
      omega
    have target : us ++ d :: i :: q :: vs ++ ts = us ++ [d, i] ++ q :: (vs ++ ts) := by
      simp only [List.append_assoc, List.cons_append, List.nil_append]
    rw [target, bind_of_ok (takes_levels inner _ _ _ _ it short _ (equals_stops equals)),
      bind_of_ok (accept?_of_eq rfl equals)]
    dsimp only
    rw [bind_of_ok (inner _ _ _ _ value (by omega) ts closed)]
    rfl

/-- What the grammar derives as an expression is read, if a mark is behind it that closes it. -/
theorem takes_expression (n : Nat) : Takes last n Closed (expression n) Expression := by
  induction n with
  | zero => exact fun us m e k it few => absurd it.pos (Nat.not_lt.mpr few)
  | succ n ih =>
    rintro us m e k ⟨it⟩ few ts closed
    exact takes_assignment ih us m e k it few ts closed

end

/-! ## Statements -/

section

variable {expr : Parser Expr} {decl stmt : Parser Stmt} {us : List Token} {s : Stmt}

theorem initializer?_of_maybe (inner : Takes last n Closed expr Expression)
    {value : Option Expr} (it : Maybe Initializer us m value k) (few : us.length ≤ n + 1)
    {z : Token} (closing : z.kind = .punctuation .semicolon) (ts : List Token) :
    initializer? expr (before (us ++ z :: ts) last m) = .ok value (before (z :: ts) last k) := by
  unfold initializer?
  cases it with
  | none =>
    rw [List.nil_append, bind_of_ok (accept_of_ne (.punctuation .equal) rfl (head_ne closing rfl))]
    rfl
  | some it =>
    obtain ⟨equals, value⟩ := it
    rw [List.cons_append, accept_then rfl equals,
      bind_of_ok (inner _ _ _ _ value (Nat.le_of_succ_le_succ few) _ (.of_semicolon closing))]
    rfl

theorem optional_of_maybe (inner : Takes last n Closed expr Expression)
    {value : Option Expr} (it : Maybe Expression us m value k) (few : us.length ≤ n)
    {close : Punctuation} {z : Token} (closing : z.kind = .punctuation close)
    (closes : ClosingMark (.punctuation close)) (ts : List Token) :
    optional close expr (before (us ++ z :: ts) last m) = .ok value (before (z :: ts) last k) := by
  unfold optional
  cases it with
  | none =>
    rw [List.nil_append, bind_of_ok (isAt_here rfl closing)]
    rfl
  | some it =>
    have first : ∀ t ∈ (us ++ z :: ts).head?, t.kind ≠ .punctuation close := by
      obtain ⟨t, rest, rfl, begins⟩ := it.first
      exact beginsExpression_ne begins (by cases closes <;> rfl)
    rw [bind_of_ok (isAt_elsewhere _ rfl first), if_neg Bool.false_ne_true,
      bind_of_ok (inner _ _ _ _ it few _ ⟨z, ts, rfl, closing ▸ closes⟩)]
    rfl

/-- A variable declaration is read behind its keyword. -/
theorem varDeclaration_of_derived (inner : Takes last n Closed expr Expression) {t : Token}
    (it : VarDeclaration (t :: us) m s k) (few : us.length ≤ n + 1) (ts : List Token) :
    varDeclaration expr (before (us ++ ts) last m) = .ok s (before ts last k) := by
  cases it with
  | @intro _ i z us _ _ value word name it closing =>
    rw [List.length_cons, List.length_append, List.length_singleton] at few
    rw [List.cons_append, List.append_assoc, List.singleton_append, varDeclaration,
      bind_of_ok (name_of_eq name _),
      bind_of_ok (initializer?_of_maybe inner it (by omega) closing ts),
      bind_of_ok (expect_of_eq rfl closing _)]
    rfl

theorem takes_expressionStatement (inner : Takes last n Closed expr Expression) :
    Takes last (n + 1) (fun _ => True) (expressionStatement expr) ExpressionStatement := by
  rintro _ m _ k ⟨it, closing⟩ few ts -
  rw [List.length_append, List.length_singleton] at few
  rw [List.append_assoc, List.singleton_append, expressionStatement,
    bind_of_ok (inner _ _ _ _ it (by omega) _ (.of_semicolon closing)),
    bind_of_ok (expect_of_eq rfl closing _)]
  rfl

theorem takes_forInitializer (inner : Takes last n Closed expr Expression) :
    Takes last n (fun _ => True) (forInitializer expr) ForInitializer := by
  intro us m first k it few ts _
  unfold forInitializer
  cases it with
  | none closing =>
    rw [List.singleton_append, bind_of_ok (accept_of_eq rfl closing)]
    rfl
  | var it =>
    obtain ⟨t, rest, rfl, word⟩ := it.first
    rw [List.length_cons] at few
    rw [List.cons_append, accept_else (.punctuation .semicolon) rfl (head_ne word rfl),
      accept_then rfl word,
      bind_of_ok (varDeclaration_of_derived inner it (Nat.le_succ_of_le (by omega)) ts)]
    rfl
  | expression it =>
    obtain ⟨t, rest, rfl, begins⟩ := it.first
    have other {word : Kind} (none : beginsExpression word = false) :
        ∀ t' ∈ (t :: rest ++ ts).head?, t'.kind ≠ word := beginsExpression_ne begins none
    rw [accept_else (.punctuation .semicolon) rfl (other rfl),
      accept_else (.keyword .var) rfl (other rfl),
      bind_of_ok (takes_expressionStatement inner _ _ _ _ it (Nat.le_succ_of_le few) ts trivial)]
    rfl

/-- The next token is not an `else`. -/
def Unbranched (ts : List Token) : Prop :=
  ∀ t ∈ ts.head?, t.kind ≠ .keyword .else

/-- The statements that are derived with each `else` at the nearest `if` are read, unless one could
be extended by an `else` that is behind it. -/
def TakesStatements (last : Token) (bound : Nat) (stmt : Parser Stmt) : Prop :=
  ∀ isOpen us m s k, Statement True isOpen us m s k → us.length ≤ bound →
    ∀ ts, (isOpen = true → Unbranched ts) →
      stmt (before (us ++ ts) last m) = .ok s (before ts last k)

theorem unbranched_of_closing {r : Token} {ts : List Token}
    (closing : r.kind = .punctuation .rightBrace) : Unbranched (r :: ts) :=
  head_ne closing rfl

theorem unbranched_of_many {as : List Stmt} (it : Many (Declaration True) us m as k)
    {ts : List Token} (behind : Unbranched ts) : Unbranched (us ++ ts) := by
  cases it with
  | nil => exact behind
  | cons first _ =>
    obtain ⟨t, rest, rfl, begins⟩ := first.first
    exact beginsDeclaration_ne begins rfl

/-- A loop over what stands between braces ends at the closing one. -/
theorem untilBrace_here {α : Type} {p q : Parser α} {r : Token} {ts : List Token}
    (closing : r.kind = .punctuation .rightBrace) :
    (do if (← isAt (.punctuation .rightBrace)) || (← atEnd) then p else q)
      (before (r :: ts) last m) = p (before (r :: ts) last m) := by
  rw [bind_of_ok (isAt_here rfl closing), bind_of_ok (atEnd_within (closing ▸ rfl)), Bool.true_or,
    if_pos rfl]

/-- A loop over what stands between braces goes on at any other token. -/
theorem untilBrace_elsewhere {α : Type} {p q : Parser α} {t : Token} {ts : List Token}
    (unended : t.kind.agrees .eof = false)
    (other : ∀ t' ∈ (t :: ts).head?, t'.kind ≠ .punctuation .rightBrace) :
    (do if (← isAt (.punctuation .rightBrace)) || (← atEnd) then p else q)
      (before (t :: ts) last m) = q (before (t :: ts) last m) := by
  rw [bind_of_ok (isAt_elsewhere _ rfl other), bind_of_ok (atEnd_within unended), Bool.or_false,
    if_neg Bool.false_ne_true]

theorem blockAfter_of_many (inner : Takes last b Unbranched decl (Declaration True))
    {as : List Stmt} (it : Many (Declaration True) us m as k) (few : us.length ≤ b)
    (turns : us.length ≤ n) (read : List Stmt) {r : Token}
    (closing : r.kind = .punctuation .rightBrace) (ts : List Token) :
    blockAfter decl n read (before (us ++ r :: ts) last m)
      = .ok (read.reverse ++ as) (before ts last k) := by
  induction it generalizing n read with
  | nil =>
    cases n with
    | zero =>
      rw [List.nil_append, blockAfter, bind_of_ok (expect_of_eq rfl closing _), List.append_nil]
      rfl
    | succ n =>
      rw [List.nil_append, blockAfter, untilBrace_here closing,
        bind_of_ok (expect_of_eq rfl closing _), List.append_nil]
      rfl
  | @cons us vs _ _ _ s as first rest ih =>
    rw [List.length_append] at few turns
    have pos := first.pos
    obtain ⟨n, rfl⟩ := Nat.exists_eq_add_one.mpr (show 0 < n by omega)
    have behind : Unbranched (vs ++ r :: ts) :=
      unbranched_of_many rest (unbranched_of_closing closing)
    obtain ⟨t, us', rfl, begins⟩ := first.first
    have unended : t.kind.agrees .eof = false := unended_of_beginsDeclaration begins
    rw [List.append_assoc, blockAfter, List.cons_append,
      untilBrace_elsewhere unended (beginsDeclaration_ne begins rfl),
      ← List.cons_append, bind_of_ok (inner _ _ _ _ first (by omega) _ behind),
      ih (by omega) (by omega) (s :: read), List.reverse_cons, List.append_assoc,
      List.singleton_append]

theorem parameters_of_listing {params : List Name} (it : Listing Identifier us m params k)
    (turns : us.length ≤ n) {r : Token} (closing : r.kind = .punctuation .rightParen)
    (ts : List Token) :
    parameters n (before (us ++ r :: ts) last m) = .ok params (before (r :: ts) last k) := by
  unfold parameters
  cases it with
  | none => exact bind_of_ok (isAt_here rfl closing)
  | some items short =>
    have begins : ∃ t rest, us = t :: rest ∧ t.kind = .identifier := by
      cases items with
      | one it =>
        obtain ⟨word⟩ := it
        exact ⟨_, _, rfl, word⟩
      | more first _ _ =>
        obtain ⟨word⟩ := first
        exact ⟨_, _, rfl, word⟩
    have takes : Takes last n Closed (name "parameter name") Identifier := by
      rintro _ _ _ _ ⟨word⟩ - ts -
      exact name_of_eq word _
    have pos : ∀ us n a m, Identifier us n a m → 0 < us.length := by
      rintro _ _ _ _ ⟨word⟩
      exact Nat.one_pos
    obtain ⟨t, rest, rfl, word⟩ := begins
    rw [List.cons_append,
      bind_of_ok (isAt_elsewhere (.punctuation .rightParen) rfl (head_ne word rfl)),
      if_neg Bool.false_ne_true, parametersAfter_eq, ← List.cons_append,
      itemsAfter_of_separated takes pos items turns turns _ []
        (by rw [List.length_nil, Nat.zero_add]; exact short) ts closing]
    rfl

theorem takes_function (inner : Takes last n Unbranched decl (Declaration True)) (what : String) :
    Takes last (n + 1) (fun _ => True) (function decl n what) (Function (Declaration True)) := by
  rintro _ m _ k ⟨name, opening, parameters, closing, begins, body, ends⟩ few ts -
  simp only [List.length_cons, List.length_append, List.length_nil] at few
  simp only [List.append_assoc, List.cons_append, List.nil_append]
  rw [function, bind_of_ok (name_of_eq name _), bind_of_ok (expect_of_eq rfl opening _),
    bind_of_ok (parameters_of_listing parameters (by omega) closing _),
    bind_of_ok (expect_of_eq rfl closing _), bind_of_ok (expect_of_eq rfl begins _), block,
    bind_of_ok (blockAfter_of_many inner body (by omega) (by omega) [] ends ts)]
  rfl

theorem methodsAfter_of_many (inner : Takes last b Unbranched decl (Declaration True))
    {as : List FunctionDecl} (it : Many (Function (Declaration True)) us m as k)
    (few : us.length ≤ b) (turns : us.length ≤ n) (le : n ≤ b) (read : List FunctionDecl) {r : Token}
    (closing : r.kind = .punctuation .rightBrace) (ts : List Token) :
    methodsAfter decl n read (before (us ++ r :: ts) last m)
      = .ok (read.reverse ++ as) (before (r :: ts) last k) := by
  induction it generalizing n read with
  | nil =>
    cases n with
    | zero =>
      rw [List.nil_append, methodsAfter, List.append_nil]
      rfl
    | succ n =>
      rw [List.nil_append, methodsAfter, untilBrace_here closing, List.append_nil]
      rfl
  | @cons us vs _ _ _ f as first rest ih =>
    rw [List.length_append] at few turns
    have pos := first.pos
    obtain ⟨n, rfl⟩ := Nat.exists_eq_add_one.mpr (show 0 < n by omega)
    obtain ⟨t, us', rfl, word⟩ : ∃ t us', us = t :: us' ∧ t.kind = .identifier := by
      cases first with
      | intro name _ _ _ _ _ _ => exact ⟨_, _, rfl, name⟩
    have takes := takes_function (inner.mono (Nat.le_of_succ_le le)) "method"
    rw [List.append_assoc, methodsAfter, List.cons_append,
      untilBrace_elsewhere (word ▸ rfl) (head_ne word rfl), ← List.cons_append,
      bind_of_ok (takes _ _ _ _ first (by omega) _ trivial),
      ih (by omega) (by omega) (by omega) (f :: read), List.reverse_cons, List.append_assoc,
      List.singleton_append]

theorem superclass?_of_maybe {parent : Option Superclass} (it : Maybe Parent us m parent k)
    {l : Token} (opening : l.kind = .punctuation .leftBrace) (ts : List Token) :
    superclass? (before (us ++ l :: ts) last m) = .ok parent (before (l :: ts) last k) := by
  unfold superclass?
  cases it with
  | none =>
    rw [List.nil_append, accept_else (.punctuation .less) rfl (head_ne opening rfl)]
    rfl
  | some it =>
    obtain ⟨sign, name⟩ := it
    rw [List.cons_append, accept_then rfl sign, List.cons_append,
      bind_of_ok (name_of_eq name _), bind_of_ok freshId_before]
    rfl

/-- An `if` is read with the `else` that is behind its first branch, or ends before a token that is
no `else`. -/
theorem ifStatement_of_if (ofExpr : Takes last b Closed expr Expression)
    (ofStmt : TakesStatements last b stmt) {isOpen : Bool} {l r : Token} {vs : List Token}
    {condition : Expr} {thenBranch : Stmt} (opening : l.kind = .punctuation .leftParen)
    (test : Expression us m condition n) (closing : r.kind = .punctuation .rightParen)
    (inner : Statement True isOpen vs n thenBranch k) (few : us.length + vs.length ≤ b)
    {ts : List Token} (behind : Unbranched ts) :
    ifStatement expr stmt (before (l :: (us ++ r :: (vs ++ ts))) last m)
      = .ok (.if condition thenBranch none) (before ts last k) := by
  rw [ifStatement, bind_of_ok (expect_of_eq rfl opening _),
    bind_of_ok (ofExpr _ _ _ _ test (by omega) _ (.of_rightParen closing)),
    bind_of_ok (expect_of_eq rfl closing _),
    bind_of_ok (ofStmt _ _ _ _ _ inner (by omega) ts fun _ => behind),
    accept_else _ rfl behind]
  rfl

theorem ifStatement_of_ifElse (ofExpr : Takes last b Closed expr Expression)
    (ofStmt : TakesStatements last b stmt) {isOpen : Bool} {l r w : Token} {vs ws : List Token}
    {i : Nat} {condition : Expr} {thenBranch elseBranch : Stmt}
    (opening : l.kind = .punctuation .leftParen) (test : Expression us m condition n)
    (closing : r.kind = .punctuation .rightParen) (inner : Statement True false vs n thenBranch i)
    (otherwise : w.kind = .keyword .else) (inner' : Statement True isOpen ws i elseBranch k)
    (few : us.length + vs.length + ws.length ≤ b) {ts : List Token}
    (behind : isOpen = true → Unbranched ts) :
    ifStatement expr stmt (before (l :: (us ++ r :: (vs ++ w :: (ws ++ ts)))) last m)
      = .ok (.if condition thenBranch (some elseBranch)) (before ts last k) := by
  rw [ifStatement, bind_of_ok (expect_of_eq rfl opening _),
    bind_of_ok (ofExpr _ _ _ _ test (by omega) _ (.of_rightParen closing)),
    bind_of_ok (expect_of_eq rfl closing _), bind_of_ok (ofStmt _ _ _ _ _ inner (by omega) _ nofun),
    accept_then rfl otherwise, bind_of_ok (ofStmt _ _ _ _ _ inner' (by omega) ts behind)]
  rfl

theorem whileStatement_of_while (ofExpr : Takes last b Closed expr Expression)
    (ofStmt : TakesStatements last b stmt) {isOpen : Bool} {l r : Token} {vs : List Token}
    {condition : Expr} {body : Stmt} (opening : l.kind = .punctuation .leftParen)
    (test : Expression us m condition n) (closing : r.kind = .punctuation .rightParen)
    (inner : Statement True isOpen vs n body k) (few : us.length + vs.length ≤ b)
    {ts : List Token} (behind : isOpen = true → Unbranched ts) :
    whileStatement expr stmt (before (l :: (us ++ r :: (vs ++ ts))) last m)
      = .ok (.while condition body) (before ts last k) := by
  rw [whileStatement, bind_of_ok (expect_of_eq rfl opening _),
    bind_of_ok (ofExpr _ _ _ _ test (by omega) _ (.of_rightParen closing)),
    bind_of_ok (expect_of_eq rfl closing _),
    bind_of_ok (ofStmt _ _ _ _ _ inner (by omega) ts behind)]
  rfl

theorem forStatement_of_for (ofExpr : Takes last b Closed expr Expression)
    (ofStmt : TakesStatements last b stmt) {isOpen : Bool} {l z r : Token} {vs ws xs : List Token}
    {i j : Nat} {initializer : Option Stmt} {condition increment : Option Expr} {body : Stmt}
    (opening : l.kind = .punctuation .leftParen) (first : ForInitializer us m initializer i)
    (test : Maybe Expression vs i condition j) (semicolon : z.kind = .punctuation .semicolon)
    (step : Maybe Expression ws j increment n) (closing : r.kind = .punctuation .rightParen)
    (inner : Statement True isOpen xs n body k)
    (few : us.length + vs.length + ws.length + xs.length ≤ b) {ts : List Token}
    (behind : isOpen = true → Unbranched ts) :
    forStatement expr stmt (before (l :: (us ++ (vs ++ z :: (ws ++ r :: (xs ++ ts))))) last m)
      = .ok (forLoop initializer condition increment body) (before ts last k) := by
  rw [forStatement, bind_of_ok (expect_of_eq rfl opening _),
    bind_of_ok (takes_forInitializer ofExpr _ _ _ _ first (by omega) _ trivial),
    bind_of_ok (optional_of_maybe ofExpr test (by omega) semicolon .semicolon _),
    bind_of_ok (expect_of_eq rfl semicolon _),
    bind_of_ok (optional_of_maybe ofExpr step (by omega) closing .rightParen _),
    bind_of_ok (expect_of_eq rfl closing _),
    bind_of_ok (ofStmt _ _ _ _ _ inner (by omega) ts behind)]
  rfl

/-- A statement is read as the one that its first token begins. -/
theorem takes_statementOf (ofDecl : Takes last n Unbranched decl (Declaration True))
    (ofStmt : TakesStatements last n stmt) :
    TakesStatements last (n + 1) (statementOf decl stmt n) := by
  intro isOpen us m s k it few ts behind
  have ofExpr : Takes last n Closed (expression n) Expression := takes_expression n
  cases it with
  | expression it =>
    obtain ⟨t, rest, rfl, begins⟩ := it.first
    -- No keyword begins an expression, so all other statements are passed over.
    have other {word : Kind} (none : beginsExpression word = false) :
        ∀ t' ∈ (t :: rest ++ ts).head?, t'.kind ≠ word := beginsExpression_ne begins none
    rw [statementOf, bind_of_ok (rfl : peek _ = .ok t _), accept_else (.keyword .for) rfl (other rfl),
      accept_else (.keyword .if) rfl (other rfl), accept_else (.keyword .while) rfl (other rfl),
      accept_else (.keyword .return) rfl (other rfl),
      accept_else (.punctuation .leftBrace) rfl (other rfl),
      accept_else (.keyword .print) rfl (other rfl)]
    exact takes_expressionStatement (takes_expression (n + 1)) _ _ _ _ it (Nat.le_succ_of_le few)
      ts trivial
  | @print t z us _ _ e word value closing =>
    simp only [List.length_cons, List.length_append, List.length_nil] at few
    simp only [List.append_assoc, List.cons_append, List.nil_append]
    rw [statementOf_print word, printStatement,
      bind_of_ok (ofExpr _ _ _ _ value (by omega) _ (.of_semicolon closing)),
      bind_of_ok (expect_of_eq rfl closing _)]
    rfl
  | @«while» _ t l r us vs _ _ _ condition body word opening test closing inner =>
    simp only [List.length_cons, List.length_append] at few
    simp only [List.append_assoc, List.cons_append]
    rw [statementOf_while word]
    exact whileStatement_of_while ofExpr ofStmt opening test closing inner (by omega) behind
  | @«for» _ t l z r us vs ws xs _ _ _ _ _ _ _ _ _ word opening first test semicolon step closing
      inner =>
    simp only [List.length_cons, List.length_append] at few
    simp only [List.append_assoc, List.cons_append]
    rw [statementOf_for word]
    exact forStatement_of_for ofExpr ofStmt opening first test semicolon step closing inner
      (by omega) behind
  | @«if» _ t l r us vs _ _ _ condition thenBranch word opening test closing inner =>
    simp only [List.length_cons, List.length_append] at few
    simp only [List.append_assoc, List.cons_append]
    rw [statementOf_if word]
    exact ifStatement_of_if ofExpr ofStmt opening test closing inner (by omega) (behind rfl)
  | @ifElse _ _ t l r w us vs ws _ _ _ _ _ _ _ word opening test closing inner closed otherwise
      inner' =>
    -- Each `else` is at the nearest `if`, so the first branch has no open one that would take it.
    obtain rfl := closed trivial
    simp only [List.length_cons, List.length_append] at few
    simp only [List.append_assoc, List.cons_append]
    rw [statementOf_if word]
    exact ifStatement_of_ifElse ofExpr ofStmt opening test closing inner otherwise inner'
      (by omega) behind
  | @block l r us _ _ body opening inner closing =>
    simp only [List.length_cons, List.length_append, List.length_nil] at few
    simp only [List.append_assoc, List.cons_append, List.nil_append]
    rw [statementOf_block opening, block,
      bind_of_ok (blockAfter_of_many ofDecl inner (by omega) (by omega) [] closing ts)]
    rfl
  | @«return» t z us _ _ value word result closing =>
    simp only [List.length_cons, List.length_append, List.length_nil] at few
    simp only [List.append_assoc, List.cons_append, List.nil_append]
    rw [statementOf_return word, returnStatement,
      bind_of_ok (optional_of_maybe ofExpr result (by omega) closing .semicolon ts),
      bind_of_ok (expect_of_eq rfl closing _)]
    rfl

theorem takes_declarationOf (ofDecl : Takes last n Unbranched decl (Declaration True))
    (ofStmt : TakesStatements last n stmt) :
    Takes last (n + 1) Unbranched (declarationOf decl stmt n) (Declaration True) := by
  intro us m s k it few ts behind
  have ofExpr : Takes last n Closed (expression n) Expression := takes_expression n
  refine (recovering_ok_iff _ _ s _).mpr ?_
  cases it with
  | @«class» t i l r us vs _ _ _ superclass methods word name parent opening inner closing =>
    simp only [List.length_cons, List.length_append, List.length_nil] at few
    simp only [List.append_assoc, List.cons_append, List.nil_append]
    rw [accept_then rfl word, classDeclaration, bind_of_ok (name_of_eq name _),
      bind_of_ok (superclass?_of_maybe parent opening _), bind_of_ok (expect_of_eq rfl opening _),
      bind_of_ok (methodsAfter_of_many ofDecl inner (by omega) (by omega) (Nat.le_refl n) [] closing
        ts),
      bind_of_ok (expect_of_eq rfl closing _)]
    rfl
  | @function t us _ _ f word it =>
    rw [List.length_cons] at few
    rw [List.cons_append, accept_else (.keyword .class) rfl (head_ne word rfl),
      accept_then rfl word,
      bind_of_ok (takes_function ofDecl _ _ _ _ _ it (Nat.le_of_succ_le few) ts trivial)]
    rfl
  | var it =>
    obtain ⟨t, rest, rfl, word⟩ := it.first
    rw [List.length_cons] at few
    rw [List.cons_append, accept_else (.keyword .class) rfl (head_ne word rfl),
      accept_else (.keyword .fun) rfl (head_ne word rfl), accept_then rfl word]
    exact varDeclaration_of_derived ofExpr it (Nat.le_of_succ_le few) ts
  | statement it =>
    have taken := takes_statementOf ofDecl ofStmt _ _ _ _ _ it few ts fun _ => behind
    obtain ⟨t, rest, rfl, opens⟩ := it.first
    have other {word : Kind} (none : opensStatement word = false) :
        ∀ t' ∈ (t :: rest ++ ts).head?, t'.kind ≠ word := opensStatement_ne opens none
    rw [accept_else (.keyword .class) rfl (other rfl), accept_else (.keyword .fun) rfl (other rfl),
      accept_else (.keyword .var) rfl (other rfl)]
    exact taken

/-- **Completeness.** What the grammar derives with each `else` at the nearest `if` is read. -/
theorem takes_statement_declaration (n : Nat) :
    TakesStatements last n (statement n) ∧
      Takes last n Unbranched (declaration n) (Declaration True) := by
  induction n with
  | zero =>
    -- What is derived has a token, which is more than this bound allows.
    refine ⟨fun isOpen us m s k it few => ?_, fun us m s k it few => ?_⟩
    · exact absurd (Declaration.statement it).pos (Nat.not_lt.mpr few)
    · exact absurd it.pos (Nat.not_lt.mpr few)
  | succ n ih => exact ⟨takes_statementOf ih.2 ih.1, takes_declarationOf ih.2 ih.1⟩

end

end Parser

end Lox
