import Lox.Proofs.Parser.Seam

/-!
# Parsing joined sources

A declaration is read the same from its own tokens and from these with the tokens of another program
behind them, since it closes with a mark of its own and none begins with `else`. The bounds on
nesting and on the length of lists are greater for the joined tokens, which makes no difference
below the lesser bounds. There is one fact for each rule of the grammar.
-/

set_option autoImplicit false

namespace Lox

namespace Parser

variable {α β : Type} {σ : Seam} {m : Nat} {g : α → α} {h : β → β} {p p' : Parser α}

/-! ## Expressions -/

section

variable {expr expr' : Parser Expr} {n : Nat} (d : Nat)

theorem carries_argumentsAfter (inner : Carries σ m (Expr.relabel σ.toRelabelling) expr expr')
    (le : m ≤ n) (read : List Expr) :
    Carries σ m (List.map (Expr.relabel σ.toRelabelling)) (argumentsAfter expr n read)
      (argumentsAfter expr' (n + d) (read.map (Expr.relabel σ.toRelabelling))) := by
  induction n generalizing m read with
  | zero =>
    obtain rfl := Nat.le_zero.mp le
    refine .zero fun c done a c₁ ok => ?_
    cases ok
    exact done
  | succ n ih =>
    rw [Nat.add_right_comm n 1 d]
    unfold argumentsAfter
    rw [List.length_map]
    split
    · exact .of_fails (fails_fail _)
    · refine inner.bind fun argument => ?_
      refine .accept ?_ ?_
      · exact ih (inner.mono (Nat.sub_le m 1)) (by omega) (argument :: read)
      · exact carries_pure (by rw [List.map_reverse, List.map_cons])

theorem carries_arguments (inner : Carries σ m (Expr.relabel σ.toRelabelling) expr expr')
    (le : m ≤ n) :
    Carries σ m (List.map (Expr.relabel σ.toRelabelling)) (arguments expr n)
      (arguments expr' (n + d)) := by
  unfold arguments
  refine (carries_isAt _).bind fun none => ?_
  cases none with
  | true => exact carries_pure rfl
  | false => exact carries_argumentsAfter d inner le []

theorem carries_primary (inner : Carries σ (m - 1) (Expr.relabel σ.toRelabelling) expr expr') :
    Carries σ m (Expr.relabel σ.toRelabelling) (primary expr) (primary expr') := by
  unfold primary
  refine carries_peek.bind fun token => ?_
  obtain ⟨kind, lexeme, line⟩ := token
  cases kind with
  | number | string => exact carries_advance (carries_pure rfl)
  | identifier =>
    refine carries_atEnd.bind fun ended => ?_
    cases ended with
    | true => exact .of_fails (fails_fail _)
    | false => exact carries_advance (carries_freshId.bind fun id => carries_pure rfl)
  | eof =>
    refine carries_atEnd.bind fun ended => ?_
    cases ended <;> exact .of_fails (fails_fail _)
  | keyword word =>
    refine carries_atEnd.bind fun ended => ?_
    cases ended with
    | true => exact .of_fails (fails_fail _)
    | false =>
      cases word with
      | false | true | nil => exact carries_advance (carries_pure rfl)
      | this => exact carries_advance (carries_freshId.bind fun id => carries_pure rfl)
      | super =>
        refine carries_advance ((closes_expect _ _).bind fun _ => ?_)
        refine (closes_name _).bind fun method => ?_
        exact carries_freshId.bind fun id => carries_pure rfl
      | and | «class» | «else» | «fun» | «for» | «if» | or | print | «return» | var | «while» =>
        exact .of_fails (fails_fail _)
  | punctuation mark =>
    refine carries_atEnd.bind fun ended => ?_
    cases ended with
    | true => exact .of_fails (fails_fail _)
    | false =>
      cases mark with
      | leftParen =>
        refine carries_advance (inner.bind fun e => ?_)
        exact (closes_expect _ _).bind fun _ => carries_pure rfl
      | rightParen | leftBrace | rightBrace | comma | dot | minus | plus | semicolon | slash | star
      | bang | bangEqual | equal | equalEqual | greater | greaterEqual | less | lessEqual =>
        exact .of_fails (fails_fail _)

theorem carries_suffixes (inner : Carries σ (m - 1) (Expr.relabel σ.toRelabelling) expr expr')
    (le : m ≤ n) (left : Expr) :
    Carries σ m (Expr.relabel σ.toRelabelling) (suffixes expr n left)
      (suffixes expr' (n + d) (left.relabel σ.toRelabelling)) := by
  induction n generalizing m left with
  | zero =>
    obtain rfl := Nat.le_zero.mp le
    refine .zero fun c done a c₁ ok => ?_
    cases ok
    exact done
  | succ n ih =>
    have inner' := inner.mono (Nat.sub_le (m - 1) 1)
    rw [Nat.add_right_comm n 1 d]
    unfold suffixes
    refine .accept ?_ (.accept ?_ ?_)
    · refine (carries_arguments d inner (by omega)).bind fun values => ?_
      refine (closes_expect _ _).bind fun close => ?_
      have call := ih (m := m - 1) inner' (by omega) (.call left values close.line)
      rw [Expr.relabel, Expr.relabelAll_eq_map] at call
      exact call.mono (Nat.sub_le (m - 1) 1)
    · refine (closes_name _).bind fun property => ?_
      have get := ih (m := m - 1) inner' (by omega) (.get left property)
      exact get.mono (Nat.sub_le (m - 1) 1)
    · exact carries_pure rfl

theorem carries_signs (le : m ≤ n) (read : List (UnaryOp × Nat)) :
    Carries σ m (List.map (relabelSign σ.toRelabelling)) (signs n read)
      (signs (n + d) (read.map (relabelSign σ.toRelabelling))) := by
  induction n generalizing m read with
  | zero =>
    obtain rfl := Nat.le_zero.mp le
    refine .zero fun c done a c₁ ok => ?_
    cases ok
    exact done
  | succ n ih =>
    rw [Nat.add_right_comm n 1 d]
    unfold signs
    refine (tries_acceptAs? _).carries (fun sign took => ?_) (fun sign left => ?_)
    · cases sign with
      | none => cases took
      | some sign => exact ih (by omega) (sign :: read)
    · cases sign with
      | none => exact carries_pure rfl
      | some sign => exact absurd rfl left

theorem relabel_signs (ρ : Relabelling) (operators : List (UnaryOp × Nat)) (operand : Expr) :
    (operators.foldl (fun right (op, line) => Expr.unary op right line) operand).relabel ρ
      = (operators.map (relabelSign ρ)).foldl (fun right (op, line) => Expr.unary op right line)
          (operand.relabel ρ) := by
  induction operators generalizing operand with
  | nil => rfl
  | cons sign operators ih => exact ih (.unary sign.1 operand sign.2)

theorem carries_unary (inner : Carries σ (m - 1) (Expr.relabel σ.toRelabelling) expr expr')
    (le : m ≤ n) :
    Carries σ m (Expr.relabel σ.toRelabelling) (unary expr n) (unary expr' (n + d)) := by
  unfold unary
  refine (carries_signs d le []).bind fun operators => ?_
  refine (carries_primary inner).bind fun operand => ?_
  refine (carries_suffixes d inner le operand).bind fun whole => ?_
  exact carries_pure (relabel_signs _ operators whole)

theorem relabel_build (ρ : Relabelling) (op : InfixOp) (left right : Expr) (line : Nat) :
    (op.build left right line).relabel ρ
      = op.build (left.relabel ρ) (right.relabel ρ) (ρ.line line) := by
  cases op <;> rfl

theorem carries_chain (level : Level) {operand operand' : Parser Expr}
    (inner : Carries σ m (Expr.relabel σ.toRelabelling) operand operand') (le : m ≤ n)
    (left : Expr) :
    Carries σ m (Expr.relabel σ.toRelabelling) (chain level operand n left)
      (chain level operand' (n + d) (left.relabel σ.toRelabelling)) := by
  induction n generalizing m left with
  | zero =>
    obtain rfl := Nat.le_zero.mp le
    refine .zero fun c done a c₁ ok => ?_
    cases ok
    exact done
  | succ n ih =>
    have inner' := inner.mono (Nat.sub_le m 1)
    rw [Nat.add_right_comm n 1 d]
    unfold chain
    refine (tries_acceptAs? _).carries (fun found took => ?_) (fun found none => ?_)
    · cases found with
      | none => cases took
      | some found =>
        refine inner'.bind fun right => ?_
        have built := ih inner' (by omega) (found.1.build left right found.2)
        rw [relabel_build] at built
        exact built
    · cases found with
      | none => exact carries_pure rfl
      | some found => exact absurd rfl none

theorem carries_levels (inner : Carries σ (m - 1) (Expr.relabel σ.toRelabelling) expr expr')
    (le : m ≤ n) (ls : List Level) :
    Carries σ m (Expr.relabel σ.toRelabelling) (levels expr n ls) (levels expr' (n + d) ls) := by
  induction ls with
  | nil => exact carries_unary d inner le
  | cons level tighter ih => exact ih.bind fun left => carries_chain d level ih le left

theorem relabel_assigned? (ρ : Relabelling) (target value : Expr) :
    assigned? (target.relabel ρ) (value.relabel ρ)
      = (assigned? target value).map (Expr.relabel ρ) := by
  cases target <;> rfl

theorem carries_assignment (inner : Carries σ (m - 1) (Expr.relabel σ.toRelabelling) expr expr')
    (le : m ≤ n) :
    Carries σ m (Expr.relabel σ.toRelabelling) (assignment expr n) (assignment expr' (n + d)) := by
  unfold assignment
  refine (carries_levels d inner le _).bind fun target => ?_
  refine (tries_accept? _).carries (fun equals took => ?_) (fun equals left => ?_)
  · cases equals with
    | none => cases took
    | some equals =>
      refine inner.bind fun value => ?_
      rw [relabel_assigned?]
      cases assigned? target value with
      | none => exact .of_fails (fails_throw _)
      | some e => exact carries_pure rfl
  · cases equals with
    | none => exact carries_pure rfl
    | some equals => exact absurd rfl left

end

/-- **Expressions** are read the same with a greater bound. -/
theorem carries_expression (d : Nat) {n : Nat} (le : m ≤ n - 1) :
    Carries σ m (Expr.relabel σ.toRelabelling) (expression n) (expression (n + d)) := by
  induction n generalizing m with
  | zero => exact .of_fails (fails_fail _)
  | succ n ih =>
    rw [Nat.add_right_comm n 1 d]
    exact carries_assignment d (ih (by omega)) (by omega)

/-! ## Statements -/

section

variable {expr expr' : Parser Expr} {decl decl' stmt stmt' : Parser Stmt} {n : Nat} (d : Nat)

theorem closes_blockAfter (inner : Closes σ m (Stmt.relabel σ.toRelabelling) decl decl')
    (le : m ≤ n) (read : List Stmt) :
    Closes σ m (List.map (Stmt.relabel σ.toRelabelling)) (blockAfter decl n read)
      (blockAfter decl' (n + d) (read.map (Stmt.relabel σ.toRelabelling))) := by
  induction n generalizing m read with
  | zero =>
    obtain rfl := Nat.le_zero.mp le
    refine .zero fun c done a c₁ ok => ?_
    obtain ⟨close, c₁, ok₁, -⟩ := bind_ok ok
    exact (closes_expect (σ := σ) (m := 0) _ _).ended c done close c₁ ok₁
  | succ n ih =>
    rw [Nat.add_right_comm n 1 d]
    unfold blockAfter
    refine (carries_isAt _).closing fun closed => carries_atEnd.closing fun ended => ?_
    rw [id_eq, id_eq]
    cases closed || ended with
    | true => exact (closes_expect _ _).then fun _ => ends_pure List.map_reverse
    | false =>
      refine inner.then fun stmt => ?_
      exact (ih (inner.mono (Nat.sub_le m 1)) (by omega) (stmt :: read)).ends

theorem closes_block (inner : Closes σ m (Stmt.relabel σ.toRelabelling) decl decl') (le : m ≤ n) :
    Closes σ m (List.map (Stmt.relabel σ.toRelabelling)) (block decl n) (block decl' (n + d)) :=
  closes_blockAfter d inner le []

theorem carries_parametersAfter (le : m ≤ n) (read : List Name) :
    Carries σ m (List.map (Name.relabel σ.toRelabelling)) (parametersAfter n read)
      (parametersAfter (n + d) (read.map (Name.relabel σ.toRelabelling))) := by
  induction n generalizing m read with
  | zero =>
    obtain rfl := Nat.le_zero.mp le
    refine .zero fun c done a c₁ ok => ?_
    cases ok
    exact done
  | succ n ih =>
    rw [Nat.add_right_comm n 1 d]
    unfold parametersAfter
    rw [List.length_map]
    split
    · exact .of_fails (fails_fail _)
    · refine (closes_name _).bind fun param => .accept ?_ ?_
      · exact ih (by omega) (param :: read)
      · exact carries_pure (by rw [List.map_reverse, List.map_cons])

theorem carries_parameters (le : m ≤ n) :
    Carries σ m (List.map (Name.relabel σ.toRelabelling)) (parameters n) (parameters (n + d)) := by
  unfold parameters
  refine (carries_isAt _).bind fun none => ?_
  cases none with
  | true => exact carries_pure rfl
  | false => exact carries_parametersAfter d le []

theorem closes_function (inner : Closes σ m (Stmt.relabel σ.toRelabelling) decl decl')
    (le : m - 1 ≤ n) (what : String) :
    Closes σ m (FunctionDecl.relabel σ.toRelabelling) (function decl n what)
      (function decl' (n + d) what) := by
  unfold function
  refine (closes_name _).then fun name => Closes.ends ?_
  refine (closes_expect _ _).then fun _ => Closes.ends ?_
  refine (carries_parameters d (by omega)).closing fun params => ?_
  refine (closes_expect _ _).then fun _ => Closes.ends ?_
  refine (closes_expect _ _).then fun _ => Closes.ends ?_
  refine (closes_block d (inner.mono (by omega)) (by omega)).then fun body => ends_pure ?_
  rw [FunctionDecl.relabel, Stmt.relabelAll_eq_map]

theorem carries_methodsAfter (inner : Closes σ m (Stmt.relabel σ.toRelabelling) decl decl')
    (le : m ≤ n) (read : List FunctionDecl) :
    Carries σ m (List.map (FunctionDecl.relabel σ.toRelabelling)) (methodsAfter decl n read)
      (methodsAfter decl' (n + d) (read.map (FunctionDecl.relabel σ.toRelabelling))) := by
  induction n generalizing m read with
  | zero =>
    obtain rfl := Nat.le_zero.mp le
    refine .zero fun c done a c₁ ok => ?_
    cases ok
    exact done
  | succ n ih =>
    rw [Nat.add_right_comm n 1 d]
    unfold methodsAfter
    refine (carries_isAt _).bind fun closed => carries_atEnd.bind fun ended => ?_
    rw [id_eq, id_eq]
    cases closed || ended with
    | true => exact carries_pure List.map_reverse
    | false =>
      refine (closes_function d inner (by omega) _).bind fun method => ?_
      exact ih (inner.mono (Nat.sub_le m 1)) (by omega) (method :: read)

theorem carries_superclass? :
    Carries σ m (Option.map (Superclass.relabel σ.toRelabelling)) superclass? superclass? := by
  unfold superclass?
  refine .accept ?_ (carries_pure rfl)
  refine (closes_name _).bind fun name => ?_
  exact carries_freshId.bind fun id => carries_pure rfl

theorem closes_classDeclaration (inner : Closes σ m (Stmt.relabel σ.toRelabelling) decl decl')
    (le : m ≤ n) :
    Closes σ m (Stmt.relabel σ.toRelabelling) (classDeclaration decl n)
      (classDeclaration decl' (n + d)) := by
  unfold classDeclaration
  refine (closes_name _).then fun name => Closes.ends ?_
  refine carries_superclass?.closing fun parent => ?_
  refine (closes_expect _ _).then fun _ => Closes.ends ?_
  refine (carries_methodsAfter d (inner.mono (by omega)) (by omega) []).closing fun methods => ?_
  refine (closes_expect _ _).then fun _ => ends_pure ?_
  rw [Stmt.relabel, FunctionDecl.relabelAll_eq_map]

theorem carries_initializer? (inner : Carries σ m (Expr.relabel σ.toRelabelling) expr expr') :
    Carries σ m (Expr.relabel? σ.toRelabelling) (initializer? expr) (initializer? expr') := by
  unfold initializer?
  exact .accept ((inner.mono (Nat.sub_le m 1)).bind fun e => carries_pure rfl) (carries_pure rfl)

theorem closes_varDeclaration (inner : Carries σ m (Expr.relabel σ.toRelabelling) expr expr') :
    Closes σ m (Stmt.relabel σ.toRelabelling) (varDeclaration expr) (varDeclaration expr') := by
  unfold varDeclaration
  refine (closes_name _).then fun name => Closes.ends ?_
  refine (carries_initializer? (inner.mono (Nat.sub_le m 1))).closing fun value => ?_
  exact (closes_expect _ _).then fun _ => ends_pure rfl

theorem closes_expressionStatement
    (inner : Carries σ m (Expr.relabel σ.toRelabelling) expr expr') :
    Closes σ m (Stmt.relabel σ.toRelabelling) (expressionStatement expr)
      (expressionStatement expr') := by
  unfold expressionStatement
  refine inner.closing fun e => ?_
  exact (closes_expect _ _).then fun _ => ends_pure rfl

theorem closes_printStatement (inner : Carries σ m (Expr.relabel σ.toRelabelling) expr expr') :
    Closes σ m (Stmt.relabel σ.toRelabelling) (printStatement expr) (printStatement expr') := by
  unfold printStatement
  refine inner.closing fun e => ?_
  exact (closes_expect _ _).then fun _ => ends_pure rfl

theorem carries_optional (inner : Carries σ m (Expr.relabel σ.toRelabelling) expr expr')
    (close : Punctuation) :
    Carries σ m (Expr.relabel? σ.toRelabelling) (optional close expr) (optional close expr') := by
  unfold optional
  refine (carries_isAt _).bind fun none => ?_
  cases none with
  | true => exact carries_pure rfl
  | false => exact inner.bind fun e => carries_pure rfl

theorem closes_returnStatement (inner : Carries σ m (Expr.relabel σ.toRelabelling) expr expr')
    (line : Nat) :
    Closes σ m (Stmt.relabel σ.toRelabelling) (returnStatement expr line)
      (returnStatement expr' (σ.line line)) := by
  unfold returnStatement
  refine (carries_optional inner _).closing fun value => ?_
  exact (closes_expect _ _).then fun _ => ends_pure rfl

/-- There is no `else` behind the seam. -/
theorem Ends.accept_else {f f' : Bool → Parser β} (yes : Ends σ m h (f true) (f' true))
    (no : Ends σ m h (f false) (f' false)) :
    Ends σ m h (accept (.keyword .else) >>= f) (accept (.keyword .else) >>= f') := by
  intro c c' meets few b c₂ ok
  rcases meets with inside | past
  · have shorter := Nat.le_of_lt inside.moved.1
    rcases (tries_accept _).inside c c' inside with
      ⟨a, took, found, found'⟩ | ⟨a, left, found, found'⟩
    · rw [bind_of_ok found] at ok
      rw [bind_of_ok found']
      rw [took] at ok ⊢
      obtain ⟨le, after⟩ :=
        yes c.moved c'.moved inside.moved.2 (Nat.le_trans shorter few) b c₂ ok
      exact ⟨Nat.le_trans le shorter, after⟩
    · rw [bind_of_ok found] at ok
      rw [bind_of_ok found']
      rw [Bool.eq_false_iff.mpr left] at ok ⊢
      exact no c c' (.inl inside) few b c₂ ok
  · have missing : accept (.keyword .else) c = .ok false c := by
      rw [accept, past.done.isAt]
      rfl
    have missing' : accept (.keyword .else) c' = .ok false c' := by
      unfold accept Cursor.isAt
      rw [past.current, σ.next_ne_else, Bool.and_false]
      rfl
    rw [bind_of_ok missing] at ok
    rw [bind_of_ok missing']
    exact no c c' (.inr past) few b c₂ ok

theorem closes_ifStatement (inner : Carries σ m (Expr.relabel σ.toRelabelling) expr expr')
    (branch : Closes σ m (Stmt.relabel σ.toRelabelling) stmt stmt') :
    Closes σ m (Stmt.relabel σ.toRelabelling) (ifStatement expr stmt) (ifStatement expr' stmt') := by
  unfold ifStatement
  refine (closes_expect _ _).then fun _ => Closes.ends ?_
  refine (inner.mono (by omega)).closing fun condition => ?_
  refine (closes_expect _ _).then fun _ => Closes.ends ?_
  refine (branch.mono (by omega)).then fun thenBranch => .accept_else ?_ (ends_pure rfl)
  refine Closes.ends ?_
  exact (branch.mono (by omega)).then fun elseBranch => ends_pure rfl

theorem closes_whileStatement (inner : Carries σ m (Expr.relabel σ.toRelabelling) expr expr')
    (branch : Closes σ m (Stmt.relabel σ.toRelabelling) stmt stmt') :
    Closes σ m (Stmt.relabel σ.toRelabelling) (whileStatement expr stmt)
      (whileStatement expr' stmt') := by
  unfold whileStatement
  refine (closes_expect _ _).then fun _ => Closes.ends ?_
  refine (inner.mono (by omega)).closing fun condition => ?_
  refine (closes_expect _ _).then fun _ => Closes.ends ?_
  exact (branch.mono (by omega)).then fun body => ends_pure rfl

theorem closes_forInitializer (inner : Carries σ m (Expr.relabel σ.toRelabelling) expr expr') :
    Closes σ m (Stmt.relabel? σ.toRelabelling) (forInitializer expr) (forInitializer expr') := by
  unfold forInitializer
  refine .accept (ends_pure rfl) (.accept (Closes.ends ?_) ?_)
  · exact (closes_varDeclaration (inner.mono (Nat.sub_le m 1))).then fun first => ends_pure rfl
  · exact (closes_expressionStatement inner).then fun first => ends_pure rfl

theorem relabel_forLoop (ρ : Relabelling) (initializer : Option Stmt)
    (condition increment : Option Expr) (body : Stmt) :
    (forLoop initializer condition increment body).relabel ρ
      = forLoop (Stmt.relabel? ρ initializer) (Expr.relabel? ρ condition)
          (Expr.relabel? ρ increment) (body.relabel ρ) := by
  cases initializer <;> cases condition <;> cases increment <;> rfl

theorem closes_forStatement (inner : Carries σ m (Expr.relabel σ.toRelabelling) expr expr')
    (branch : Closes σ m (Stmt.relabel σ.toRelabelling) stmt stmt') :
    Closes σ m (Stmt.relabel σ.toRelabelling) (forStatement expr stmt)
      (forStatement expr' stmt') := by
  unfold forStatement
  refine (closes_expect _ _).then fun _ => Closes.ends ?_
  refine (closes_forInitializer (inner.mono (by omega))).then fun initializer => Closes.ends ?_
  refine (carries_optional (inner.mono (by omega)) _).closing fun condition => ?_
  refine (closes_expect _ _).then fun _ => Closes.ends ?_
  refine (carries_optional (inner.mono (by omega)) _).closing fun increment => ?_
  refine (closes_expect _ _).then fun _ => Closes.ends ?_
  refine (branch.mono (by omega)).then fun body => ends_pure ?_
  exact relabel_forLoop _ initializer condition increment body

theorem closes_statementOf (declared : Closes σ (m - 1) (Stmt.relabel σ.toRelabelling) decl decl')
    (branch : Closes σ (m - 1) (Stmt.relabel σ.toRelabelling) stmt stmt') (le : m ≤ n) :
    Closes σ m (Stmt.relabel σ.toRelabelling) (statementOf decl stmt n)
      (statementOf decl' stmt' (n + d)) := by
  have inner : Carries σ (m - 1) (Expr.relabel σ.toRelabelling) (expression n)
      (expression (n + d)) := carries_expression d (by omega)
  unfold statementOf
  refine carries_peek.closing fun token => ?_
  refine .accept (closes_forStatement inner branch).ends ?_
  refine .accept (closes_ifStatement inner branch).ends ?_
  refine .accept (closes_whileStatement inner branch).ends ?_
  refine .accept (closes_returnStatement inner token.line).ends ?_
  refine .accept (Closes.ends ?_) (.accept (closes_printStatement inner).ends ?_)
  · refine (closes_block d declared (by omega)).then fun body => ends_pure ?_
    rw [Stmt.relabel, Stmt.relabelAll_eq_map]
  · rw [Nat.add_right_comm n d 1]
    exact closes_expressionStatement (carries_expression d (by omega))

/-- Where a rule succeeds there is nothing to recover from. -/
theorem recovering_ok_iff (q : Parser α) (c : Cursor) (a : α) (c₁ : Cursor) :
    recovering q c = .ok a c₁ ↔ q c = .ok a c₁ := by
  unfold recovering
  cases q c with
  | ok b c₂ => exact Iff.rfl
  | error e c₂ => exact ⟨nofun, nofun⟩

theorem Closes.recovering (closes : Closes σ m g p p') :
    Closes σ m g (recovering p) (Parser.recovering p') where
  ended c done a c₁ ok := closes.ended c done a c₁ ((recovering_ok_iff p c a c₁).mp ok)
  inside c c' inside few a c₁ ok := by
    obtain ⟨lt, c₁', same, meets⟩ :=
      closes.inside c c' inside few a c₁ ((recovering_ok_iff p c a c₁).mp ok)
    exact ⟨lt, c₁', (recovering_ok_iff p' c' (g a) c₁').mpr same, meets⟩

theorem closes_declarationOf
    (declared : Closes σ (m - 1) (Stmt.relabel σ.toRelabelling) decl decl')
    (branch : Closes σ (m - 1) (Stmt.relabel σ.toRelabelling) stmt stmt') (le : m ≤ n) :
    Closes σ m (Stmt.relabel σ.toRelabelling) (declarationOf decl stmt n)
      (declarationOf decl' stmt' (n + d)) := by
  have inner : Carries σ (m - 1) (Expr.relabel σ.toRelabelling) (expression n)
      (expression (n + d)) := carries_expression d (by omega)
  unfold declarationOf
  refine .recovering (.accept (closes_classDeclaration d declared (by omega)).ends ?_)
  refine .accept (Closes.ends ?_) (.accept (closes_varDeclaration inner).ends ?_)
  · exact (closes_function d declared (by omega) _).then fun f => ends_pure rfl
  · exact closes_statementOf d declared branch le

end

/-- **Statements and declarations** are read the same with a greater bound. -/
theorem closes_statement_declaration (d : Nat) {n : Nat} (le : m ≤ n - 1) :
    Closes σ m (Stmt.relabel σ.toRelabelling) (statement n) (statement (n + d)) ∧
      Closes σ m (Stmt.relabel σ.toRelabelling) (declaration n) (declaration (n + d)) := by
  induction n generalizing m with
  | zero =>
    rw [statement, declaration]
    exact ⟨.of_fails (fails_fail _), .of_fails fun c a c₁ ok =>
      fails_fail _ c a c₁ ((recovering_ok_iff _ c a c₁).mp ok)⟩
  | succ n ih =>
    rw [Nat.add_right_comm n 1 d, statement, statement, declaration, declaration]
    obtain ⟨branch, declared⟩ := ih (m := m - 1) (by omega)
    exact ⟨closes_statementOf d declared branch (by omega),
      closes_declarationOf d declared branch (by omega)⟩

/-! ## What begins no declaration -/

/-- The rule fails at an `else`. -/
def Refuses (q : Parser α) : Prop :=
  ∀ c, c.current.kind = .keyword .else → ∀ a c₁, q c ≠ .ok a c₁

/-- The rule finds nothing at an `else` and leaves the cursor. -/
def Passes (q : Parser α) (a : α) : Prop :=
  ∀ c, c.current.kind = .keyword .else → q c = .ok a c

theorem Refuses.bind {q : Parser α} {f : α → Parser β} (refuses : Refuses q) :
    Refuses (q >>= f) := by
  intro c here b c₂ ok
  obtain ⟨a, c₁, ok₁, -⟩ := bind_ok ok
  exact refuses c here a c₁ ok₁

theorem Passes.refuses {q : Parser α} {f : α → Parser β} {a : α} (passes : Passes q a)
    (second : Refuses (f a)) : Refuses (q >>= f) := by
  intro c here b c₂ ok
  rw [bind_of_ok (passes c here)] at ok
  exact second c here b c₂ ok

theorem passes_accept {kind : Kind} (other : Kind.agrees (.keyword .else) kind = false) :
    Passes (accept kind) false := by
  intro c here
  unfold accept Cursor.isAt
  rw [here, other, Bool.and_false]
  rfl

theorem passes_signs (n : Nat) : Passes (signs n []) [] := by
  intro c here
  cases n with
  | zero => rfl
  | succ n =>
    have none : acceptAs? UnaryOp.ofKind? c = .ok none c := by
      unfold acceptAs?
      rw [here]
      cases c.atEnd <;> rfl
    unfold signs
    rw [bind_of_ok none]
    rfl

theorem refuses_primary (expr : Parser Expr) : Refuses (primary expr) := by
  intro c here a c₁ ok
  obtain ⟨token, c₂, peeked, ok⟩ := bind_ok ok
  cases peeked
  obtain ⟨⟨kind, lexeme, line⟩, rest, nextId⟩ := c
  cases here
  obtain ⟨ended, c₂, -, ok⟩ := bind_ok ok
  cases ended <;> cases ok

theorem refuses_levels (expr : Parser Expr) (n : Nat) (ls : List Level) :
    Refuses (levels expr n ls) := by
  induction ls with
  | nil => exact (passes_signs n).refuses (refuses_primary expr).bind
  | cons level tighter ih => exact ih.bind

theorem refuses_expression (n : Nat) : Refuses (expression n) := by
  cases n with
  | zero => exact fun c _ => fails_fail _ c
  | succ n => exact (refuses_levels _ n _).bind

theorem refuses_statementOf (decl stmt : Parser Stmt) (n : Nat) :
    Refuses (statementOf decl stmt n) := by
  intro c here a c₁ ok
  obtain ⟨token, c₂, peeked, ok⟩ := bind_ok ok
  cases peeked
  have nothing := (refuses_expression (n + 1)).bind (f := fun e => do
    let _ ← expect (.punctuation .semicolon) "';' after expression"
    return Stmt.expression e)
  refine Passes.refuses (passes_accept rfl) ?_ c here a c₁ ok
  refine (passes_accept rfl).refuses ((passes_accept rfl).refuses ?_)
  refine (passes_accept rfl).refuses ((passes_accept rfl).refuses ?_)
  exact (passes_accept rfl).refuses nothing

/-- **No declaration begins with `else`.** -/
theorem refuses_declaration (n : Nat) : Refuses (declaration n) := by
  intro c here a c₁ ok
  cases n with
  | zero =>
    rw [declaration] at ok
    exact fails_fail _ c a c₁ ((recovering_ok_iff _ c a c₁).mp ok)
  | succ n =>
    rw [declaration] at ok
    refine Passes.refuses (passes_accept rfl) ?_ c here a c₁ ((recovering_ok_iff _ c a c₁).mp ok)
    refine (passes_accept rfl).refuses ((passes_accept rfl).refuses ?_)
    exact refuses_statementOf _ _ n

end Parser

end Lox
