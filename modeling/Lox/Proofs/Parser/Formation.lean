import Lox.Proofs.Parser.Numbering

/-!
# Well formed programs

The rules for statements yield well formed trees, and what is written as a statement declares
nothing: declarations stand in programs, blocks and bodies only, and the two clauses of a `for` that
could declare a variable end up in a block around the loop.
-/

set_option autoImplicit false

namespace Lox.Parser

/-- A well formed tree whose uses were issued while it was read. -/
structure Declared (strict : Prop) (lo hi : Nat) (s : Stmt) : Prop where
  formed : strict → s.Formed
  issued : Issued strict lo hi s.accesses

/-- A well formed tree that declares nothing. -/
structure Stated (strict : Prop) (lo hi : Nat) (s : Stmt) : Prop extends Declared strict lo hi s where
  plain : s.isPlain = true

/-- Well formed trees whose uses were issued while they were read. -/
structure AllDeclared (strict : Prop) (lo hi : Nat) (ss : List Stmt) : Prop where
  formed : strict → Stmt.AllFormed ss
  issued : Issued strict lo hi (Stmt.accessesOfAll ss)

/-- A well formed function whose uses were issued while it was read. -/
structure FunctionDeclared (strict : Prop) (lo hi : Nat) (f : FunctionDecl) : Prop where
  formed : strict → f.Formed
  issued : Issued strict lo hi f.accesses

/-- Well formed functions whose uses were issued while they were read. -/
structure AllFunctionsDeclared (strict : Prop) (lo hi : Nat) (fs : List FunctionDecl) : Prop where
  formed : strict → FunctionDecl.AllFormed fs
  issued : Issued strict lo hi (FunctionDecl.accessesOfAll fs)

variable {strict : Prop} {lo mid hi : Nat}

theorem AllDeclared.nil (lo hi : Nat) : AllDeclared strict lo hi [] :=
  ⟨fun _ => trivial, .nil lo hi⟩

theorem AllDeclared.cons {s : Stmt} {ss : List Stmt} (first : Declared strict lo mid s)
    (rest : AllDeclared strict mid hi ss) (le : lo ≤ mid) (le' : mid ≤ hi) :
    AllDeclared strict lo hi (s :: ss) :=
  ⟨fun known => ⟨first.formed known, rest.formed known⟩, first.issued.append rest.issued le le'⟩

theorem AllFunctionsDeclared.nil (lo hi : Nat) : AllFunctionsDeclared strict lo hi [] :=
  ⟨fun _ => trivial, .nil lo hi⟩

theorem AllFunctionsDeclared.cons {f : FunctionDecl} {fs : List FunctionDecl}
    (first : FunctionDeclared strict lo mid f) (rest : AllFunctionsDeclared strict mid hi fs)
    (le : lo ≤ mid) (le' : mid ≤ hi) : AllFunctionsDeclared strict lo hi (f :: fs) :=
  ⟨fun known => ⟨first.formed known, rest.formed known⟩, first.issued.append rest.issued le le'⟩

/-- What is read after something fails is numbered from a later time. -/
theorem AllDeclared.after {ss : List Stmt} (rest : AllDeclared strict mid hi ss) (le : lo ≤ mid) :
    AllDeclared strict lo hi ss :=
  ⟨rest.formed, rest.issued.mono le (Nat.le_refl hi)⟩

/-! ## Blocks, functions and classes -/

section

variable {decl : Parser Stmt}

theorem yields_blockAfter (inner : Yields strict decl (Declared strict)) (n : Nat)
    (read : List Stmt) :
    Yields strict (blockAfter decl n read) fun lo hi ss =>
      ∃ new, ss = read.reverse ++ new ∧ AllDeclared strict lo hi new := by
  induction n generalizing read with
  | zero =>
    exact (reads_expect _ _).bind fun _ _ =>
      yields_pure fun n => ⟨[], (List.append_nil _).symm, .nil n n⟩
  | succ n ih =>
    unfold blockAfter
    refine (reads_isAt _).bind fun closed _ => reads_atEnd.bind fun ended _ => ?_
    cases closed || ended with
    | true =>
      exact (reads_expect _ _).bind fun _ _ =>
        yields_pure fun n => ⟨[], (List.append_nil _).symm, .nil n n⟩
    | false =>
      refine inner.bind fun stmt => (ih (stmt :: read)).mono ?_
      rintro mid hi ss le' ⟨new, rfl, rest⟩ lo le _ first
      refine ⟨stmt :: new, ?_, .cons first rest le le'⟩
      rw [List.reverse_cons, List.append_assoc, List.singleton_append]

theorem yields_block (inner : Yields strict decl (Declared strict)) (n : Nat) :
    Yields strict (block decl n) (AllDeclared strict) := by
  refine (yields_blockAfter inner n []).mono ?_
  rintro lo hi ss - ⟨new, rfl, declared⟩
  exact declared

theorem reads_parametersAfter (n : Nat) (read : List Name)
    (before : ∀ param ∈ read, strict → param.IsIdentifier) :
    Reads strict (parametersAfter n read) fun params =>
      ∀ param ∈ params, strict → param.IsIdentifier := by
  induction n generalizing read with
  | zero => exact reads_pure fun param member => before param (List.mem_reverse.mp member)
  | succ n ih =>
    unfold parametersAfter
    split
    · exact fun c spelt => ⟨spelt, rfl⟩
    · refine (reads_name _).then fun param identifier => (reads_accept _).then fun more _ => ?_
      have all : ∀ other ∈ param :: read, strict → other.IsIdentifier := by
        intro other member
        rcases List.mem_cons.mp member with rfl | earlier
        · exact identifier
        · exact before other earlier
      cases more with
      | true => exact ih (param :: read) all
      | false => exact reads_pure fun other member => all other (List.mem_reverse.mp member)

theorem reads_parameters (n : Nat) :
    Reads strict (parameters n) fun params => ∀ param ∈ params, strict → param.IsIdentifier := by
  unfold parameters
  refine (reads_isAt _).then fun none _ => ?_
  cases none with
  | true => exact reads_pure fun _ member => absurd member List.not_mem_nil
  | false => exact reads_parametersAfter n [] fun _ member => absurd member List.not_mem_nil

theorem yields_function (inner : Yields strict decl (Declared strict)) (n : Nat) (what : String) :
    Yields strict (function decl n what) (FunctionDeclared strict) := by
  refine (reads_name _).bind fun name identifier => (reads_expect _ _).bind fun _ _ =>
    (reads_parameters n).bind fun params identifiers => (reads_expect _ _).bind fun _ _ =>
      (reads_expect _ _).bind fun _ _ => (yields_block inner n).bind fun body => yields_pure ?_
  intro hi lo _ _ declared
  exact ⟨fun known => ⟨identifier known, fun param member => identifiers param member known,
    declared.formed known⟩, declared.issued⟩

theorem yields_methodsAfter (inner : Yields strict decl (Declared strict)) (n : Nat)
    (read : List FunctionDecl) :
    Yields strict (methodsAfter decl n read) fun lo hi fs =>
      ∃ new, fs = read.reverse ++ new ∧ AllFunctionsDeclared strict lo hi new := by
  induction n generalizing read with
  | zero => exact yields_pure fun n => ⟨[], (List.append_nil _).symm, .nil n n⟩
  | succ n ih =>
    unfold methodsAfter
    refine (reads_isAt _).bind fun closed _ => reads_atEnd.bind fun ended _ => ?_
    cases closed || ended with
    | true => exact yields_pure fun n => ⟨[], (List.append_nil _).symm, .nil n n⟩
    | false =>
      refine (yields_function inner n _).bind fun method => (ih (method :: read)).mono ?_
      rintro mid hi fs le' ⟨new, rfl, rest⟩ lo le _ first
      refine ⟨method :: new, ?_, .cons first rest le le'⟩
      rw [List.reverse_cons, List.append_assoc, List.singleton_append]

theorem yields_superclass? :
    Yields strict superclass? fun lo hi parent =>
      Issued strict lo hi (Superclass.accessesOf? parent) := by
  unfold superclass?
  refine (reads_accept _).bind fun inherits _ => ?_
  cases inherits with
  | false => exact yields_pure fun n => .nil n n
  | true =>
    refine (reads_name _).bind fun name identifier => yields_freshId.bind fun id => yields_pure ?_
    rintro mid lo - - ⟨rfl, numbered⟩
    exact .single (Superclass.access ⟨id, name⟩) identifier numbered

theorem yields_classDeclaration (inner : Yields strict decl (Declared strict)) (n : Nat) :
    Yields strict (classDeclaration decl n) (Declared strict) := by
  refine (reads_name _).bind fun name identifier => yields_superclass?.bind fun parent =>
    (reads_expect _ _).bind fun _ _ => (yields_methodsAfter inner n []).bind fun methods =>
      (reads_expect _ _).bind fun _ _ => yields_pure ?_
  rintro hi mid le' - ⟨methods, rfl, declared⟩ lo le - issued
  exact ⟨fun known => ⟨identifier known, declared.formed known⟩, issued.append declared.issued le le'⟩

end

/-! ## Statements -/

section

variable {expr : Parser Expr} {decl stmt : Parser Stmt}

theorem yields_initializer? (inner : Yields strict expr (Fresh strict)) :
    Yields strict (initializer? expr) fun lo hi e => Issued strict lo hi (Expr.accessesOf? e) := by
  unfold initializer?
  refine (reads_accept _).bind fun given _ => ?_
  cases given with
  | false => exact yields_pure fun n => .nil n n
  | true => exact inner.bind fun e => yields_pure fun hi lo _ _ issued => issued

theorem yields_optional (close : Punctuation) (inner : Yields strict expr (Fresh strict)) :
    Yields strict (optional close expr) fun lo hi e => Issued strict lo hi (Expr.accessesOf? e) := by
  unfold optional
  refine (reads_isAt _).bind fun closed _ => ?_
  cases closed with
  | true => exact yields_pure fun n => .nil n n
  | false => exact inner.bind fun e => yields_pure fun hi lo _ _ issued => issued

theorem yields_varDeclaration (inner : Yields strict expr (Fresh strict)) :
    Yields strict (varDeclaration expr) (Declared strict) := by
  refine (reads_name _).bind fun name identifier => (yields_initializer? inner).bind fun value =>
    (reads_expect _ _).bind fun _ _ => yields_pure ?_
  intro hi lo _ _ issued
  exact ⟨identifier, issued⟩

theorem yields_expressionStatement (inner : Yields strict expr (Fresh strict)) :
    Yields strict (expressionStatement expr) (Stated strict) := by
  refine inner.bind fun e => (reads_expect _ _).bind fun _ _ => yields_pure ?_
  intro hi lo _ _ issued
  exact ⟨⟨fun _ => trivial, issued⟩, rfl⟩

theorem yields_printStatement (inner : Yields strict expr (Fresh strict)) :
    Yields strict (printStatement expr) (Stated strict) := by
  refine inner.bind fun e => (reads_expect _ _).bind fun _ _ => yields_pure ?_
  intro hi lo _ _ issued
  exact ⟨⟨fun _ => trivial, issued⟩, rfl⟩

theorem yields_returnStatement (inner : Yields strict expr (Fresh strict)) (line : Nat) :
    Yields strict (returnStatement expr line) (Stated strict) := by
  refine (yields_optional _ inner).bind fun e => (reads_expect _ _).bind fun _ _ => yields_pure ?_
  intro hi lo _ _ issued
  exact ⟨⟨fun _ => trivial, issued⟩, rfl⟩

theorem yields_ifStatement (ofExpr : Yields strict expr (Fresh strict))
    (ofStmt : Yields strict stmt (Stated strict)) :
    Yields strict (ifStatement expr stmt) (Stated strict) := by
  refine (reads_expect _ _).bind fun _ _ => ofExpr.bind fun condition =>
    (reads_expect _ _).bind fun _ _ => ofStmt.bind fun thenBranch =>
      (reads_accept _).bind fun otherwise _ => ?_
  cases otherwise with
  | false =>
    refine yields_pure ?_
    intro hi mid le' _ first lo le _ issued
    exact ⟨⟨fun known => ⟨⟨first.formed known, first.plain⟩, trivial⟩,
      (issued.append first.issued le le').append (.nil hi hi) (Nat.le_trans le le') (Nat.le_refl hi)⟩,
      rfl⟩
  | true =>
    refine ofStmt.bind fun elseBranch => yields_pure ?_
    intro hi late le'' _ second mid le' _ first lo le _ issued
    exact ⟨⟨fun known => ⟨⟨first.formed known, first.plain⟩, ⟨second.formed known, second.plain⟩⟩,
      (issued.append first.issued le le').append second.issued (Nat.le_trans le le') le''⟩, rfl⟩

theorem yields_whileStatement (ofExpr : Yields strict expr (Fresh strict))
    (ofStmt : Yields strict stmt (Stated strict)) :
    Yields strict (whileStatement expr stmt) (Stated strict) := by
  refine (reads_expect _ _).bind fun _ _ => ofExpr.bind fun condition =>
    (reads_expect _ _).bind fun _ _ => ofStmt.bind fun body => yields_pure ?_
  intro hi mid le' _ inside lo le _ issued
  exact ⟨⟨fun known => ⟨inside.formed known, inside.plain⟩, issued.append inside.issued le le'⟩, rfl⟩

theorem yields_forInitializer (inner : Yields strict expr (Fresh strict)) :
    Yields strict (forInitializer expr) fun lo hi first =>
      match first with
      | some s => Declared strict lo hi s
      | none => lo = hi := by
  unfold forInitializer
  refine (reads_accept _).bind fun absent _ => ?_
  cases absent with
  | true => exact yields_pure fun n => rfl
  | false =>
    refine (reads_accept _).bind fun declares _ => ?_
    cases declares with
    | true =>
      exact (yields_varDeclaration inner).bind fun s => yields_pure fun hi lo _ _ declared => declared
    | false =>
      exact (yields_expressionStatement inner).bind fun s =>
        yields_pure fun hi lo _ _ stated => stated.toDeclared

/-- The increment of a loop runs after its body, though it is read before. -/
theorem Stated.forBody (increment : Option Expr) (body : Stmt) :
    Issued strict lo mid (Expr.accessesOf? increment) → Stated strict mid hi body →
      lo ≤ mid → mid ≤ hi →
    Stated strict lo hi (match increment with
      | some e => .block [body, .expression e]
      | none => body) := by
  intro issued inside le le'
  cases increment with
  | none => exact ⟨⟨inside.formed, inside.issued.mono le (Nat.le_refl hi)⟩, inside.plain⟩
  | some e =>
    refine ⟨⟨fun known => ⟨inside.formed known, trivial, trivial⟩, ?_⟩, rfl⟩
    show Issued strict lo hi (body.accesses ++ (e.accesses ++ []))
    rw [List.append_nil]
    exact issued.appendTo inside.issued le le'

theorem Stated.while {condition : Option Expr} {body : Stmt}
    (issued : Issued strict lo mid (Expr.accessesOf? condition)) (inside : Stated strict mid hi body)
    (le : lo ≤ mid) (le' : mid ≤ hi) :
    Stated strict lo hi (.while (condition.getD (.literal (.bool true))) body) := by
  refine ⟨⟨fun known => ⟨inside.formed known, inside.plain⟩, ?_⟩, rfl⟩
  cases condition <;> exact issued.append inside.issued le le'

theorem Stated.forLoop {n₀ n₁ n₂ n₃ n₄ : Nat} {initializer : Option Stmt}
    {condition increment : Option Expr} {body : Stmt}
    (first : match initializer with
      | some s => Declared strict n₀ n₁ s
      | none => n₀ = n₁)
    (test : Issued strict n₁ n₂ (Expr.accessesOf? condition))
    (step : Issued strict n₂ n₃ (Expr.accessesOf? increment)) (inside : Stated strict n₃ n₄ body)
    (le₀ : n₀ ≤ n₁) (le₁ : n₁ ≤ n₂) (le₂ : n₂ ≤ n₃) (le₃ : n₃ ≤ n₄) :
    Stated strict n₀ n₄ (forLoop initializer condition increment body) := by
  have loop := Stated.while test (Stated.forBody increment body step inside le₂ le₃) le₁
    (Nat.le_trans le₂ le₃)
  cases initializer with
  | none =>
    subst first
    exact loop
  | some s =>
    have both := AllDeclared.cons first (.cons loop.toDeclared (.nil n₄ n₄) (by omega) (by omega))
      le₀ (by omega)
    exact ⟨⟨both.formed, both.issued⟩, rfl⟩

theorem yields_forStatement (ofExpr : Yields strict expr (Fresh strict))
    (ofStmt : Yields strict stmt (Stated strict)) :
    Yields strict (forStatement expr stmt) (Stated strict) := by
  refine (reads_expect _ _).bind fun _ _ => (yields_forInitializer ofExpr).bind fun initializer =>
    (yields_optional _ ofExpr).bind fun condition => (reads_expect _ _).bind fun _ _ =>
      (yields_optional _ ofExpr).bind fun increment => (reads_expect _ _).bind fun _ _ =>
        ofStmt.bind fun body => yields_pure ?_
  intro n₄ n₃ le₃ _ inside n₂ le₂ _ step n₁ le₁ _ test n₀ le₀ _ first
  exact .forLoop first test step inside le₀ le₁ le₂ le₃

theorem yields_statementOf (ofDecl : Yields strict decl (Declared strict))
    (ofStmt : Yields strict stmt (Stated strict)) (n : Nat) :
    Yields strict (statementOf decl stmt n) (Stated strict) := by
  have ofExpr : Yields strict (expression n) (Fresh strict) := yields_expression n
  refine reads_peek.bind fun token _ => (reads_accept _).bind fun isFor _ => ?_
  cases isFor with
  | true => exact yields_forStatement ofExpr ofStmt
  | false =>
  refine (reads_accept _).bind fun isIf _ => ?_
  cases isIf with
  | true => exact yields_ifStatement ofExpr ofStmt
  | false =>
  refine (reads_accept _).bind fun isWhile _ => ?_
  cases isWhile with
  | true => exact yields_whileStatement ofExpr ofStmt
  | false =>
  refine (reads_accept _).bind fun isReturn _ => ?_
  cases isReturn with
  | true => exact yields_returnStatement ofExpr _
  | false =>
  refine (reads_accept _).bind fun isBlock _ => ?_
  cases isBlock with
  | true =>
    refine (yields_block ofDecl n).bind fun body => yields_pure ?_
    intro hi lo _ _ declared
    exact ⟨⟨declared.formed, declared.issued⟩, rfl⟩
  | false =>
  refine (reads_accept _).bind fun isPrint _ => ?_
  cases isPrint with
  | true => exact yields_printStatement ofExpr
  | false => exact yields_expressionStatement (yields_expression (n + 1))

theorem yields_declarationOf (ofDecl : Yields strict decl (Declared strict))
    (ofStmt : Yields strict stmt (Stated strict)) (n : Nat) :
    Yields strict (declarationOf decl stmt n) (Declared strict) := by
  refine yields_recovering ?_
  refine (reads_accept _).bind fun isClass _ => ?_
  cases isClass with
  | true => exact yields_classDeclaration ofDecl n
  | false =>
  refine (reads_accept _).bind fun isFunction _ => ?_
  cases isFunction with
  | true =>
    refine (yields_function ofDecl n _).bind fun f => yields_pure ?_
    intro hi lo _ _ declared
    exact ⟨declared.formed, declared.issued⟩
  | false =>
  refine (reads_accept _).bind fun isVar _ => ?_
  cases isVar with
  | true => exact yields_varDeclaration (yields_expression n)
  | false => exact (yields_statementOf ofDecl ofStmt n).mono fun _ _ _ _ stated => stated.toDeclared

end

/-- **Statements and declarations are read as well formed trees with numbers of their own.** -/
theorem yields_statement (n : Nat) :
    Yields strict (statement n) (Stated strict) ∧
      Yields strict (declaration n) (Declared strict) := by
  induction n with
  | zero => exact ⟨yields_fail _ _, yields_recovering (yields_fail _ _)⟩
  | succ n ih => exact ⟨yields_statementOf ih.2 ih.1 n, yields_declarationOf ih.2 ih.1 n⟩

/-! ## Programs -/

/-- The counter grows over a program, and numbers what is read. -/
theorem declared_declarations (bound n : Nat) (read : List Stmt) (faults : List SyntaxError)
    (c : Cursor) (spelt : strict → c.Spelt) {result : List Stmt × List SyntaxError × Cursor}
    (ends : declarations bound n read faults c = result) :
    c.nextId ≤ result.2.2.nextId ∧
      ∃ new, result.1 = read.reverse ++ new ∧ AllDeclared strict c.nextId result.2.2.nextId new := by
  induction n generalizing read faults c with
  | zero =>
    subst ends
    exact ⟨Nat.le_refl _, [], (List.append_nil _).symm, .nil _ _⟩
  | succ n ih =>
    unfold declarations at ends
    cases atEnd : c.atEnd with
    | true =>
      rw [atEnd, if_pos rfl] at ends
      subst ends
      exact ⟨Nat.le_refl _, [], (List.append_nil _).symm, .nil _ _⟩
    | false =>
      rw [atEnd, if_neg Bool.false_ne_true] at ends
      have here := (yields_statement bound).2 c spelt
      cases found : declaration bound c with
      | ok stmt c' =>
        rw [found] at here ends
        obtain ⟨spelt', le, first⟩ := here
        obtain ⟨le', new, program, rest⟩ := ih (stmt :: read) faults c' spelt' ends
        refine ⟨Nat.le_trans le le', stmt :: new, ?_, .cons first rest le le'⟩
        rw [program, List.reverse_cons, List.append_assoc, List.singleton_append]
      | error fault c' =>
        rw [found] at here ends
        obtain ⟨spelt', le⟩ := here
        obtain ⟨le', new, program, rest⟩ := ih read (fault :: faults) c' spelt' ends
        exact ⟨Nat.le_trans le le', new, program, rest.after le⟩

/-- How many ids the reading of a program takes. -/
def idsTaken (tokens : List Token) (firstId : NodeId) : Nat :=
  match tokens with
  | [] => 0
  | first :: rest =>
    (declarations tokens.length tokens.length [] [] (start first rest firstId)).2.2.nextId - firstId

theorem nextId_parse (tokens : List Token) {firstId : NodeId} (small : firstId < idCount) :
    (parse tokens firstId).nextId = (firstId + idsTaken tokens firstId) % idCount := by
  cases tokens with
  | nil => exact (Nat.mod_eq_of_lt small).symm
  | cons first rest =>
    have grows := (declared_declarations (rest.length + 1) (rest.length + 1) [] []
      (start first rest firstId) (fun strict : False => strict.elim) rfl).1
    have sum : firstId + idsTaken (first :: rest) firstId = _ := Nat.add_sub_cancel' grows
    rw [sum]
    rfl

/-- A program that is read is well formed, and numbered by the ids that were taken. -/
theorem declared_parse {tokens : List Token} {firstId : NodeId} {program : List Stmt}
    (spelt : strict → ∀ t ∈ tokens, t.Spelt) (read : (parse tokens firstId).outcome = .ok program) :
    AllDeclared strict firstId (firstId + idsTaken tokens firstId) program := by
  cases tokens with
  | nil =>
    obtain rfl : [] = program := Except.ok.inj read
    exact .nil _ _
  | cons first rest =>
    obtain ⟨grows, new, same, declared⟩ := declared_declarations (rest.length + 1)
      (rest.length + 1) [] [] (start first rest firstId) spelt rfl
    have sum : firstId + idsTaken (first :: rest) firstId = _ := Nat.add_sub_cancel' grows
    rw [sum]
    unfold parse at read
    dsimp only at read
    split at read
    · obtain rfl := Except.ok.inj read
      rw [List.length_cons, same]
      exact declared
    · cases read

end Lox.Parser
