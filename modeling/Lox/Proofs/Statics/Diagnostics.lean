import Lox.Proofs.Statics.Occurrences
import Lox.Proofs.Relabelling.Analysis

/-!
# The analysis reports the violations

The analysis carries scopes and contexts from one statement to the next. What it reports of an
occurrence depends on that state, while the static rules speak of the place of the occurrence. The
two agree because the state says of the place all that the rules ask: the nearest function, the
nearest class, and the names that the innermost scope has so far (`Resolver.Stands`).

A statement leaves the contexts and the scopes as it found them, but for the names that it declares
in the innermost scope (`Resolver.gains_statement`). So the next statement is met in the state of
its own place, and the reports follow by induction on the tree.
-/

set_option autoImplicit false

namespace Lox

theorem Scope.ready?_put (scope : Scope) (name key : String) (ready : Bool) :
    (scope.put name ready).ready? key = if key = name then some ready else scope.ready? key := by
  unfold Scope.put Scope.ready?
  by_cases same : key = name
  · simp [same]
  · simp [List.lookup_cons, same, beq_eq_false_iff_ne.mpr same]

namespace Resolver

/-! ## What a statement leaves of the scopes -/

/-- The scopes after some names were declared in the innermost one. -/
inductive Gains (names : List String) : List Scope → List Scope → Prop
  | globals : Gains names [] []
  | inside {scope scope' : Scope} {outer : List Scope}
      (ready : ∀ key, scope'.ready? key = if key ∈ names then some true else scope.ready? key) :
      Gains names (scope :: outer) (scope' :: outer)

namespace Gains

variable {names more : List String} {ss ss₁ ss₂ : List Scope}

theorem refl (ss : List Scope) : Gains [] ss ss := by
  cases ss with
  | nil => exact .globals
  | cons scope outer => exact .inside (by simp)

/-- A name that is declared once more is ready as before. -/
theorem append (first : Gains names ss ss₁) (second : Gains more ss₁ ss₂) :
    Gains (names ++ more) ss ss₂ := by
  cases first with
  | globals =>
    cases second
    exact .globals
  | inside ready =>
    cases second with
    | inside ready' =>
      refine .inside fun key => ?_
      rw [ready', ready]
      -- Declared in either part or in both, a name is ready in the end.
      by_cases late : key ∈ more
      · simp [late]
      · simp [late]

theorem tail (gains : Gains names ss ss₁) : ss₁.tail = ss.tail := by
  cases gains <;> rfl

end Gains

/-- A name that is put last is ready, whatever the scope had for it before. -/
theorem gains_define {r r' : Resolver} {name : Name} {ss : List Scope}
    (others : match ss, r.scopes with
      | [], scopes => scopes = []
      | scope :: outer, scopes => ∃ scope', scopes = scope' :: outer ∧
        ∀ key, key ≠ name.lexeme → scope'.ready? key = scope.ready? key)
    (same : r'.scopes = r.scopes) : Gains [name.lexeme] ss (r'.define name).scopes := by
  unfold define
  rw [scopes_put, same]
  cases ss with
  | nil =>
    dsimp only at others
    rw [others]
    exact .globals
  | cons scope outer =>
    obtain ⟨scope', inside, others⟩ := others
    rw [inside]
    refine .inside fun key => ?_
    rw [Scope.ready?_put]
    by_cases here : key = name.lexeme
    · simp [here]
    · simp [here, others key here]

/-- Between its declaration and its definition a name may be in any state. -/
theorem others_declare (r : Resolver) (name : Name) :
    match r.scopes, (r.declare name).scopes with
    | [], scopes => scopes = []
    | scope :: outer, scopes => ∃ scope', scopes = scope' :: outer ∧
      ∀ key, key ≠ name.lexeme → scope'.ready? key = scope.ready? key := by
  unfold declare
  cases around : r.scopes with
  | nil => exact around
  | cons scope outer =>
    dsimp only
    split
    · exact ⟨scope, around, fun _ _ => rfl⟩
    · refine ⟨scope.put name.lexeme false, by rw [scopes_put, around], fun key other => ?_⟩
      rw [Scope.ready?_put, if_neg other]

theorem gains_introduce (r : Resolver) (name : Name) :
    Gains [name.lexeme] r.scopes (r.introduce name).scopes :=
  gains_define (others_declare r name) rfl

theorem gains_introduceAll (names : List Name) (r : Resolver) :
    Gains (names.map Name.lexeme) r.scopes (names.foldl introduce r).scopes := by
  induction names generalizing r with
  | nil => exact .refl r.scopes
  | cons name names ih => exact (gains_introduce r name).append (ih (r.introduce name))

mutual

/-- **A statement leaves the scopes as they were**, but for the names that it declares. -/
theorem gains_statement (s : Stmt) (r : Resolver) :
    Gains s.declarations r.scopes (statement s r).scopes := by
  match s with
  | .expression e | .print e =>
    show Gains [] r.scopes (expression e r).scopes
    rw [scopes_expression]
    exact .refl _
  | .var name initializer =>
    exact gains_define (others_declare r name) (scopes_expression? initializer (r.declare name))
  | .block body =>
    rw [show (statement (.block body) r).scopes = r.scopes from
      (gains_statements body r.enter).tail]
    exact .refl _
  | .if condition thenBranch none =>
    have first := gains_statement thenBranch (expression condition r)
    rwa [scopes_expression] at first
  | .if condition thenBranch (some elseBranch) =>
    have first := gains_statement thenBranch (expression condition r)
    rw [scopes_expression] at first
    exact first.append (gains_statement elseBranch _)
  | .while condition body =>
    have inside := gains_statement body (expression condition r)
    rwa [scopes_expression] at inside
  | .function declaration =>
    rw [show (statement (.function declaration) r).scopes = (r.introduce declaration.name).scopes
      from scopes_function_eq declaration .function _]
    exact gains_introduce r declaration.name
  | .return line value =>
    rw [show (statement (.return line value) r).scopes = r.scopes from
      scopes_returned line value r]
    exact .refl _
  | .class name parent methodDecls =>
    have inside := scopes_methods_eq methodDecls (r.enterClass name parent)
    rw [scopes_enterClass] at inside
    -- The scope around the methods is left, and with a superclass the one around that as well.
    have left : (statement (.class name parent methodDecls) r).scopes
        = (r.introduce name).scopes := by
      cases parent with
      | none =>
        show (methods methodDecls (r.enterClass name none)).scopes.tail = _
        rw [inside]
        rfl
      | some above =>
        show (methods methodDecls (r.enterClass name (some above))).scopes.tail.tail = _
        rw [inside]
        rfl
    rw [left]
    exact gains_introduce r name

theorem gains_statements (ss : List Stmt) (r : Resolver) :
    Gains (ss.flatMap Stmt.declarations) r.scopes (statements ss r).scopes := by
  match ss with
  | [] => exact .refl _
  | s :: ss => exact (gains_statement s r).append (gains_statements ss (statement s r))

theorem scopes_function_eq (f : FunctionDecl) (context : FunctionContext) (r : Resolver) :
    (function f context r).scopes = r.scopes := by
  match f with
  | .mk name params body =>
    have opened := gains_introduceAll params { r with functionContext := context }.enter
    exact (gains_statements body _).tail.trans opened.tail

theorem scopes_methods_eq (fs : List FunctionDecl) (r : Resolver) :
    (methods fs r).scopes = r.scopes := by
  match fs with
  | [] => rfl
  | f :: fs => exact (scopes_methods_eq fs _).trans (scopes_function_eq f _ r)

end

end Resolver

/-! ## States and places -/

namespace Position

/-- What function body is around a place, as the analysis notes it. -/
def functionContext (place : Position) : FunctionContext :=
  match place.function? with
  | none => .outside
  | some (.method f _) => if f.name.lexeme == initializerName then .initializer else .method
  | some _ => .function

/-- What class body is around a place, as the analysis notes it. -/
def classContext (place : Position) : ClassContext :=
  match place.class? with
  | none => .outside
  | some (.class _ none) => .base
  | some _ => .derived

end Position

namespace Resolver

/-- The innermost scope has the given names and no others, and all are ready. -/
def Filled (names? : Option (List String)) (scopes : List Scope) : Prop :=
  match names? with
  | none => scopes = []
  | some names => ∃ outer, Gains names ([] :: outer) scopes

namespace Filled

variable {names? : Option (List String)} {more : List String} {ss ss' : List Scope}

theorem gains (filled : Filled names? ss) (gains : Gains more ss ss') :
    Filled (names?.map (· ++ more)) ss' := by
  cases names? with
  | none =>
    obtain rfl : ss = [] := filled
    cases gains
    rfl
  | some names =>
    obtain ⟨outer, before⟩ := filled
    exact ⟨outer, before.append gains⟩

/-- The innermost scope, if there is one. -/
theorem cases (filled : Filled names? ss) :
    (names? = none ∧ ss = []) ∨
      ∃ names scope outer, names? = some names ∧ ss = scope :: outer ∧
        (∀ key, scope.ready? key = if key ∈ names then some true else none) ∧
        ∀ key, scope.declares key = decide (key ∈ names) := by
  cases names? with
  | none => exact .inl ⟨rfl, filled⟩
  | some names =>
    obtain ⟨outer, gains⟩ := filled
    cases gains with
    | inside ready =>
      refine .inr ⟨names, _, outer, rfl, rfl, ready, fun key => ?_⟩
      unfold Scope.declares
      rw [ready]
      by_cases member : key ∈ names <;> simp [member, Scope.ready?]

/-- Outside initializers all names are ready. -/
theorem not_isPending {r : Resolver} (filled : Filled names? r.scopes) (name : String) :
    r.isPending name = false := by
  unfold isPending
  rcases filled.cases with ⟨-, none_⟩ | ⟨names, scope, outer, -, inside, ready, -⟩
  · rw [none_]
  · rw [inside]
    dsimp only
    rw [ready]
    by_cases member : name ∈ names <;> simp [member]

end Filled

/-- What the analysis knows at a place where an expression stands. -/
structure Sees (place : Position) (r : Resolver) : Prop where
  function : r.functionContext = place.functionContext
  «class» : r.classContext = place.classContext
  pending : ∀ name, r.isPending name = place.initializes name

/-- What the analysis knows at a place where a statement stands. -/
structure Stands (place : Position) (r : Resolver) : Prop where
  function : r.functionContext = place.functionContext
  «class» : r.classContext = place.classContext
  filled : Filled place.declared? r.scopes
  apart : ∀ name, place.initializes name = false

theorem Stands.sees {place : Position} {r : Resolver} (stands : Stands place r) : Sees place r :=
  ⟨stands.function, stands.class, fun name =>
    (stands.filled.not_isPending name).trans (stands.apart name).symm⟩

theorem Sees.congr {place : Position} {r r' : Resolver} (sees : Sees place r)
    (contexts : r'.contexts = r.contexts) (scopes : r'.scopes = r.scopes) : Sees place r' := by
  refine ⟨(congrArg Prod.fst contexts).trans sees.function,
    (congrArg Prod.snd contexts).trans sees.class, fun name => ?_⟩
  rw [← sees.pending name]
  unfold isPending
  rw [scopes]

theorem Sees.expression {place : Position} {r : Resolver} (sees : Sees place r) (e : Expr) :
    Sees place (expression e r) :=
  sees.congr (contexts_expression e r) (scopes_expression e r)

theorem Stands.expression {place : Position} {r : Resolver} (stands : Stands place r) (e : Expr) :
    Stands place (expression e r) := by
  have sees := stands.sees.expression e
  refine ⟨sees.function, sees.class, ?_, stands.apart⟩
  rw [scopes_expression]
  exact stands.filled

/-- The places in a sequence of statements: each statement adds its names, and all have the same
surroundings. -/
structure Sequence (around : List Stmt → Position) : Prop where
  function : ∀ before s,
    (around (before ++ [s])).functionContext = (around before).functionContext
  «class» : ∀ before s, (around (before ++ [s])).classContext = (around before).classContext
  declared : ∀ before s, (around (before ++ [s])).declared?
    = (around before).declared?.map (· ++ s.declarations)
  apart : ∀ before name, (around before).initializes name = false

/-- A statement leads from its place to that of the next one. -/
theorem Sequence.stands {around : List Stmt → Position} (sequence : Sequence around)
    {before : List Stmt} {r : Resolver} (stands : Stands (around before) r) (s : Stmt) :
    Stands (around (before ++ [s])) (statement s r) := by
  have contexts := contexts_statement s r
  refine ⟨?_, ?_, ?_, sequence.apart _⟩
  · rw [sequence.function, ← stands.function]
    exact congrArg Prod.fst contexts
  · rw [sequence.class, ← stands.class]
    exact congrArg Prod.snd contexts
  · rw [sequence.declared]
    exact stands.filled.gains (gains_statement s r)

theorem sequence_program : Sequence fun _ => [] :=
  ⟨fun _ _ => rfl, fun _ _ => rfl, fun _ _ => rfl, fun _ _ => rfl⟩

theorem sequence_block (place : Position) : Sequence (.block · :: place) :=
  ⟨fun _ _ => rfl, fun _ _ => rfl, fun _ _ => by simp [Position.declared?], fun _ _ => rfl⟩

theorem sequence_function (f : FunctionDecl) (place : Position) :
    Sequence (.function f · :: place) :=
  ⟨fun _ _ => rfl, fun _ _ => rfl, fun _ _ => by simp [Position.declared?], fun _ _ => rfl⟩

theorem sequence_method (f : FunctionDecl) (place : Position) : Sequence (.method f · :: place) :=
  ⟨fun _ _ => rfl, fun _ _ => rfl, fun _ _ => by simp [Position.declared?], fun _ _ => rfl⟩

/-! ## Reports -/

/-- The analysis goes from the state `r` to `r'` past some occurrences, and reports those that are
violations. -/
def Reports (r : Resolver) (os : List Occurrence) (r' : Resolver) : Prop :=
  r'.errors = (os.filterMap Occurrence.violation?).reverse ++ r.errors

section

variable {place : Position} {r r₁ r₂ : Resolver} {os os' : List Occurrence}

theorem Reports.of_eq (same : r₁.errors = r.errors) : r.Reports [] r₁ := same

theorem Reports.append (first : r.Reports os r₁) (second : r₁.Reports os' r₂) :
    r.Reports (os ++ os') r₂ := by
  unfold Reports at first second ⊢
  rw [second, first, List.filterMap_append, List.reverse_append, List.append_assoc]

/-- Steps that report nothing may precede and follow. -/
theorem Reports.congr {r' r₁' : Resolver} (reports : r.Reports os r₁)
    (before : r'.errors = r.errors) (after : r₁'.errors = r₁.errors) : r'.Reports os r₁' := by
  unfold Reports at reports ⊢
  rw [after, before, reports]

/-- One occurrence, which is reported where the condition holds. -/
theorem reports_reportIf {o : Occurrence} {condition : Bool} {cause : ScopeError.Cause} {line : Nat}
    (rule : o.violation? = if condition then some ⟨cause, line⟩ else none) :
    r.Reports [o] (r.reportIf condition cause line) := by
  unfold Reports
  cases condition with
  | true => simp [reportIf, report, rule]
  | false => simp [reportIf, rule]

theorem reports_report {o : Occurrence} {cause : ScopeError.Cause} {line : Nat}
    (rule : o.violation? = some ⟨cause, line⟩) : r.Reports [o] (r.report cause line) := by
  have reported : r.Reports [o] (r.reportIf true cause line) := reports_reportIf rule
  exact reported

/-- One occurrence that is no violation. -/
theorem Reports.of_none {o : Occurrence} (rule : o.violation? = none)
    (same : r₁.errors = r.errors) : r.Reports [o] r₁ := by
  unfold Reports
  simp [rule, same]

/-! ### Single occurrences -/

theorem reports_use (sees : Sees place r) (id : NodeId) (name : Name) :
    r.Reports [⟨.reads name, place⟩] (r.use id name) := by
  unfold use
  rw [sees.pending]
  exact (reports_reportIf rfl).congr rfl (errors_bind _ _ _)

theorem reports_useThis (same : r.classContext = place.classContext) (id : NodeId) (line : Nat) :
    r.Reports [⟨.this line, place⟩] (r.useThis id line) := by
  unfold useThis
  rw [same]
  unfold Position.classContext
  cases around : place.class? with
  | none => exact reports_report (by simp [Occurrence.violation?, around])
  | some c =>
    have silent : Occurrence.violation? ⟨.this line, place⟩ = none := by
      simp [Occurrence.violation?, around]
    cases c with
    | «class» name parent => cases parent <;> exact .of_none silent (errors_bind _ _ _)
    | block | parameters | function | method | initializer | otherwise =>
      exact .of_none silent (errors_bind _ _ _)

theorem reports_useSuper (same : r.classContext = place.classContext) (id : NodeId) (line : Nat) :
    r.Reports [⟨.super line, place⟩] (r.useSuper id line) := by
  unfold useSuper
  rw [same]
  unfold Position.classContext
  cases around : place.class? with
  | none => exact reports_report (by simp [Occurrence.violation?, around])
  | some c =>
    cases c with
    | «class» name parent =>
      cases parent with
      | none => exact reports_report (by simp [Occurrence.violation?, around])
      | some above =>
        exact .of_none (by simp [Occurrence.violation?, around]) (errors_bind _ _ _)
    | block | parameters | function | method | initializer | otherwise =>
      exact .of_none (by simp [Occurrence.violation?, around]) (errors_bind _ _ _)

theorem reports_declare (filled : Filled place.declared? r.scopes) (name : Name) :
    r.Reports [⟨.declares name, place⟩] (r.declare name) := by
  unfold declare
  rcases filled.cases with ⟨none_, outside⟩ | ⟨names, scope, outer, some_, inside, -, declares⟩
  · rw [outside]
    exact .of_none (by simp [Occurrence.violation?, none_]) rfl
  · rw [inside]
    dsimp only
    rw [declares]
    by_cases member : name.lexeme ∈ names
    · rw [decide_eq_true member, if_pos rfl]
      exact reports_report (by simp [Occurrence.violation?, some_, member])
    · rw [decide_eq_false member, if_neg Bool.false_ne_true]
      exact .of_none (by simp [Occurrence.violation?, some_, member]) (errors_put _ _ _)

theorem reports_introduce (filled : Filled place.declared? r.scopes) (name : Name) :
    r.Reports [⟨.declares name, place⟩] (r.introduce name) :=
  (reports_declare filled name).congr rfl (errors_put _ _ _)

/-- While its initializer is walked, a name is pending unless the scope had it before. -/
theorem isPending_of_filled (filled : Filled place.declared? r.scopes) (name : Name)
    (key : String) :
    (r.declare name).isPending key = Position.initializes (.initializer name :: place) key := by
  unfold declare isPending Position.initializes
  rcases filled.cases with
    ⟨none_, outside⟩ | ⟨names, scope, outer, some_, inside, ready, declares⟩
  · simp [outside, none_]
  · simp only [some_, inside, declares]
    by_cases member : name.lexeme ∈ names
    · -- The scope has the name already: this is reported, and the name stays ready.
      simp only [member, decide_true, if_true, report, inside, ready]
      by_cases here : key = name.lexeme
      · simp [here, member]
      · by_cases other : key ∈ names <;> simp [here, other]
    · simp only [member, decide_false, Bool.false_eq_true, if_false, scopes_put, inside,
        Scope.ready?_put, ready]
      by_cases here : key = name.lexeme
      · simp [here, member]
      · by_cases other : key ∈ names <;> simp [here, other]

end

/-! ### Expressions -/

mutual

theorem reports_expression (e : Expr) {place : Position} {r : Resolver} (sees : Sees place r) :
    r.Reports (e.occurrences place) (expression e r) := by
  match e with
  | .literal _ => exact .of_eq rfl
  | .grouping inner => exact reports_expression inner sees
  | .unary _ right _ => exact reports_expression right sees
  | .binary left _ right _ | .logical left _ right =>
    exact (reports_expression left sees).append (reports_expression right (sees.expression left))
  | .variable id name => exact reports_use sees id name
  | .assign id name value => exact (reports_expression value sees).congr rfl (errors_bind _ _ _)
  | .call callee arguments _ =>
    exact (reports_expression callee sees).append
      (reports_expressions arguments (sees.expression callee))
  | .get object _ => exact reports_expression object sees
  | .set object _ value =>
    exact (reports_expression value sees).append (reports_expression object (sees.expression value))
  | .this id line => exact reports_useThis sees.class id line
  | .super id line _ => exact reports_useSuper sees.class id line

theorem reports_expressions (es : List Expr) {place : Position} {r : Resolver}
    (sees : Sees place r) : r.Reports (Expr.occurrencesOfAll place es) (expressions es r) := by
  match es with
  | [] => exact .of_eq rfl
  | e :: es =>
    exact (reports_expression e sees).append (reports_expressions es (sees.expression e))

end

theorem reports_expression? (e : Option Expr) {place : Position} {r : Resolver}
    (sees : Sees place r) : r.Reports (Expr.occurrencesOf? place e) (expression? e r) := by
  cases e with
  | none => exact .of_eq rfl
  | some e => exact reports_expression e sees

/-! ### Statements -/

section

variable {place : Position} {r : Resolver}

theorem reports_var (stands : Stands place r) (name : Name) (initializer : Option Expr) :
    r.Reports (Stmt.occurrences place (.var name initializer))
      (statement (.var name initializer) r) := by
  have contexts := contexts_declare r name
  have sees : Sees (.initializer name :: place) (r.declare name) :=
    ⟨(congrArg Prod.fst contexts).trans stands.function,
      (congrArg Prod.snd contexts).trans stands.class, isPending_of_filled stands.filled name⟩
  exact ((reports_declare stands.filled name).append
    (reports_expression? initializer sees)).congr rfl (errors_put _ _ _)

/-- A return outside all functions is a violation whether or not it has a value, and one in an
initializer only with a value. -/
theorem reports_returned (stands : Stands place r) (line : Nat) (value : Option Expr) :
    r.Reports (Stmt.occurrences place (.return line value)) (returned line value r) := by
  unfold returned
  cases value with
  | none =>
    refine reports_reportIf ?_
    rw [stands.function]
    unfold Occurrence.violation? Position.functionContext
    cases place.function? with
    | none => rfl
    | some f =>
      cases f with
      | method f _ => by_cases init : f.name.lexeme = initializerName <;> simp [init]
      | block | parameters | function | initializer | otherwise | «class» => rfl
  | some e =>
    have same := contexts_reportIf (r.functionContext == .outside) .returnAtTopLevel line r
    have sees : Sees place
        ((r.reportIf (r.functionContext == .outside) .returnAtTopLevel line).reportIf
          (r.functionContext == .initializer) .valueFromInitializer line) :=
      stands.sees.congr ((contexts_reportIf _ _ _ _).trans same)
        ((scopes_reportIf _ _ _ _).trans (scopes_reportIf _ _ _ _))
    have context :
        (r.reportIf (r.functionContext == .outside) .returnAtTopLevel line).functionContext
          = r.functionContext := congrArg Prod.fst same
    dsimp only
    rw [context]
    have itself : r.Reports [⟨.returns line true, place⟩]
        ((r.reportIf (r.functionContext == .outside) .returnAtTopLevel line).reportIf
          (r.functionContext == .initializer) .valueFromInitializer line) := by
      -- At most one of the two conditions holds.
      rw [stands.function]
      unfold Reports Occurrence.violation? Position.functionContext
      cases around : place.function? with
      | none => simp [reportIf, report, around]
      | some f =>
        cases f with
        | method f _ =>
          by_cases init : f.name.lexeme = initializerName <;> simp [reportIf, report, around, init]
        | block | parameters | function | initializer | otherwise | «class» =>
          simp [reportIf, around]
    exact itself.append (reports_expression e sees)

theorem reports_parameters (params : List Name) {before : List Name}
    (filled : Filled (some (before.map Name.lexeme)) r.scopes) :
    r.Reports (Name.occurrencesOfAll place before params) (params.foldl introduce r) := by
  induction params generalizing r before with
  | nil => exact .of_eq rfl
  | cons param params ih =>
    have next := filled.gains (gains_introduce r param)
    have declared : Position.declared? (.parameters before :: place)
        = some (before.map Name.lexeme) := rfl
    rw [← declared] at filled
    have later :
        Filled (some ((before ++ [param]).map Name.lexeme)) (r.introduce param).scopes := by
      simpa using next
    exact (reports_introduce filled param).append (ih later)

/-- What is reported of the head of a class. -/
theorem reports_enterClass (stands : Stands place r) (name : Name) (parent : Option Superclass) :
    r.Reports (⟨.declares name, place⟩ :: Superclass.occurrencesOf? name place parent)
      (r.enterClass name parent) := by
  have filled : Filled place.declared? { r with classContext := .base }.scopes := stands.filled
  have named : r.Reports [⟨.declares name, place⟩]
      ({ r with classContext := .base }.introduce name) :=
    (reports_introduce filled name).congr rfl rfl
  cases parent with
  | none => exact named.congr rfl (errors_put _ _ _)
  | some above =>
    have filled := filled.gains (gains_introduce { r with classContext := .base } name)
    have contexts := contexts_introduce { r with classContext := .base } name
    have itself : Reports _ [⟨.inherits name above.name, place⟩]
        (({ r with classContext := .base }.introduce name).reportIf
          (above.name.lexeme == name.lexeme) .inheritsFromItself above.name.line) :=
      reports_reportIf (by simp [Occurrence.violation?])
    -- The superclass is read where the name of the class is ready.
    have sees : Sees (.class name (some above) :: place)
        { ({ r with classContext := .base }.introduce name).reportIf
          (above.name.lexeme == name.lexeme) .inheritsFromItself above.name.line with
          classContext := .derived } := by
      refine ⟨?_, rfl, fun key => ?_⟩
      · refine (congrArg Prod.fst (contexts_reportIf _ _ _ _)).trans ?_
        exact (congrArg Prod.fst contexts).trans stands.function
      · refine Eq.trans ?_ (filled.not_isPending key)
        unfold isPending
        rw [scopes_reportIf]
    have read := reports_use sees above.id above.name
    have head := (named.append itself).append (read.congr rfl rfl)
    refine head.congr rfl ?_
    show (put _ _ _).errors = _
    rw [errors_put]
    exact errors_put _ _ _

theorem classContext_enterClass (name : Name) (parent : Option Superclass) :
    (r.enterClass name parent).classContext
      = Position.classContext (.class name parent :: place) := by
  have put (r : Resolver) (name : String) (ready : Bool) :
      (r.put name ready).classContext = r.classContext :=
    congrArg Prod.snd (contexts_put r name ready)
  cases parent with
  | none =>
    refine (put _ _ _).trans ?_
    exact congrArg Prod.snd (contexts_introduce { r with classContext := .base } name)
  | some above =>
    refine (put _ _ _).trans ((put _ _ _).trans ?_)
    exact congrArg Prod.snd (contexts_use _ above.id above.name)

end

mutual

theorem reports_statement (s : Stmt) {place : Position} {r : Resolver} (stands : Stands place r) :
    r.Reports (s.occurrences place) (statement s r) := by
  match s with
  | .expression e | .print e => exact reports_expression e stands.sees
  | .var name initializer => exact reports_var stands name initializer
  | .block body =>
    have entered : Stands (.block [] :: place) r.enter :=
      ⟨stands.function, stands.class, ⟨r.scopes, .refl _⟩, fun _ => rfl⟩
    exact (reports_statements body (sequence_block place) entered).congr rfl rfl
  | .if condition thenBranch none =>
    have test := reports_expression condition stands.sees
    have first := reports_statement thenBranch (stands.expression condition)
    have whole := test.append first
    unfold Stmt.occurrences
    rw [Stmt.occurrencesOf?, List.append_nil]
    exact whole
  | .if condition thenBranch (some elseBranch) =>
    have test := reports_expression condition stands.sees
    have tested := stands.expression condition
    have first := reports_statement thenBranch tested
    have contexts := contexts_statement thenBranch (expression condition r)
    -- The second branch is met in the scope to which the first one added its names.
    have other : Stands (.otherwise thenBranch :: place)
        (statement thenBranch (expression condition r)) :=
      ⟨(congrArg Prod.fst contexts).trans tested.function,
        (congrArg Prod.snd contexts).trans tested.class,
        tested.filled.gains (gains_statement thenBranch _), fun _ => rfl⟩
    exact (test.append first).append (reports_statement elseBranch other)
  | .while condition body =>
    exact (reports_expression condition stands.sees).append
      (reports_statement body (stands.expression condition))
  | .function declaration =>
    have contexts := contexts_introduce r declaration.name
    have named := reports_introduce stands.filled declaration.name
    refine named.append (reports_function declaration .function .function
      (fun f => sequence_function f place) (fun _ => rfl) (fun _ => rfl) ?_)
    exact (congrArg Prod.snd contexts).trans stands.class
  | .return line value => exact reports_returned stands line value
  | .class name parent methodDecls =>
    have head := reports_enterClass stands name parent
    have context : (r.enterClass name parent).classContext
        = Position.classContext (.class name parent :: place) := classContext_enterClass name parent
    refine (head.append (reports_methods methodDecls context)).congr rfl ?_
    cases parent <;> rfl

theorem reports_statements (ss : List Stmt) {around : List Stmt → Position}
    (sequence : Sequence around) {before : List Stmt} {r : Resolver}
    (stands : Stands (around before) r) :
    r.Reports (Stmt.occurrencesOfAll around before ss) (statements ss r) := by
  match ss with
  | [] => exact .of_eq rfl
  | s :: ss =>
    exact (reports_statement s stands).append
      (reports_statements ss sequence (sequence.stands stands s))

/-- A function is walked in a scope of its own, whatever scopes are around it. -/
theorem reports_function (f : FunctionDecl) (context : FunctionContext)
    (kind : FunctionDecl → List Stmt → Ancestor) {place : Position} {r : Resolver}
    (sequence : ∀ f, Sequence (kind f · :: place))
    (contexts : ∀ body, Position.functionContext (kind f body :: place) = context)
    (declared : ∀ body, Position.declared? (kind f body :: place)
      = some (f.params.map Name.lexeme ++ body.flatMap Stmt.declarations))
    (same : r.classContext = Position.classContext (kind f [] :: place)) :
    r.Reports (f.occurrences kind place) (function f context r) := by
  match f with
  | .mk name params body =>
    have entered : Filled (some (([] : List Name).map Name.lexeme))
        ({ r with functionContext := context }.enter).scopes := ⟨r.scopes, .refl _⟩
    have opened := contexts_introduceAll params { r with functionContext := context }.enter
    have stands : Stands (kind (.mk name params body) [] :: place)
        (params.foldl introduce { r with functionContext := context }.enter) := by
      refine ⟨?_, (congrArg Prod.snd opened).trans same, ?_, (sequence _).apart []⟩
      · exact (congrArg Prod.fst opened).trans (contexts []).symm
      · rw [declared]
        simpa [FunctionDecl.params] using entered.gains (gains_introduceAll params _)
    have heads : Reports _ (Name.occurrencesOfAll place [] params) _ :=
      reports_parameters params entered
    have inside := reports_statements body (sequence (.mk name params body)) stands
    exact (heads.append inside).congr rfl rfl

theorem reports_methods (fs : List FunctionDecl) {place : Position} {r : Resolver}
    (same : r.classContext = place.classContext) :
    r.Reports (FunctionDecl.occurrencesOfMethods place fs) (methods fs r) := by
  match fs with
  | [] => exact .of_eq rfl
  | f :: fs =>
    refine (reports_function f _ .method (fun f => sequence_method f place) (fun _ => rfl)
      (fun _ => rfl) same).append (reports_methods fs ?_)
    exact (congrArg Prod.snd (contexts_function f _ r)).trans same

end

end Resolver

/-- **The analysis reports exactly the violations of the static rules**, in the order in which the
program is walked. After every statement it is in the contexts and the scopes in which it was
before, but for the names that the statement declares in the innermost scope. -/
theorem diagnostics_are_violations (program : List Stmt) :
    (resolve program).errors = (programOccurrences program).filterMap Occurrence.violation? ∧
      ∀ (s : Stmt) (r : Resolver),
        (Resolver.statement s r).functionContext = r.functionContext ∧
        (Resolver.statement s r).classContext = r.classContext ∧
        Resolver.Gains s.declarations r.scopes (Resolver.statement s r).scopes := by
  constructor
  · have start : Resolver.Stands [] .initial := ⟨rfl, rfl, rfl, fun _ => rfl⟩
    have reports : Resolver.Reports .initial (programOccurrences program) _ :=
      Resolver.reports_statements program Resolver.sequence_program start
    calc (resolve program).errors
        = (Resolver.statements program .initial).errors.reverse := rfl
      _ = (((programOccurrences program).filterMap Occurrence.violation?).reverse ++ []).reverse :=
          congrArg List.reverse reports
      _ = _ := by simp
  · intro s r
    have contexts := Resolver.contexts_statement s r
    exact ⟨congrArg Prod.fst contexts, congrArg Prod.snd contexts, Resolver.gains_statement s r⟩

end Lox
