import Lox.Proofs.Relabelling.Trees
import Lox.Proofs.Scoping.Walk

/-!
# The analysis of relabelled trees

The static analysis of a relabelled tree goes through the same scopes as that of the tree. It finds
the same violations, at the relabelled lines, and enters the same distances under the new ids. What
was in the table before stays there where nothing is entered, so the analysis of a program that
follows another one finds what it finds by itself.
-/

set_option autoImplicit false

namespace Lox.Resolver

/-- The state `r'` has what `r` has, relabelled, on top of the entries of `base`. -/
structure Follows (ρ : Relabelling) (base : Distances) (r r' : Resolver) : Prop where
  scopes : r'.scopes = r.scopes
  functionContext : r'.functionContext = r.functionContext
  classContext : r'.classContext = r.classContext
  errors : r'.errors = r.errors.map fun e => { e with line := ρ.line e.line }
  distances : ∀ id, r'.distances[ρ.id id]? = (r.distances[id]?).or base[ρ.id id]?

namespace Follows

variable {ρ : Relabelling} {base : Distances} {r r' : Resolver}

/-! ## Steps -/

theorem report (follows : Follows ρ base r r') (cause : ScopeError.Cause) (line : Nat) :
    Follows ρ base (r.report cause line) (r'.report cause (ρ.line line)) :=
  ⟨follows.scopes, follows.functionContext, follows.classContext,
    congrArg (_ :: ·) follows.errors, follows.distances⟩

theorem reportIf (follows : Follows ρ base r r') (condition : Bool) (cause : ScopeError.Cause)
    (line : Nat) :
    Follows ρ base (r.reportIf condition cause line) (r'.reportIf condition cause (ρ.line line)) := by
  cases condition with
  | true => exact follows.report cause line
  | false => exact follows

theorem withScopes (follows : Follows ρ base r r') (scopes : List Scope) :
    Follows ρ base { r with scopes := scopes } { r' with scopes := scopes } :=
  ⟨rfl, follows.functionContext, follows.classContext, follows.errors, follows.distances⟩

theorem withFunction (follows : Follows ρ base r r') (f : FunctionContext) :
    Follows ρ base { r with functionContext := f } { r' with functionContext := f } :=
  ⟨follows.scopes, rfl, follows.classContext, follows.errors, follows.distances⟩

theorem withClass (follows : Follows ρ base r r') (c : ClassContext) :
    Follows ρ base { r with classContext := c } { r' with classContext := c } :=
  ⟨follows.scopes, follows.functionContext, rfl, follows.errors, follows.distances⟩

theorem enter (follows : Follows ρ base r r') : Follows ρ base r.enter r'.enter := by
  unfold Resolver.enter
  rw [follows.scopes]
  exact follows.withScopes _

theorem leave (follows : Follows ρ base r r') : Follows ρ base r.leave r'.leave := by
  unfold Resolver.leave
  rw [follows.scopes]
  exact follows.withScopes _

theorem put (follows : Follows ρ base r r') (name : String) (ready : Bool) :
    Follows ρ base (r.put name ready) (r'.put name ready) := by
  unfold Resolver.put
  rw [follows.scopes]
  cases r.scopes with
  | nil => exact follows
  | cons scope outer => exact follows.withScopes _

theorem declare (follows : Follows ρ base r r') (name : Name) :
    Follows ρ base (r.declare name) (r'.declare (name.relabel ρ)) := by
  unfold Resolver.declare
  rw [follows.scopes]
  cases r.scopes with
  | nil => exact follows
  | cons scope outer =>
    show Follows ρ base (if scope.declares name.lexeme then _ else _)
      (if scope.declares name.lexeme then _ else _)
    by_cases already : scope.declares name.lexeme = true
    · rw [if_pos already, if_pos already]
      exact follows.report _ _
    · rw [if_neg already, if_neg already]
      exact follows.put _ _

theorem define (follows : Follows ρ base r r') (name : Name) :
    Follows ρ base (r.define name) (r'.define (name.relabel ρ)) :=
  follows.put name.lexeme true

theorem introduce (follows : Follows ρ base r r') (name : Name) :
    Follows ρ base (r.introduce name) (r'.introduce (name.relabel ρ)) :=
  (follows.declare name).define name

theorem introduceAll (names : List Name) (follows : Follows ρ base r r') :
    Follows ρ base (names.foldl Resolver.introduce r)
      ((names.map (Name.relabel ρ)).foldl Resolver.introduce r') := by
  induction names generalizing r r' with
  | nil => exact follows
  | cons name names ih => exact ih (follows.introduce name)

/-- What is entered for an id is entered for the new id, and different ids stay different. -/
theorem bind (follows : Follows ρ base r r') (id : NodeId) (name : String) :
    Follows ρ base (r.bind id name) (r'.bind (ρ.id id) name) := by
  unfold Resolver.bind
  rw [follows.scopes]
  cases r.scopes.findIdx? fun scope => scope.declares name with
  | none => exact follows
  | some distance =>
    refine ⟨rfl, follows.functionContext, follows.classContext, follows.errors, fun other => ?_⟩
    dsimp only
    by_cases same : other = id
    · rw [same, Std.TreeMap.getElem?_insert_self, Std.TreeMap.getElem?_insert_self]
      rfl
    · have differ : ρ.id other ≠ ρ.id id := fun equal => same (ρ.injective other id equal)
      rw [Distances.getElem?_insert_of_ne _ _ same, Distances.getElem?_insert_of_ne _ _ differ]
      exact follows.distances other

theorem isPending (follows : Follows ρ base r r') (name : String) :
    r'.isPending name = r.isPending name := by
  unfold Resolver.isPending
  rw [follows.scopes]

theorem use (follows : Follows ρ base r r') (id : NodeId) (name : Name) :
    Follows ρ base (r.use id name) (r'.use (ρ.id id) (name.relabel ρ)) := by
  unfold Resolver.use
  rw [Name.lexeme_relabel, follows.isPending]
  exact (follows.reportIf _ _ _).bind id name.lexeme

theorem useThis (follows : Follows ρ base r r') (id : NodeId) (line : Nat) :
    Follows ρ base (r.useThis id line) (r'.useThis (ρ.id id) (ρ.line line)) := by
  unfold Resolver.useThis
  rw [follows.classContext]
  cases r.classContext with
  | outside => exact follows.report _ _
  | base | derived => exact follows.bind id "this"

theorem useSuper (follows : Follows ρ base r r') (id : NodeId) (line : Nat) :
    Follows ρ base (r.useSuper id line) (r'.useSuper (ρ.id id) (ρ.line line)) := by
  unfold Resolver.useSuper
  rw [follows.classContext]
  cases r.classContext with
  | outside | base => exact follows.report _ _
  | derived => exact follows.bind id "super"

/-! ## Expressions -/

mutual

theorem expression (e : Expr) {r r' : Resolver} (follows : Follows ρ base r r') :
    Follows ρ base (Resolver.expression e r) (Resolver.expression (e.relabel ρ) r') := by
  match e with
  | .literal _ => exact follows
  | .grouping inner => exact expression inner follows
  | .unary _ right _ => exact expression right follows
  | .binary left _ right _ | .logical left _ right =>
    exact expression right (expression left follows)
  | .variable id name => exact follows.use id name
  | .assign id name value => exact (expression value follows).bind id name.lexeme
  | .call callee arguments _ => exact expressions arguments (expression callee follows)
  | .get object _ => exact expression object follows
  | .set object _ value => exact expression object (expression value follows)
  | .this id line => exact follows.useThis id line
  | .super id line _ => exact follows.useSuper id line

theorem expressions (es : List Expr) {r r' : Resolver} (follows : Follows ρ base r r') :
    Follows ρ base (Resolver.expressions es r) (Resolver.expressions (Expr.relabelAll ρ es) r') := by
  match es with
  | [] => exact follows
  | e :: es => exact expressions es (expression e follows)

end

theorem expression? (e : Option Expr) (follows : Follows ρ base r r') :
    Follows ρ base (Resolver.expression? e r) (Resolver.expression? (Expr.relabel? ρ e) r') := by
  cases e with
  | none => exact follows
  | some e => exact expression e follows

/-! ## Statements -/

theorem returned (line : Nat) (value : Option Expr) (follows : Follows ρ base r r') :
    Follows ρ base (Resolver.returned line value r)
      (Resolver.returned (ρ.line line) (Expr.relabel? ρ value) r') := by
  have outside := follows.reportIf (r.functionContext == .outside) .returnAtTopLevel line
  unfold Resolver.returned
  dsimp only
  rw [follows.functionContext]
  cases value with
  | none => exact outside
  | some e =>
    refine expression e ?_
    rw [outside.functionContext]
    exact outside.reportIf _ _ _

theorem enterClass (name : Name) (parent : Option Superclass) (follows : Follows ρ base r r') :
    Follows ρ base (r.enterClass name parent)
      (r'.enterClass (name.relabel ρ) (parent.map (Superclass.relabel ρ))) := by
  have named := (follows.withClass .base).introduce name
  cases parent with
  | none => exact named.enter.put "this" true
  | some above =>
    have checked := (named.reportIf (above.name.lexeme == name.lexeme) .inheritsFromItself
      above.name.line).withClass .derived
    exact ((checked.use above.id above.name).enter.put "super" true).enter.put "this" true

theorem leaveClass (parent : Option Superclass) (around : ClassContext)
    (follows : Follows ρ base r r') :
    Follows ρ base (r.leaveClass parent around)
      (r'.leaveClass (parent.map (Superclass.relabel ρ)) around) := by
  cases parent with
  | none => exact follows.leave.withClass around
  | some above => exact follows.leave.leave.withClass around

mutual

/-- **The analysis of a relabelled statement follows that of the statement.** -/
theorem statement (s : Stmt) {r r' : Resolver} (follows : Follows ρ base r r') :
    Follows ρ base (Resolver.statement s r) (Resolver.statement (s.relabel ρ) r') := by
  match s with
  | .expression e | .print e => exact expression e follows
  | .var name initializer => exact (expression? initializer (follows.declare name)).define name
  | .block body => exact (statements body follows.enter).leave
  | .if condition thenBranch elseBranch =>
    exact statement? elseBranch (statement thenBranch (expression condition follows))
  | .while condition body => exact statement body (expression condition follows)
  | .function declaration =>
    have named := follows.introduce declaration.name
    rw [← FunctionDecl.name_relabel] at named
    exact function declaration .function named
  | .return line value => exact returned line value follows
  | .class name parent methodDecls =>
    have walked := methods methodDecls (enterClass name parent follows)
    rw [Resolver.statement, Stmt.relabel, Resolver.statement, follows.classContext]
    exact leaveClass parent r.classContext walked

theorem statements (ss : List Stmt) {r r' : Resolver} (follows : Follows ρ base r r') :
    Follows ρ base (Resolver.statements ss r) (Resolver.statements (Stmt.relabelAll ρ ss) r') := by
  match ss with
  | [] => exact follows
  | s :: ss => exact statements ss (statement s follows)

theorem statement? (s : Option Stmt) {r r' : Resolver} (follows : Follows ρ base r r') :
    Follows ρ base (Resolver.statement? s r) (Resolver.statement? (Stmt.relabel? ρ s) r') := by
  match s with
  | none => exact follows
  | some s => exact statement s follows

theorem function (f : FunctionDecl) (context : FunctionContext) {r r' : Resolver}
    (follows : Follows ρ base r r') :
    Follows ρ base (Resolver.function f context r)
      (Resolver.function (f.relabel ρ) context r') := by
  match f with
  | .mk name params body =>
    have inside := statements body
      (introduceAll params (follows.withFunction context).enter)
    have left := inside.leave.withFunction r.functionContext
    rw [Resolver.function, FunctionDecl.relabel, Resolver.function, follows.functionContext]
    exact left

theorem methods (fs : List FunctionDecl) {r r' : Resolver} (follows : Follows ρ base r r') :
    Follows ρ base (Resolver.methods fs r)
      (Resolver.methods (FunctionDecl.relabelAll ρ fs) r') := by
  match fs with
  | [] => exact follows
  | f :: fs =>
    refine methods fs ?_
    rw [FunctionDecl.name_relabel]
    exact function f _ follows

end

end Follows

/-! ## Contexts

Each construct puts back the contexts that it found. -/

/-- What function and class body surround the place. -/
def contexts (r : Resolver) : FunctionContext × ClassContext :=
  (r.functionContext, r.classContext)

theorem contexts_reportIf (condition : Bool) (cause : ScopeError.Cause) (line : Nat)
    (r : Resolver) : (r.reportIf condition cause line).contexts = r.contexts := by
  cases condition <;> rfl

theorem contexts_bind (r : Resolver) (id : NodeId) (name : String) :
    (r.bind id name).contexts = r.contexts := by
  unfold bind
  split <;> rfl

theorem contexts_put (r : Resolver) (name : String) (ready : Bool) :
    (r.put name ready).contexts = r.contexts := by
  unfold put
  split <;> rfl

theorem contexts_declare (r : Resolver) (name : Name) :
    (r.declare name).contexts = r.contexts := by
  unfold declare
  split
  · rfl
  · split
    · rfl
    · exact contexts_put _ _ _

theorem contexts_introduce (r : Resolver) (name : Name) :
    (r.introduce name).contexts = r.contexts :=
  (contexts_put _ _ _).trans (contexts_declare r name)

theorem contexts_introduceAll (names : List Name) (r : Resolver) :
    (names.foldl introduce r).contexts = r.contexts := by
  induction names generalizing r with
  | nil => rfl
  | cons name names ih => exact (ih _).trans (contexts_introduce r name)

theorem contexts_use (r : Resolver) (id : NodeId) (name : Name) :
    (r.use id name).contexts = r.contexts :=
  (contexts_bind _ _ _).trans (contexts_reportIf _ _ _ r)

theorem contexts_useThis (r : Resolver) (id : NodeId) (line : Nat) :
    (r.useThis id line).contexts = r.contexts := by
  unfold useThis
  split
  · rfl
  · exact contexts_bind r id "this"
  · exact contexts_bind r id "this"

theorem contexts_useSuper (r : Resolver) (id : NodeId) (line : Nat) :
    (r.useSuper id line).contexts = r.contexts := by
  unfold useSuper
  split
  · rfl
  · rfl
  · exact contexts_bind r id "super"

mutual

theorem contexts_expression (e : Expr) (r : Resolver) :
    (expression e r).contexts = r.contexts := by
  match e with
  | .literal _ => rfl
  | .grouping inner => exact contexts_expression inner r
  | .unary _ right _ => exact contexts_expression right r
  | .binary left _ right _ | .logical left _ right =>
    exact (contexts_expression right _).trans (contexts_expression left r)
  | .variable id name => exact contexts_use r id name
  | .assign id name value => exact (contexts_bind _ _ _).trans (contexts_expression value r)
  | .call callee arguments _ =>
    exact (contexts_expressions arguments _).trans (contexts_expression callee r)
  | .get object _ => exact contexts_expression object r
  | .set object _ value => exact (contexts_expression object _).trans (contexts_expression value r)
  | .this id line => exact contexts_useThis r id line
  | .super id line _ => exact contexts_useSuper r id line

theorem contexts_expressions (es : List Expr) (r : Resolver) :
    (expressions es r).contexts = r.contexts := by
  match es with
  | [] => rfl
  | e :: es => exact (contexts_expressions es _).trans (contexts_expression e r)

end

theorem contexts_expression? (e : Option Expr) (r : Resolver) :
    (expression? e r).contexts = r.contexts := by
  cases e with
  | none => rfl
  | some e => exact contexts_expression e r

theorem contexts_returned (line : Nat) (value : Option Expr) (r : Resolver) :
    (returned line value r).contexts = r.contexts := by
  cases value with
  | none => exact contexts_reportIf _ _ _ r
  | some e =>
    exact (contexts_expression e _).trans
      ((contexts_reportIf _ _ _ _).trans (contexts_reportIf _ _ _ r))

/-- Inside a class the function around it is the same. -/
theorem functionContext_enterClass (name : Name) (parent : Option Superclass) (r : Resolver) :
    (r.enterClass name parent).functionContext = r.functionContext := by
  have put (r : Resolver) (name : String) (ready : Bool) :
      (r.put name ready).functionContext = r.functionContext :=
    congrArg Prod.fst (contexts_put r name ready)
  have introduce (r : Resolver) : (r.introduce name).functionContext = r.functionContext :=
    congrArg Prod.fst (contexts_introduce r name)
  have use (r : Resolver) (id : NodeId) (name : Name) :
      (r.use id name).functionContext = r.functionContext :=
    congrArg Prod.fst (contexts_use r id name)
  have reportIf (r : Resolver) (condition : Bool) (cause : ScopeError.Cause) (line : Nat) :
      (r.reportIf condition cause line).functionContext = r.functionContext :=
    congrArg Prod.fst (contexts_reportIf condition cause line r)
  cases parent <;> simp only [enterClass, enter, put, use, reportIf, introduce]

theorem contexts_leaveClass (parent : Option Superclass) (around : ClassContext) (r : Resolver) :
    (r.leaveClass parent around).contexts = (r.functionContext, around) := by
  cases parent <;> rfl

mutual

/-- What follows a statement stands in the same contexts. -/
theorem contexts_statement (s : Stmt) (r : Resolver) : (statement s r).contexts = r.contexts := by
  match s with
  | .expression e | .print e => exact contexts_expression e r
  | .var name initializer =>
    exact (contexts_put _ _ _).trans
      ((contexts_expression? initializer _).trans (contexts_declare r name))
  | .block body => exact contexts_statements body r.enter
  | .if condition thenBranch elseBranch =>
    exact (contexts_statement? elseBranch _).trans
      ((contexts_statement thenBranch _).trans (contexts_expression condition r))
  | .while condition body =>
    exact (contexts_statement body _).trans (contexts_expression condition r)
  | .function declaration =>
    exact (contexts_function declaration _ _).trans (contexts_introduce r declaration.name)
  | .return line value => exact contexts_returned line value r
  | .class name parent methodDecls =>
    have inside := congrArg Prod.fst (contexts_methods methodDecls (r.enterClass name parent))
    refine (contexts_leaveClass parent r.classContext _).trans ?_
    exact congrArg (·, r.classContext) (inside.trans (functionContext_enterClass name parent r))

theorem contexts_statements (ss : List Stmt) (r : Resolver) :
    (statements ss r).contexts = r.contexts := by
  match ss with
  | [] => rfl
  | s :: ss => exact (contexts_statements ss _).trans (contexts_statement s r)

theorem contexts_statement? (s : Option Stmt) (r : Resolver) :
    (statement? s r).contexts = r.contexts := by
  match s with
  | none => rfl
  | some s => exact contexts_statement s r

theorem contexts_function (f : FunctionDecl) (context : FunctionContext) (r : Resolver) :
    (function f context r).contexts = r.contexts := by
  match f with
  | .mk name params body =>
    have inside := (contexts_statements body _).trans
      (contexts_introduceAll params { r with functionContext := context }.enter)
    exact congrArg (r.functionContext, ·) (congrArg Prod.snd inside)

theorem contexts_methods (fs : List FunctionDecl) (r : Resolver) :
    (methods fs r).contexts = r.contexts := by
  match fs with
  | [] => rfl
  | f :: fs => exact (contexts_methods fs _).trans (contexts_function f _ r)

end

end Lox.Resolver
