import Lox.Proofs.Scoping.Declaring
import Lox.Proofs.Statics.Diagnostics

/-!
# Methods and classes around a use

Every scope that declares `this` is one around a method, and if the class has a superclass, the
scope around it is the one that declares `super`. No other scope declares these names, for programs
declare identifiers only. So at a place in a class with a superclass both names lead to the nearest
method around and to its class, however many blocks and functions lie in between
(`Nested.inherits`).

The analysis accepts `super` only at such places, and `this` only in a method. It is followed
through a program once more, now with what lies around each statement
(`Resolver.accepted_statement`).
-/

set_option autoImplicit false

namespace Lox

open Resolver (receiverScope superScope)

/-- Whether a scope declares neither `this` nor `super`. -/
def Scope.Spares (scope : Scope) : Prop :=
  ∀ name, scope.declares name = true → Spared name

/-- Whether what is opened is the binding of a method. -/
def Site.isReceiver : Site → Bool
  | .receiver _ => true
  | .block _ | .function _ | .superclass _ _ _ => false

/-- What lies around a statement, from the innermost scope outwards: blocks, functions, and methods
of classes with and without a superclass. -/
inductive Nested : List Site → List Scope → ClassContext → Prop
  | outside : Nested [] [] .outside
  | block {body : List Stmt} {scope : Scope} {sites : List Site} {scopes : List Scope}
      {context : ClassContext} (spares : scope.Spares) (outer : Nested sites scopes context) :
      Nested (.block body :: sites) (scope :: scopes) context
  | function {f : FunctionDecl} {scope : Scope} {sites : List Site} {scopes : List Scope}
      {context : ClassContext} (spares : scope.Spares) (outer : Nested sites scopes context) :
      Nested (.function f :: sites) (scope :: scopes) context
  | base {f : FunctionDecl} {scope : Scope} {sites : List Site} {scopes : List Scope}
      {context : ClassContext} (spares : scope.Spares) (outer : Nested sites scopes context) :
      Nested (.function f :: .receiver f :: sites) (scope :: receiverScope :: scopes) .base
  | derived {f : FunctionDecl} {name : Name} {parent : Superclass} {methods : List FunctionDecl}
      {scope : Scope} {sites : List Site} {scopes : List Scope} {context : ClassContext}
      (spares : scope.Spares) (member : f ∈ methods) (outer : Nested sites scopes context) :
      Nested (.function f :: .receiver f :: .superclass name parent methods :: sites)
        (scope :: receiverScope :: superScope :: scopes) .derived

/-- Whether a place is in a method of a class with a superclass, which is the nearest method around,
and `this` and `super` are declared around this method. -/
structure Surroundings.Inherits (around : Surroundings) (distance : Nat) (name : Name)
    (parent : Superclass) (methods : List FunctionDecl) : Prop where
  nearest : around.sites.findIdx? Site.isReceiver = some distance
  method : ∃ f ∈ methods, around.sites[distance]? = some (.receiver f)
  «class» : around.sites[distance + 1]? = some (.superclass name parent methods)
  this : around.scopes.findIdx? (fun scope => scope.declares "this") = some distance
  super : around.scopes.findIdx? (fun scope => scope.declares "super") = some (distance + 1)

theorem Scope.Spares.declares_this {scope : Scope} (spares : scope.Spares) :
    scope.declares "this" = false :=
  Bool.eq_false_iff.mpr fun declared => (spares _ declared).1 rfl

theorem Scope.Spares.declares_super {scope : Scope} (spares : scope.Spares) :
    scope.declares "super" = false :=
  Bool.eq_false_iff.mpr fun declared => (spares _ declared).2 rfl

namespace Nested

variable {sites : List Site} {scopes scopes' : List Scope} {context : ClassContext}

/-- **In a class with a superclass `this` and `super` lead to the nearest method and its class.** -/
theorem inherits (nested : Nested sites scopes .derived) (declaring : Option String) :
    ∃ distance name parent methods,
      Surroundings.Inherits ⟨sites, scopes, declaring⟩ distance name parent methods := by
  generalize same : ClassContext.derived = context at nested
  induction nested with
  | outside | base => cases same
  | block spares outer ih | function spares outer ih =>
    -- The scope declares neither name, so both are found one scope further out.
    obtain ⟨distance, name, parent, methods, inside⟩ := ih same
    refine ⟨distance + 1, name, parent, methods, ?_, inside.method, inside.class, ?_, ?_⟩
    · rw [List.findIdx?_cons, inside.nearest]
      rfl
    · rw [List.findIdx?_cons, spares.declares_this, inside.this]
      rfl
    · rw [List.findIdx?_cons, spares.declares_super, inside.super]
      rfl
  | @derived f name parent methods scope sites scopes context spares member outer =>
    -- The scopes are those of the body, of the receiver and of the class, in this order.
    refine ⟨1, name, parent, methods, rfl, ⟨f, member, rfl⟩, rfl, ?_, ?_⟩
    · rw [List.findIdx?_cons, spares.declares_this]
      rfl
    · rw [List.findIdx?_cons, spares.declares_super]
      rfl

/-- Declaring an identifier changes nothing about methods and classes. -/
theorem declaring {name : Name} (nested : Nested sites scopes context)
    (identifier : name.IsIdentifier)
    (added : ∀ scope outer, scopes = scope :: outer → ∃ scope', scopes' = scope' :: outer ∧
      ∀ key, scope'.declares key = (key == name.lexeme || scope.declares key))
    (none_ : scopes = [] → scopes' = []) : Nested sites scopes' context := by
  have spares (scope scope' : Scope) (spares : scope.Spares)
      (declares : ∀ key, scope'.declares key = (key == name.lexeme || scope.declares key)) :
      scope'.Spares := by
    intro key declared
    rw [declares, Bool.or_eq_true, beq_iff_eq] at declared
    rcases declared with rfl | before
    · exact identifier.spared
    · exact spares key before
  cases nested with
  | outside =>
    rw [none_ rfl]
    exact .outside
  | block here outer =>
    obtain ⟨scope', rfl, declares⟩ := added _ _ rfl
    exact .block (spares _ _ here declares) outer
  | function here outer =>
    obtain ⟨scope', rfl, declares⟩ := added _ _ rfl
    exact .function (spares _ _ here declares) outer
  | base here outer =>
    obtain ⟨scope', rfl, declares⟩ := added _ _ rfl
    exact .base (spares _ _ here declares) outer
  | derived here member outer =>
    obtain ⟨scope', rfl, declares⟩ := added _ _ rfl
    exact .derived (spares _ _ here declares) member outer

theorem declare {r : Resolver} {name : Name} (nested : Nested sites r.scopes context)
    (identifier : name.IsIdentifier) : Nested sites (r.declare name).scopes context :=
  nested.declaring identifier (fun _ _ inside => Resolver.declares_declare name inside)
    (Resolver.scopes_declare_nil name)

theorem introduce {r : Resolver} {name : Name} (nested : Nested sites r.scopes context)
    (identifier : name.IsIdentifier) : Nested sites (r.introduce name).scopes context :=
  nested.declaring identifier (fun _ _ inside => Resolver.declares_introduce name inside)
    (Resolver.scopes_introduce_nil name)

end Nested

/-- What a statement declares is an identifier. -/
theorem Stmt.Formed.declared {s : Stmt} (formed : s.Formed) {name : Name}
    (declares : s.declared? = some name) : name.IsIdentifier := by
  cases s with
  | var => exact Option.some.inj declares ▸ formed
  | function f => exact Option.some.inj declares ▸ FunctionDecl.Formed.identifier formed
  | «class» => exact Option.some.inj declares ▸ formed.1
  | expression | print | block | «if» | «while» | «return» => cases declares

/-- Whether an access is accepted in a class or outside: `this` only in a class, and `super` only in
one with a superclass. -/
def Access.AcceptedIn (context : ClassContext) : Access → Prop
  | .this _ _ => context ≠ .outside
  | .super _ _ => context = .derived
  | .read _ _ | .assign _ _ => True

/-- Whether a use is nested in sites and scopes, and accepted there. -/
def Use.Accepted (u : Use) : Prop :=
  ∃ context, Nested u.around.sites u.around.scopes context ∧ u.access.AcceptedIn context

/-- Whether a use is nested in sites and scopes, and inherits if it is one of `super`. -/
def Use.Nests (u : Use) : Prop :=
  ∃ context, Nested u.around.sites u.around.scopes context ∧
    ∀ id line, u.access = .super id line → context = .derived

namespace Resolver

variable {sites : List Site} {r : Resolver}

/-! ## Expressions -/

theorem Passes.silent {r r' : Resolver} {accesses : List Access} (pass : r.Passes accesses r')
    (end_ : r'.errors = []) : r.errors = [] :=
  List.suffix_nil.mp (end_ ▸ pass.errors)

theorem classContext_expression (e : Expr) (r : Resolver) :
    (expression e r).classContext = r.classContext :=
  congrArg Prod.snd (contexts_expression e r)

mutual

/-- An expression that is accepted uses `this` and `super` only where they are. -/
theorem accepted_expression (e : Expr) {r : Resolver} (silent : (expression e r).errors = [])
    {access : Access} (member : access ∈ e.accesses) : access.AcceptedIn r.classContext := by
  match e with
  | .literal _ => exact absurd member List.not_mem_nil
  | .grouping inner => exact accepted_expression inner silent member
  | .unary _ right _ => exact accepted_expression right silent member
  | .binary left _ right _ | .logical left _ right | .set right _ left =>
    rcases List.mem_append.mp member with first | second
    · exact accepted_expression left ((passes_expression right _).silent silent) first
    · rw [← classContext_expression left r]
      exact accepted_expression right silent second
  | .variable _ _ =>
    obtain rfl := List.mem_singleton.mp member
    trivial
  | .assign id name value =>
    have before : (expression value r).errors = [] := (errors_bind _ _ _).symm.trans silent
    rcases List.mem_append.mp member with first | second
    · exact accepted_expression value before first
    · obtain rfl := List.mem_singleton.mp second
      trivial
  | .call callee arguments _ =>
    rcases List.mem_append.mp member with first | second
    · exact accepted_expression callee ((passes_expressions arguments _).silent silent) first
    · rw [← classContext_expression callee r]
      exact accepted_expressions arguments silent second
  | .get object _ => exact accepted_expression object silent member
  | .this id line =>
    obtain rfl := List.mem_singleton.mp member
    intro outside
    -- Here an error is reported, but there is none.
    unfold expression useThis at silent
    rw [outside] at silent
    cases silent
  | .super id line _ =>
    obtain rfl := List.mem_singleton.mp member
    cases context : r.classContext with
    | derived => rfl
    | outside | base =>
      unfold expression useSuper at silent
      rw [context] at silent
      cases silent

theorem accepted_expressions (es : List Expr) {r : Resolver}
    (silent : (expressions es r).errors = []) {access : Access}
    (member : access ∈ Expr.accessesOfAll es) : access.AcceptedIn r.classContext := by
  match es with
  | [] => exact absurd member List.not_mem_nil
  | e :: es =>
    rcases List.mem_append.mp member with first | second
    · exact accepted_expression e ((passes_expressions es _).silent silent) first
    · rw [← classContext_expression e r]
      exact accepted_expressions es silent second

end

/-- The uses in an expression are nested as the expression is. -/
theorem accepted_uses (e : Expr) {declaring : Option String}
    (nested : Nested sites r.scopes r.classContext) (silent : (expression e r).errors = []) :
    ∀ u ∈ e.accesses.map (⟨·, sites, r.scopes, declaring⟩ : Access → Use), u.Accepted := by
  intro u member
  obtain ⟨access, inside, rfl⟩ := List.mem_map.mp member
  exact ⟨r.classContext, nested, accepted_expression e silent inside⟩

theorem accepted_uses? (e : Option Expr) {declaring : Option String}
    (nested : Nested sites r.scopes r.classContext) (silent : (expression? e r).errors = []) :
    ∀ u ∈ (Expr.accessesOf? e).map (⟨·, sites, r.scopes, declaring⟩ : Access → Use),
      u.Accepted := by
  cases e with
  | none => exact fun _ absent => absurd absent List.not_mem_nil
  | some e => exact accepted_uses e nested silent

/-! ## Statements -/

/-- After an expression a place is nested as before. -/
theorem nested_expression (nested : Nested sites r.scopes r.classContext) (e : Expr) :
    Nested sites (expression e r).scopes (expression e r).classContext := by
  rw [scopes_expression, classContext_expression]
  exact nested

/-- After a statement a place is nested as before. -/
theorem nested_statement (nested : Nested sites r.scopes r.classContext) (s : Stmt)
    (formed : s.Formed) :
    Nested sites (statement s r).scopes (statement s r).classContext := by
  have context : (statement s r).classContext = r.classContext :=
    congrArg Prod.snd (contexts_statement s r)
  rw [scopes_statement s formed, context]
  unfold scopesAfter
  cases declares : s.declared? with
  | none => exact nested
  | some name => exact nested.introduce (formed.declared declares)

theorem spares_nil : Scope.Spares [] := fun _ => nofun

/-- The scope of a function declares its parameters only. -/
theorem scopes_parameters (params : List Name) (identifiers : ∀ param ∈ params, param.IsIdentifier)
    (context : FunctionContext) (r : Resolver) :
    ∃ scope : Scope, scope.Spares ∧
      (params.foldl introduce { r with functionContext := context }.enter).scopes
        = scope :: r.scopes := by
  have entered : ({ r with functionContext := context }.enter).scopes = [] :: r.scopes := rfl
  obtain ⟨scope, scopes, declares⟩ := declares_introduceAll params entered
  refine ⟨scope, fun name declared => ?_, scopes⟩
  rw [declares, Scope.declares_nil, Bool.or_false, List.any_eq_true] at declared
  obtain ⟨param, member, same⟩ := declared
  exact beq_iff_eq.mp same ▸ (identifiers param member).spared

theorem classContext_parameters (params : List Name) (context : FunctionContext) (r : Resolver) :
    (params.foldl introduce { r with functionContext := context }.enter).classContext
      = r.classContext := by
  have contexts := contexts_introduceAll params { r with functionContext := context }.enter
  exact congrArg Prod.snd contexts

/-- The context in which the methods of a class stand. -/
theorem classContext_methods (name : Name) (parent : Option Superclass) (r : Resolver) :
    (r.enterClass name parent).classContext = if parent.isSome then .derived else .base := by
  have context : (r.enterClass name parent).classContext
      = Position.classContext [.class name parent] := classContext_enterClass name parent
  rw [context]
  cases parent <;> rfl

mutual

/-- **The uses in a statement that is accepted are nested**, and accepted where they stand. -/
theorem accepted_statement (s : Stmt) (formed : s.Formed) {sites : List Site} {r : Resolver}
    (nested : Nested sites r.scopes r.classContext) (silent : (statement s r).errors = []) :
    ∀ u ∈ s.uses sites r, u.Accepted := by
  match s with
  | .expression e | .print e => exact accepted_uses e nested silent
  | .var name initializer =>
    have context : (r.declare name).classContext = r.classContext :=
      congrArg Prod.snd (contexts_declare r name)
    have declared := nested.declare formed
    rw [← context] at declared
    exact accepted_uses? initializer declared ((Walks.define _ name).silent silent)
  | .block body => exact accepted_statements body formed (.block spares_nil nested) silent
  | .if condition thenBranch elseBranch =>
    -- Errors are never taken back, so each part was accepted if the whole was.
    have then_ := (walks_statement? [] elseBranch formed.2 _).silent silent
    have condition_ := (walks_statement [] thenBranch formed.1.1 _).silent then_
    have inside := nested_expression nested condition
    have after := nested_statement inside thenBranch formed.1.1
    intro u member
    rcases List.mem_append.mp member with before | last
    · rcases List.mem_append.mp before with first | second
      · exact accepted_uses condition nested condition_ u first
      · exact accepted_statement thenBranch formed.1.1 inside then_ u second
    · exact accepted_statement? elseBranch formed.2 after silent u last
  | .while condition body =>
    have condition_ := (walks_statement [] body formed.1 _).silent silent
    intro u member
    rcases List.mem_append.mp member with first | second
    · exact accepted_uses condition nested condition_ u first
    · exact accepted_statement body formed.1 (nested_expression nested condition) silent u second
  | .function declaration =>
    have context : (r.introduce declaration.name).classContext = r.classContext :=
      congrArg Prod.snd (contexts_introduce r declaration.name)
    have introduced := nested.introduce (FunctionDecl.Formed.identifier formed)
    rw [← context] at introduced
    refine accepted_function declaration formed .function (fun scope spares => ?_) silent
    exact .function spares introduced
  | .return line value =>
    cases value with
    | none => exact fun _ absent => absurd absent List.not_mem_nil
    | some e =>
      -- Between the keyword and the value only errors may be added.
      have same : ∀ r' : Resolver, r'.scopes = r.scopes → r'.contexts = r.contexts →
          (expression e r').errors = [] →
          ∀ u ∈ e.accesses.map (⟨·, sites, r.scopes, none⟩ : Access → Use), u.Accepted := by
        intro r' scopes contexts silent
        rw [← scopes]
        refine accepted_uses e ?_ silent
        rw [scopes, show r'.classContext = r.classContext from congrArg Prod.snd contexts]
        exact nested
      exact same _ ((scopes_reportIf _ _ _ _).trans (scopes_reportIf _ _ _ r))
        ((contexts_reportIf _ _ _ _).trans (contexts_reportIf _ _ _ r)) silent
  | .class name parent methodDecls =>
    have walked := silent_class silent
    have introduced := nested.introduce formed.1
    have scopes := scopes_enterClass name parent r
    have context := classContext_methods name parent r
    cases parent with
    | none =>
      refine accepted_methods methodDecls formed.2 (fun f _ scope spares => ?_) walked
      rw [scopes, context]
      exact .base spares introduced
    | some above =>
      intro u member
      rcases List.mem_cons.mp member with rfl | inside
      · -- The superclass is read where the class stands, before its scopes are opened.
        refine ⟨r.classContext, ?_, trivial⟩
        rw [scopes_introduce_base]
        exact introduced
      · refine accepted_methods methodDecls formed.2 (fun f member scope spares => ?_) walked u inside
        rw [scopes, context]
        exact .derived spares member introduced

theorem accepted_statements (ss : List Stmt) (formed : Stmt.AllFormed ss) {sites : List Site}
    {r : Resolver} (nested : Nested sites r.scopes r.classContext)
    (silent : (statements ss r).errors = []) : ∀ u ∈ Stmt.usesOfAll sites ss r, u.Accepted := by
  match ss with
  | [] => exact fun _ absent => absurd absent List.not_mem_nil
  | s :: ss =>
    have walked := (walks_statements [] ss formed.2 _).silent silent
    intro u member
    rcases List.mem_append.mp member with first | rest
    · exact accepted_statement s formed.1 nested walked u first
    · exact accepted_statements ss formed.2 (nested_statement nested s formed.1) silent u rest

theorem accepted_statement? (s : Option Stmt) (formed : Stmt.Formed? s) {sites : List Site}
    {r : Resolver} (nested : Nested sites r.scopes r.classContext)
    (silent : (statement? s r).errors = []) : ∀ u ∈ Stmt.usesOf? sites s r, u.Accepted := by
  match s with
  | none => exact fun _ absent => absurd absent List.not_mem_nil
  | some s => exact accepted_statement s formed.1 nested silent

/-- A function is walked in a scope of its own, which may be that of a method. -/
theorem accepted_function (f : FunctionDecl) (formed : f.Formed) (context : FunctionContext)
    {sites : List Site} {r : Resolver}
    (nested : ∀ scope : Scope, scope.Spares →
      Nested (.function f :: sites) (scope :: r.scopes) r.classContext)
    (silent : (function f context r).errors = []) : ∀ u ∈ f.uses sites context r, u.Accepted := by
  match f with
  | .mk name params body =>
    obtain ⟨scope, spares, scopes⟩ := scopes_parameters params formed.2.1 context r
    refine accepted_statements body formed.2.2 ?_ silent
    rw [scopes, classContext_parameters]
    exact nested scope spares

theorem accepted_methods (fs : List FunctionDecl) (formed : FunctionDecl.AllFormed fs)
    {sites : List Site} {r : Resolver}
    (nested : ∀ f ∈ fs, ∀ scope : Scope, scope.Spares →
      Nested (.function f :: .receiver f :: sites) (scope :: r.scopes) r.classContext)
    (silent : (methods fs r).errors = []) :
    ∀ u ∈ FunctionDecl.usesOfMethods sites fs r, u.Accepted := by
  match fs with
  | [] => exact fun _ absent => absurd absent List.not_mem_nil
  | f :: fs =>
    have walked := (walks_methods [] fs formed.2 _).silent silent
    intro u member
    rcases List.mem_append.mp member with first | rest
    · exact accepted_function f formed.1 _ (nested f List.mem_cons_self) walked u first
    · refine accepted_methods fs formed.2 (fun g later scope spares => ?_) silent u rest
      rw [scopes_function f formed.1,
        show (function f _ r).classContext = r.classContext from
          congrArg Prod.snd (contexts_function f _ r)]
      exact nested g (List.mem_cons_of_mem _ later) scope spares

end

theorem nests_statements (ss : List Stmt) (formed : Stmt.AllFormed ss) {sites : List Site}
    {r : Resolver} (nested : Nested sites r.scopes r.classContext)
    (silent : (statements ss r).errors = []) : ∀ u ∈ Stmt.usesOfAll sites ss r, u.Nests := by
  intro u member
  obtain ⟨context, nested, accepted⟩ := accepted_statements ss formed nested silent u member
  refine ⟨context, nested, fun id line same => ?_⟩
  rwa [same] at accepted

end Resolver

end Lox
