import Lox.Resolution
import Lox.Proofs.Syntax

/-!
# Uses of names and the scopes around them

A program uses names where it reads or assigns a variable, and where it says `this` or `super`. For
each use this module says which parts of the program are around it: the scopes as the static
analysis has them when it meets the use, and for each scope the part that opens it, its *site*.

An expression opens no scope, so all uses in one expression have the same surroundings. One name
may be missing in them at run time: the one that the statement around is just declaring, which
stands in the innermost scope before it is bound.
-/

set_option autoImplicit false

namespace Lox

/-- What opens a scope: a block, a call of a function, the binding of a method, or a class with a
superclass. -/
inductive Site where
  | block (body : List Stmt)
  | function (declaration : FunctionDecl)
  | receiver (method : FunctionDecl)
  | superclass (name : Name) (parent : Superclass) (methods : List FunctionDecl)

/-- What is around a use: the scopes, each with its site, and the name that is being declared. -/
structure Surroundings where
  sites : List Site
  scopes : List Scope
  declaring : Option String

/-- A use and what is around it. -/
structure Use where
  access : Access
  around : Surroundings

/-- How many scopes out the name of a use is declared, if any of the scopes declares it. -/
def Use.distance (u : Use) : Option Nat :=
  u.around.scopes.findIdx? fun scope => scope.declares u.access.name

/-! ## The uses in a program -/

mutual

/-- The uses in a statement that the analysis meets in the state `r`. -/
def Stmt.uses (sites : List Site) (s : Stmt) (r : Resolver) : List Use :=
  match s with
  | .expression e => e.accesses.map (⟨·, sites, r.scopes, none⟩)
  | .print e => e.accesses.map (⟨·, sites, r.scopes, none⟩)
  | .var name initializer =>
    (Expr.accessesOf? initializer).map (⟨·, sites, (r.declare name).scopes, some name.lexeme⟩)
  | .block body => Stmt.usesOfAll (.block body :: sites) body r.enter
  | .if condition thenBranch elseBranch =>
    condition.accesses.map (⟨·, sites, r.scopes, none⟩)
      ++ thenBranch.uses sites (Resolver.expression condition r)
      ++ Stmt.usesOf? sites elseBranch
        (Resolver.statement thenBranch (Resolver.expression condition r))
  | .while condition body =>
    condition.accesses.map (⟨·, sites, r.scopes, none⟩)
      ++ body.uses sites (Resolver.expression condition r)
  | .function declaration => declaration.uses sites .function (r.introduce declaration.name)
  | .return _ value => (Expr.accessesOf? value).map (⟨·, sites, r.scopes, none⟩)
  | .class name parent methods =>
    match parent with
    | some above =>
      ⟨above.access, sites, ({ r with classContext := .base }.introduce name).scopes,
          some name.lexeme⟩
        :: FunctionDecl.usesOfMethods (.superclass name above methods :: sites) methods
          (r.enterClass name parent)
    | none => FunctionDecl.usesOfMethods sites methods (r.enterClass name parent)

/-- The uses in a list of statements. -/
def Stmt.usesOfAll (sites : List Site) (ss : List Stmt) (r : Resolver) : List Use :=
  match ss with
  | [] => []
  | s :: ss => s.uses sites r ++ Stmt.usesOfAll sites ss (Resolver.statement s r)

/-- The uses in a statement that may be absent. -/
def Stmt.usesOf? (sites : List Site) (s : Option Stmt) (r : Resolver) : List Use :=
  match s with
  | some s => s.uses sites r
  | none => []

/-- The uses in the body of a function, around which lies the scope of its parameters. -/
def FunctionDecl.uses (sites : List Site) (context : FunctionContext) (f : FunctionDecl)
    (r : Resolver) : List Use :=
  match f with
  | .mk name params body =>
    Stmt.usesOfAll (.function (.mk name params body) :: sites) body
      (params.foldl Resolver.introduce { r with functionContext := context }.enter)

/-- The uses in the methods of a class. -/
def FunctionDecl.usesOfMethods (sites : List Site) (fs : List FunctionDecl) (r : Resolver) :
    List Use :=
  match fs with
  | [] => []
  | f :: fs =>
    let context : FunctionContext :=
      if f.name.lexeme == initializerName then .initializer else .method
    f.uses (.receiver f :: sites) context r
      ++ FunctionDecl.usesOfMethods sites fs (Resolver.function f context r)

end

/-- The uses in a program. -/
def programUses (program : List Stmt) : List Use :=
  Stmt.usesOfAll [] program .initial

/-! ### Surroundings aside, the uses are those of the tree -/

theorem map_access_map (around : Surroundings) (accesses : List Access) :
    (accesses.map (⟨·, around⟩ : Access → Use)).map Use.access = accesses := by
  rw [List.map_map]
  exact List.map_id _

mutual

theorem Stmt.map_access_uses (sites : List Site) (s : Stmt) (r : Resolver) :
    (s.uses sites r).map Use.access = s.accesses := by
  match s with
  | .expression e | .print e | .var name initializer | .return line value =>
    exact map_access_map _ _
  | .block body => exact Stmt.map_access_usesOfAll _ body _
  | .if condition thenBranch elseBranch =>
    simp only [Stmt.uses, Stmt.accesses, List.map_append, map_access_map,
      Stmt.map_access_uses sites thenBranch, Stmt.map_access_usesOf? sites elseBranch]
  | .while condition body =>
    simp only [Stmt.uses, Stmt.accesses, List.map_append, map_access_map,
      Stmt.map_access_uses sites body]
  | .function declaration => exact FunctionDecl.map_access_uses _ _ declaration _
  | .class name parent methods =>
    cases parent with
    | none => exact FunctionDecl.map_access_usesOfMethods _ methods _
    | some above =>
      exact congrArg (above.access :: ·) (FunctionDecl.map_access_usesOfMethods _ methods _)

theorem Stmt.map_access_usesOfAll (sites : List Site) (ss : List Stmt) (r : Resolver) :
    (Stmt.usesOfAll sites ss r).map Use.access = Stmt.accessesOfAll ss := by
  match ss with
  | [] => rfl
  | s :: ss =>
    rw [Stmt.usesOfAll, Stmt.accessesOfAll, List.map_append, Stmt.map_access_uses sites s,
      Stmt.map_access_usesOfAll sites ss]

theorem Stmt.map_access_usesOf? (sites : List Site) (s : Option Stmt) (r : Resolver) :
    (Stmt.usesOf? sites s r).map Use.access = Stmt.accessesOf? s := by
  match s with
  | none => rfl
  | some s => exact Stmt.map_access_uses sites s r

theorem FunctionDecl.map_access_uses (sites : List Site) (context : FunctionContext)
    (f : FunctionDecl) (r : Resolver) :
    (f.uses sites context r).map Use.access = f.accesses := by
  match f with
  | .mk name params body => exact Stmt.map_access_usesOfAll _ body _

theorem FunctionDecl.map_access_usesOfMethods (sites : List Site) (fs : List FunctionDecl)
    (r : Resolver) :
    (FunctionDecl.usesOfMethods sites fs r).map Use.access = FunctionDecl.accessesOfAll fs := by
  match fs with
  | [] => rfl
  | f :: fs =>
    rw [FunctionDecl.usesOfMethods, FunctionDecl.accessesOfAll, List.map_append,
      FunctionDecl.map_access_uses _ _ f, FunctionDecl.map_access_usesOfMethods sites fs]

end

theorem map_access_programUses (program : List Stmt) :
    (programUses program).map Use.access = Stmt.accessesOfAll program :=
  Stmt.map_access_usesOfAll [] program .initial

end Lox
