import Lox.Scope

/-!
# Where variables live

Before a program runs, every use of a variable is looked up in the scopes around it, from the
innermost outwards. The table of distances says for each use how many scopes lie between it and the
scope that declares its name; a use that no scope declares is global and has no entry. The walk meets
the tree in the order in which it is written, but for a property that is set, where the value comes
first, and reports every violation of the static rules.

The globals are no scope: outside all blocks and functions nothing is declared and nothing is
checked.
-/

set_option autoImplicit false

namespace Lox

/-- The state of the walk over a program. -/
structure Resolver where
  /-- The scopes around the current place, the innermost first. -/
  scopes : List Scope
  functionContext : FunctionContext
  classContext : ClassContext
  distances : Distances
  /-- The violations found so far, the latest first. -/
  errors : List ScopeError

namespace Resolver

/-- The state before a program. -/
def initial : Resolver :=
  ⟨[], .outside, .outside, ∅, []⟩

/-- Reports a violation. -/
def report (r : Resolver) (cause : ScopeError.Cause) (line : Nat) : Resolver :=
  { r with errors := ⟨cause, line⟩ :: r.errors }

/-- Reports a violation where a condition holds. -/
def reportIf (condition : Bool) (cause : ScopeError.Cause) (line : Nat) (r : Resolver) : Resolver :=
  if condition then r.report cause line else r

/-- Opens a scope. -/
def enter (r : Resolver) : Resolver :=
  { r with scopes := [] :: r.scopes }

/-- Closes the innermost scope. -/
def leave (r : Resolver) : Resolver :=
  { r with scopes := r.scopes.tail }

/-- Puts a name into the innermost scope, if there is one. -/
def put (r : Resolver) (name : String) (ready : Bool) : Resolver :=
  match r.scopes with
  | [] => r
  | scope :: outer => { r with scopes := scope.put name ready :: outer }

/-- Declares a name that is not ready yet. A second declaration in one scope is a violation. -/
def declare (r : Resolver) (name : Name) : Resolver :=
  match r.scopes with
  | [] => r
  | scope :: _ =>
    if scope.declares name.lexeme then r.report .redeclared name.line
    else r.put name.lexeme false

/-- Makes a declared name ready. -/
def define (r : Resolver) (name : Name) : Resolver :=
  r.put name.lexeme true

/-- Declares a name that is ready at once. -/
def introduce (r : Resolver) (name : Name) : Resolver :=
  (r.declare name).define name

/-- Enters the distance of a use of a name, unless it is global. -/
def bind (r : Resolver) (id : NodeId) (name : String) : Resolver :=
  match r.scopes.findIdx? fun scope => scope.declares name with
  | some distance => { r with distances := r.distances.insert id distance }
  | none => r

/-- Whether a name stands in the innermost scope and is not ready. -/
def isPending (r : Resolver) (name : String) : Bool :=
  match r.scopes with
  | [] => false
  | scope :: _ => scope.ready? name == some false

/-- Reads a variable. -/
def use (r : Resolver) (id : NodeId) (name : Name) : Resolver :=
  (r.reportIf (r.isPending name.lexeme) .ownInitializer name.line).bind id name.lexeme

/-- Uses the receiver of the method around. -/
def useThis (r : Resolver) (id : NodeId) (line : Nat) : Resolver :=
  match r.classContext with
  | .outside => r.report .thisOutsideClass line
  | .base | .derived => r.bind id "this"

/-- Uses the superclass of the class around. -/
def useSuper (r : Resolver) (id : NodeId) (line : Nat) : Resolver :=
  match r.classContext with
  | .outside => r.report .superOutsideClass line
  | .base => r.report .superWithoutSuperclass line
  | .derived => r.bind id "super"

mutual

/-- Walks an expression. The value of an assignment comes before its target. -/
def expression (e : Expr) (r : Resolver) : Resolver :=
  match e with
  | .literal _ => r
  | .grouping inner => expression inner r
  | .unary _ right _ => expression right r
  | .binary left _ right _ => expression right (expression left r)
  | .logical left _ right => expression right (expression left r)
  | .variable id name => r.use id name
  | .assign id name value => (expression value r).bind id name.lexeme
  | .call callee arguments _ => expressions arguments (expression callee r)
  | .get object _ => expression object r
  | .set object _ value => expression object (expression value r)
  | .this id line => r.useThis id line
  | .super id line _ => r.useSuper id line

/-- Walks a list of expressions. -/
def expressions (es : List Expr) (r : Resolver) : Resolver :=
  match es with
  | [] => r
  | e :: es => expressions es (expression e r)

end

/-- Walks an expression that may be absent. -/
def expression? (e : Option Expr) (r : Resolver) : Resolver :=
  match e with
  | some e => expression e r
  | none => r

/-- Checks a return statement and walks its value. -/
def returned (line : Nat) (value : Option Expr) (r : Resolver) : Resolver :=
  let r := r.reportIf (r.functionContext == .outside) .returnAtTopLevel line
  match value with
  | some e => expression e (r.reportIf (r.functionContext == .initializer) .valueFromInitializer line)
  | none => r

/-- Opens what lies around the methods of a class: its superclass is used, and a scope with `super`
is opened if there is one, and then a scope with `this`. -/
def enterClass (name : Name) (parent : Option Superclass) (r : Resolver) : Resolver :=
  let r := { r with classContext := .base }.introduce name
  let r :=
    match parent with
    | some parent =>
      let r := r.reportIf (parent.name.lexeme == name.lexeme) .inheritsFromItself parent.name.line
      ({ r with classContext := .derived }.use parent.id parent.name).enter.put "super" true
    | none => r
  r.enter.put "this" true

/-- Closes what `enterClass` opened. -/
def leaveClass (parent : Option Superclass) (around : ClassContext) (r : Resolver) : Resolver :=
  let r := r.leave
  let r := if parent.isSome then r.leave else r
  { r with classContext := around }

mutual

/-- Walks a statement. -/
def statement (s : Stmt) (r : Resolver) : Resolver :=
  match s with
  | .expression e => expression e r
  | .print e => expression e r
  | .var name initializer => (expression? initializer (r.declare name)).define name
  | .block body => (statements body r.enter).leave
  | .if condition thenBranch elseBranch =>
    statement? elseBranch (statement thenBranch (expression condition r))
  | .while condition body => statement body (expression condition r)
  | .function declaration => function declaration .function (r.introduce declaration.name)
  | .return line value => returned line value r
  | .class name parent methodDecls =>
    (methods methodDecls (r.enterClass name parent)).leaveClass parent r.classContext

/-- Walks a list of statements. -/
def statements (ss : List Stmt) (r : Resolver) : Resolver :=
  match ss with
  | [] => r
  | s :: ss => statements ss (statement s r)

/-- Walks a statement that may be absent. -/
def statement? (s : Option Stmt) (r : Resolver) : Resolver :=
  match s with
  | some s => statement s r
  | none => r

/-- Walks a function in one scope for its parameters and its body. -/
def function (f : FunctionDecl) (context : FunctionContext) (r : Resolver) : Resolver :=
  match f with
  | .mk _ params body =>
    let inside := params.foldl introduce { r with functionContext := context }.enter
    { (statements body inside).leave with functionContext := r.functionContext }

/-- Walks the methods of a class. -/
def methods (fs : List FunctionDecl) (r : Resolver) : Resolver :=
  match fs with
  | [] => r
  | f :: fs =>
    let context : FunctionContext :=
      if f.name.lexeme == initializerName then .initializer else .method
    methods fs (function f context r)

end

end Resolver

/-- What the static analysis of a program gives. -/
structure Resolution where
  distances : Distances
  errors : List ScopeError

/-- Analyses a program. -/
def resolve (program : List Stmt) : Resolution :=
  let r := Resolver.statements program .initial
  ⟨r.distances, r.errors.reverse⟩

end Lox
