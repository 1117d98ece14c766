import Lox.Scope

/-!
# What the static rules look at

The static rules concern returns, `this` and `super`, declarations, reads of variables and the heads
of classes. An *occurrence* is one of these together with its *place*: what lies around it in the
program, from the inside outwards, each part with what stands before the occurrence in that part.
Whether an occurrence is a violation is said of its place alone (`Occurrence.violation?`). Nothing
is remembered from one occurrence to the next.

A scope is a block, or a function with its parameters. A branch of an `if` and the body of a loop
open none, so what they declare they declare in the scope around; in a program that was read they
declare nothing.
-/

set_option autoImplicit false

namespace Lox

/-- A part of a program around a place. -/
inductive Ancestor where
  /-- A block, with the statements of it that stand before. -/
  | block (before : List Stmt)
  /-- The parameters of a function, with those that stand before. -/
  | parameters (before : List Name)
  /-- The body of a function, with the statements of it that stand before. -/
  | function (f : FunctionDecl) (before : List Stmt)
  /-- The body of a method, with the statements of it that stand before. -/
  | method (f : FunctionDecl) (before : List Stmt)
  /-- The initializer of a variable. -/
  | initializer (name : Name)
  /-- The second branch of an `if`, with the first one. -/
  | otherwise (thenBranch : Stmt)
  /-- The superclass and the methods of a class. -/
  | «class» (name : Name) (parent : Option Superclass)

namespace Ancestor

/-- Whether a part of a program is the body of a function or method. -/
def isFunction : Ancestor → Bool
  | function _ _ | method _ _ => true
  | _ => false

/-- Whether a part of a program is a class. -/
def isClass : Ancestor → Bool
  | «class» _ _ => true
  | _ => false

end Ancestor

/-- What lies around a place in a program, from the inside outwards. -/
abbrev Position := List Ancestor

/-- The names that a statement declares in the scope in which it stands. -/
def Stmt.declarations : Stmt → List String
  | .var name _ | .class name _ _ => [name.lexeme]
  | .function declaration => [declaration.name.lexeme]
  | .if _ thenBranch none => thenBranch.declarations
  | .if _ thenBranch (some elseBranch) => thenBranch.declarations ++ elseBranch.declarations
  | .while _ body => body.declarations
  | .expression _ | .print _ | .block _ | .return _ _ => []

namespace Position

/-- The names that are declared before a place in the innermost scope around it; there are none to
speak of among the globals. -/
def declared? : Position → Option (List String)
  | [] => none
  | .block before :: _ => some (before.flatMap Stmt.declarations)
  | .parameters before :: _ => some (before.map Name.lexeme)
  | .function f before :: _ | .method f before :: _ =>
    some (f.params.map Name.lexeme ++ before.flatMap Stmt.declarations)
  | .otherwise thenBranch :: around => (declared? around).map (· ++ thenBranch.declarations)
  | .initializer _ :: around | .class _ _ :: around => declared? around

/-- Whether a place is in the initializer of a local variable of that name, the first one of the
name in its scope. -/
def initializes : Position → String → Bool
  | .initializer declared :: around, name =>
    match declared? around with
    | some names => name == declared.lexeme && !names.contains name
    | none => false
  | _, _ => false

/-- The nearest function or method around a place. -/
def function? (place : Position) : Option Ancestor :=
  place.find? Ancestor.isFunction

/-- The nearest class around a place. -/
def class? (place : Position) : Option Ancestor :=
  place.find? Ancestor.isClass

end Position

/-- What a static rule looks at. -/
inductive Node where
  /-- A return, with a value or without. -/
  | returns (line : Nat) (value : Bool)
  | this (line : Nat)
  | super (line : Nat)
  /-- The declaration of a variable, a function, a class or a parameter. -/
  | declares (name : Name)
  /-- A variable that is read. -/
  | reads (name : Name)
  /-- The head of a class that names its superclass. -/
  | inherits (name parent : Name)

/-- Something that a static rule looks at, and where it stands. -/
structure Occurrence where
  node : Node
  place : Position

/-- **The static rules.** Outside all functions nothing is returned, and no value from an
initializer; `this` stands in a class, and `super` in one that has a superclass; no scope has a name
twice; a local variable is not read in its own initializer; no class inherits from itself. -/
def Occurrence.violation? (o : Occurrence) : Option ScopeError :=
  match o.node with
  | .returns line value =>
    match o.place.function? with
    | none => some ⟨.returnAtTopLevel, line⟩
    | some (.method f _) =>
      if value ∧ f.name.lexeme = initializerName then some ⟨.valueFromInitializer, line⟩ else none
    | some _ => none
  | .this line =>
    match o.place.class? with
    | none => some ⟨.thisOutsideClass, line⟩
    | some _ => none
  | .super line =>
    match o.place.class? with
    | none => some ⟨.superOutsideClass, line⟩
    | some (.class _ none) => some ⟨.superWithoutSuperclass, line⟩
    | some _ => none
  | .declares name =>
    match o.place.declared? with
    | some names => if name.lexeme ∈ names then some ⟨.redeclared, name.line⟩ else none
    | none => none
  | .reads name =>
    if o.place.initializes name.lexeme then some ⟨.ownInitializer, name.line⟩ else none
  | .inherits name parent =>
    if parent.lexeme = name.lexeme then some ⟨.inheritsFromItself, parent.line⟩ else none

/-! ## The occurrences in a program

They are listed in the order in which the program is walked: the head of a declaration comes before
what is inside it, and the value that a property is set to before the object. -/

mutual

/-- The occurrences in an expression. -/
def Expr.occurrences (place : Position) : Expr → List Occurrence
  | .literal _ => []
  | .grouping inner => inner.occurrences place
  | .unary _ right _ => right.occurrences place
  | .binary left _ right _ => left.occurrences place ++ right.occurrences place
  | .logical left _ right => left.occurrences place ++ right.occurrences place
  | .variable _ name => [⟨.reads name, place⟩]
  | .assign _ _ value => value.occurrences place
  | .call callee arguments _ => callee.occurrences place ++ Expr.occurrencesOfAll place arguments
  | .get object _ => object.occurrences place
  | .set object _ value => value.occurrences place ++ object.occurrences place
  | .this _ line => [⟨.this line, place⟩]
  | .super _ line _ => [⟨.super line, place⟩]

/-- The occurrences in a list of expressions. -/
def Expr.occurrencesOfAll (place : Position) : List Expr → List Occurrence
  | [] => []
  | e :: es => e.occurrences place ++ Expr.occurrencesOfAll place es

end

/-- The occurrences in an expression that may be absent. -/
def Expr.occurrencesOf? (place : Position) : Option Expr → List Occurrence
  | some e => e.occurrences place
  | none => []

/-- The parameters of a function, each behind those before it. -/
def Name.occurrencesOfAll (around : Position) (before : List Name) : List Name → List Occurrence
  | [] => []
  | param :: params =>
    ⟨.declares param, .parameters before :: around⟩
      :: Name.occurrencesOfAll around (before ++ [param]) params

/-- The occurrences in the head of a class that names its superclass. -/
def Superclass.occurrencesOf? (name : Name) (place : Position) : Option Superclass → List Occurrence
  | some parent =>
    [⟨.inherits name parent.name, place⟩, ⟨.reads parent.name, .class name (some parent) :: place⟩]
  | none => []

mutual

/-- The occurrences in a statement. -/
def Stmt.occurrences (place : Position) : Stmt → List Occurrence
  | .expression e => e.occurrences place
  | .print e => e.occurrences place
  | .var name initializer =>
    ⟨.declares name, place⟩ :: Expr.occurrencesOf? (.initializer name :: place) initializer
  | .block body => Stmt.occurrencesOfAll (.block · :: place) [] body
  | .if condition thenBranch elseBranch =>
    condition.occurrences place ++ thenBranch.occurrences place
      ++ Stmt.occurrencesOf? (.otherwise thenBranch :: place) elseBranch
  | .while condition body => condition.occurrences place ++ body.occurrences place
  | .function declaration =>
    ⟨.declares declaration.name, place⟩ :: declaration.occurrences .function place
  | .return line value => ⟨.returns line value.isSome, place⟩ :: Expr.occurrencesOf? place value
  | .class name parent methods =>
    ⟨.declares name, place⟩ :: Superclass.occurrencesOf? name place parent
      ++ FunctionDecl.occurrencesOfMethods (.class name parent :: place) methods

/-- The occurrences in statements, each behind those before it. -/
def Stmt.occurrencesOfAll (around : List Stmt → Position) (before : List Stmt) :
    List Stmt → List Occurrence
  | [] => []
  | s :: ss => s.occurrences (around before) ++ Stmt.occurrencesOfAll around (before ++ [s]) ss

/-- The occurrences in a branch that may be absent. -/
def Stmt.occurrencesOf? (place : Position) : Option Stmt → List Occurrence
  | some s => s.occurrences place
  | none => []

/-- The occurrences in a function: its parameters and its body. -/
def FunctionDecl.occurrences (kind : FunctionDecl → List Stmt → Ancestor) (place : Position) :
    FunctionDecl → List Occurrence
  | .mk name params body =>
    Name.occurrencesOfAll place [] params
      ++ Stmt.occurrencesOfAll (kind (.mk name params body) · :: place) [] body

/-- The occurrences in the methods of a class. -/
def FunctionDecl.occurrencesOfMethods (place : Position) : List FunctionDecl → List Occurrence
  | [] => []
  | f :: fs => f.occurrences .method place ++ FunctionDecl.occurrencesOfMethods place fs

end

/-- The occurrences in a program. Its own statements are in no scope. -/
def programOccurrences (program : List Stmt) : List Occurrence :=
  Stmt.occurrencesOfAll (fun _ => []) [] program

end Lox
