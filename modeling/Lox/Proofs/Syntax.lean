import Lox.Syntax
import Lox.Token

/-!
# What trees hold

The uses of names in a tree, and the shape of the trees that are read from a source: names are no
reserved words, and the branches of an `if` and the body of a loop are no declarations.
-/

set_option autoImplicit false

namespace Lox

/-- A place where a program uses a name. -/
inductive Access where
  | read (id : NodeId) (name : Name)
  | assign (id : NodeId) (name : Name)
  | this (id : NodeId) (line : Nat)
  | super (id : NodeId) (line : Nat)
  deriving DecidableEq

namespace Access

/-- The number of the use. -/
def id : Access → NodeId
  | read id _ | assign id _ | this id _ | super id _ => id

/-- The name that is looked up. -/
def name : Access → String
  | read _ name | assign _ name => name.lexeme
  | this _ _ => "this"
  | super _ _ => "super"

/-- Whether the use gives the name a new value. -/
def assigns : Access → Bool
  | assign _ _ => true
  | read _ _ | this _ _ | super _ _ => false

end Access

/-! ## The uses in a tree

They are listed in the order in which the static analysis meets them. -/

mutual

/-- The uses in an expression. -/
def Expr.accesses : Expr → List Access
  | .literal _ => []
  | .grouping inner => inner.accesses
  | .unary _ right _ => right.accesses
  | .binary left _ right _ => left.accesses ++ right.accesses
  | .logical left _ right => left.accesses ++ right.accesses
  | .variable id name => [.read id name]
  | .assign id name value => value.accesses ++ [.assign id name]
  | .call callee arguments _ => callee.accesses ++ Expr.accessesOfAll arguments
  | .get object _ => object.accesses
  | .set object _ value => value.accesses ++ object.accesses
  | .this id line => [.this id line]
  | .super id line _ => [.super id line]

/-- The uses in a list of expressions. -/
def Expr.accessesOfAll : List Expr → List Access
  | [] => []
  | e :: es => e.accesses ++ Expr.accessesOfAll es

end

/-- The uses in an expression that may be absent. -/
def Expr.accessesOf? : Option Expr → List Access
  | some e => e.accesses
  | none => []

/-- The use of a superclass in the head of a class. -/
def Superclass.access (parent : Superclass) : Access :=
  .read parent.id parent.name

/-- The uses in the head of a class. -/
def Superclass.accessesOf? : Option Superclass → List Access
  | some parent => [parent.access]
  | none => []

mutual

/-- The uses in a statement. -/
def Stmt.accesses : Stmt → List Access
  | .expression e => e.accesses
  | .print e => e.accesses
  | .var _ initializer => Expr.accessesOf? initializer
  | .block body => Stmt.accessesOfAll body
  | .if condition thenBranch elseBranch =>
    condition.accesses ++ thenBranch.accesses ++ Stmt.accessesOf? elseBranch
  | .while condition body => condition.accesses ++ body.accesses
  | .function declaration => declaration.accesses
  | .return _ value => Expr.accessesOf? value
  | .class _ parent methods => Superclass.accessesOf? parent ++ FunctionDecl.accessesOfAll methods

/-- The uses in a list of statements. -/
def Stmt.accessesOfAll : List Stmt → List Access
  | [] => []
  | s :: ss => s.accesses ++ Stmt.accessesOfAll ss

/-- The uses in a statement that may be absent. -/
def Stmt.accessesOf? : Option Stmt → List Access
  | some s => s.accesses
  | none => []

/-- The uses in a function. -/
def FunctionDecl.accesses : FunctionDecl → List Access
  | .mk _ _ body => Stmt.accessesOfAll body

/-- The uses in a list of functions. -/
def FunctionDecl.accessesOfAll : List FunctionDecl → List Access
  | [] => []
  | f :: fs => f.accesses ++ FunctionDecl.accessesOfAll fs

end

/-! ## The shape of what is read -/

/-- Whether a name can be written as an identifier: it is no reserved word. -/
def Name.IsIdentifier (name : Name) : Prop :=
  Keyword.ofSpelling? name.lexeme = none

theorem Name.IsIdentifier.ne_this {name : Name} (identifier : name.IsIdentifier) :
    name.lexeme ≠ "this" := by
  intro same
  unfold Name.IsIdentifier at identifier
  rw [same] at identifier
  exact absurd identifier (by decide)

theorem Name.IsIdentifier.ne_super {name : Name} (identifier : name.IsIdentifier) :
    name.lexeme ≠ "super" := by
  intro same
  unfold Name.IsIdentifier at identifier
  rw [same] at identifier
  exact absurd identifier (by decide)

/-- The name that a statement declares in the scope in which it stands. -/
def Stmt.declared? : Stmt → Option Name
  | .var name _ | .class name _ _ => some name
  | .function declaration => some declaration.name
  | .expression _ | .print _ | .block _ | .if _ _ _ | .while _ _ | .return _ _ => none

/-- Whether a statement declares nothing in the scope in which it stands. -/
def Stmt.isPlain (s : Stmt) : Bool :=
  s.declared?.isNone

mutual

/-- Whether names are identifiers, and branches and loop bodies are no declarations. -/
def Stmt.Formed : Stmt → Prop
  | .expression _ | .print _ | .return _ _ => True
  | .var name _ => name.IsIdentifier
  | .block body => Stmt.AllFormed body
  | .if _ thenBranch elseBranch =>
    (thenBranch.Formed ∧ thenBranch.isPlain = true) ∧ Stmt.Formed? elseBranch
  | .while _ body => body.Formed ∧ body.isPlain = true
  | .function declaration => declaration.Formed
  | .class name _ methods => name.IsIdentifier ∧ FunctionDecl.AllFormed methods

/-- Whether statements are well formed. -/
def Stmt.AllFormed : List Stmt → Prop
  | [] => True
  | s :: ss => s.Formed ∧ Stmt.AllFormed ss

/-- Whether a branch is well formed, if there is one. -/
def Stmt.Formed? : Option Stmt → Prop
  | some s => s.Formed ∧ s.isPlain = true
  | none => True

/-- Whether a function is well formed. -/
def FunctionDecl.Formed : FunctionDecl → Prop
  | .mk name params body =>
    name.IsIdentifier ∧ (∀ param ∈ params, param.IsIdentifier) ∧ Stmt.AllFormed body

/-- Whether functions are well formed. -/
def FunctionDecl.AllFormed : List FunctionDecl → Prop
  | [] => True
  | f :: fs => f.Formed ∧ FunctionDecl.AllFormed fs

end

end Lox
