import Std.Data.TreeMap
import Lox.Syntax
import Lox.Diagnostic

/-!
# Static scopes

The names that a block, a function or a class declares, what surrounds a statement, and the ways in
which a program can violate the static rules.
-/

set_option autoImplicit false

namespace Lox

/-- For a use of a local variable, how many scopes out it is declared. -/
abbrev Distances := Std.TreeMap NodeId Nat

theorem Distances.getElem?_insert_of_ne (distances : Distances) {id other : NodeId}
    (distance : Nat) (different : other ≠ id) :
    (distances.insert id distance)[other]? = distances[other]? := by
  rw [Std.TreeMap.getElem?_insert, if_neg]
  intro same
  exact different (Nat.compare_eq_eq.mp same).symm

/-- What function body surrounds a statement. -/
inductive FunctionContext where
  | outside
  | function
  | method
  | initializer
  deriving DecidableEq, Repr

/-- What class body surrounds a statement. -/
inductive ClassContext where
  | outside
  | base
  | derived
  deriving DecidableEq, Repr

/-- Violations of the static rules. -/
inductive ScopeError.Cause where
  | returnAtTopLevel
  | valueFromInitializer
  | inheritsFromItself
  | thisOutsideClass
  | superOutsideClass
  | superWithoutSuperclass
  | ownInitializer
  | redeclared
  deriving DecidableEq, Repr

/-- A violation of the static rules. -/
structure ScopeError where
  cause : ScopeError.Cause
  line : Nat
  deriving DecidableEq, Repr

namespace ScopeError

/-- The wording of a violation. -/
def Cause.message : Cause → String
  | .returnAtTopLevel => "Can't return from top-level code."
  | .valueFromInitializer => "Can't return a value from an initializer."
  | .inheritsFromItself => "A class can't inherit from itself."
  | .thisOutsideClass => "Can't use 'this' outside of a class."
  | .superOutsideClass => "Can't use 'super' outside of a class."
  | .superWithoutSuperclass => "Can't use 'super' in a class with no superclass."
  | .ownInitializer => "Can't read local variable in its own initializer."
  | .redeclared => "Already a variable with this name in this scope."

/-- The violation as it is reported. -/
def diagnostic (e : ScopeError) : Diagnostic :=
  ⟨.static, e.line, e.cause.message⟩

end ScopeError

/-- The names of one scope; a name is ready once its initializer has been passed. -/
abbrev Scope := List (String × Bool)

namespace Scope

/-- Whether a name of the scope is ready, if the scope has it. -/
def ready? (scope : Scope) (name : String) : Option Bool :=
  scope.lookup name

/-- Whether the scope declares a name. -/
def declares (scope : Scope) (name : String) : Bool :=
  (scope.ready? name).isSome

/-- The scope with a name in the given state, which hides an earlier entry. -/
def put (scope : Scope) (name : String) (ready : Bool) : Scope :=
  (name, ready) :: scope

end Scope

end Lox
