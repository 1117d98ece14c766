import Lox.Syntax
import Lox.Number
import Lox.Text.Quoted

/-!
# Values

What a program computes with. Functions, classes and instances are known by their address: two of
them are the same value when they were created at the same address, whatever they hold. What can
change in an instance, its fields, lives in the heap under that address; all else about an object
never changes and is part of the value.
-/

set_option autoImplicit false

namespace Lox

/-- A place in the heap. Addresses grow with time. -/
abbrev Address := Nat

/-- What a function of the host does. -/
inductive Native.Action where
  /-- Gives the seconds since the epoch. -/
  | clock
  /-- Gives the first argument, or nil. -/
  | first
  /-- Gives the number of arguments. -/
  | count
  /-- Fails with the texts of the arguments. -/
  | refuse
  deriving DecidableEq, Repr

/-- A function of the host. -/
structure Native where
  id : Address
  name : String
  arity : Nat
  action : Native.Action
  deriving DecidableEq, Repr

/-- A function or a bound method: a declaration and the frame around it. -/
structure Closure where
  id : Address
  declaration : FunctionDecl
  frame : Address
  isInitializer : Bool

/-- A class: its superclass, its methods, and the frame around them. -/
structure Class where
  id : Address
  name : String
  parent : Option Class
  frame : Address
  methods : List FunctionDecl

/-- An instance of a class; its fields are in the heap. -/
structure Instance where
  id : Address
  of : Class

/-- Values. -/
inductive Value where
  | nil
  | bool (value : Bool)
  | number (value : Float)
  | string (value : String)
  | native (f : Native)
  | closure (f : Closure)
  | «class» (c : Class)
  | «instance» (i : Instance)

/-- The types of values, as messages name them. -/
inductive ValueType where
  | nil
  | boolean
  | number
  | string
  | function
  | «class»
  | «instance»
  deriving DecidableEq, Repr

/-- The name of a type. -/
def ValueType.name : ValueType → String
  | .nil => "nil"
  | .boolean => "boolean"
  | .number => "number"
  | .string => "string"
  | .function => "function"
  | .class => "class"
  | .instance => "instance"

/-- A method as a class holds it: its declaration and the frame around the class. -/
structure Method where
  declaration : FunctionDecl
  frame : Address

namespace Class

/-- The last of the methods with a name. -/
def lastNamed? (methods : List FunctionDecl) (name : String) : Option FunctionDecl :=
  methods.reverse.find? fun method => method.name.lexeme == name

/-- The nearest method with a name, in the class and then in each class above it. -/
def method? (c : Class) (name : String) : Option Method :=
  match c with
  | ⟨_, _, parent, frame, methods⟩ =>
    match lastNamed? methods name with
    | some declaration => some ⟨declaration, frame⟩
    | none =>
      match parent with
      | some above => above.method? name
      | none => none

/-- The number of arguments that a call of the class takes: those of its initializer. -/
def arity (c : Class) : Nat :=
  match c.method? initializerName with
  | some method => method.declaration.params.length
  | none => 0

end Class

namespace Value

/-- The type of a value. -/
def type : Value → ValueType
  | .nil => .nil
  | .bool _ => .boolean
  | .number _ => .number
  | .string _ => .string
  | .native _ | .closure _ => .function
  | .class _ => .class
  | .instance _ => .instance

/-- Whether a value counts as true: all do but nil and false. -/
def isTruthy : Value → Bool
  | .nil | .bool false => false
  | _ => true

/-- Whether two values are equal. Values of different types never are, and objects are equal to
themselves only. -/
def equals : Value → Value → Bool
  | .nil, .nil => true
  | .bool a, .bool b => a == b
  | .number a, .number b => a == b
  | .string a, .string b => a == b
  | .native a, .native b => a.id == b.id
  | .closure a, .closure b => a.id == b.id
  | .class a, .class b => a.id == b.id
  | .instance a, .instance b => a.id == b.id
  | _, _ => false

/-- The number of arguments that a value takes, if it can be called. -/
def arity? : Value → Option Nat
  | .native f => some f.arity
  | .closure f => some f.declaration.params.length
  | .class c => some c.arity
  | _ => none

/-- The text that a program prints for a value, in the parts that are written one after another. A
name is a part of its own, and a number has several. -/
def parts : Value → List String
  | .nil => ["nil"]
  | .bool true => ["true"]
  | .bool false => ["false"]
  | .number x => Number.parts x
  | .string s => [s]
  | .native f => ["<native fn ", f.name, ">"]
  | .closure f => ["<fn ", f.declaration.name.lexeme, ">"]
  | .class c => [c.name]
  | .instance i => ["<", i.of.name, " instance>"]

/-- The text that a program prints for a value. -/
def printed : Value → String
  | .number x => Number.printed x
  | value => String.join value.parts

/-- The text that shows a value to programmers: strings are quoted. -/
def shown : Value → String
  | .string s => Text.shown s
  | value => value.printed

/-- The value of a constant. -/
def ofLiteral : Literal → Value
  | .nil => .nil
  | .bool b => .bool b
  | .number x => .number x
  | .string s => .string s

end Value

end Lox
