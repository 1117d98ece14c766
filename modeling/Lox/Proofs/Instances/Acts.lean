import Lox.Proofs.Scoping.Sessions

/-!
# Instances and calls in a run

A run binds methods to instances, makes instances by calling classes, and calls functions. These are
its acts, read off its notes, the earliest first, each with the machine just before it.

Of a call the bound is kept too. With its machine it says how the call ends: an act that calls a
function `f` ends as `invoke bound f arguments line` does on its machine.
-/

set_option autoImplicit false

namespace Lox

/-- What a run does with instances and functions. -/
inductive Act where
  /-- A method is bound to an instance. -/
  | binds (method : Method) (i : Instance) (machine : Machine)
  /-- A class is called. -/
  | constructs (bound : Nat) (c : Class) (arguments : List Value) (line : Nat) (machine : Machine)
  /-- A function, a bound method or an initializer is called. -/
  | invokes (bound : Nat) (f : Closure) (arguments : List Value) (line : Nat) (machine : Machine)

/-- The act that is noted, if it is one. -/
def Note.act? : Note → Option Act
  | creates (.binding method i _) m => some (.binds method i m)
  | constructs bound c arguments line m => some (.constructs bound c arguments line m)
  | invokes bound f arguments line m => some (.invokes bound f arguments line m)
  | _ => none

namespace Session

/-- What is done when a session is given an input. A source that is refused runs nothing. -/
def actsOf (session : Session) (input : Input) : List Act :=
  (session.notes input).filterMap Note.act?

/-- What is done when a session is given inputs, one after another. -/
def acts (session : Session) : List Input → List Act
  | [] => []
  | input :: inputs => session.actsOf input ++ (session.receive input).2.acts inputs

end Session

end Lox
