import Lox.Proofs.Scoping.Sessions

/-!
# What a run does with instances

A run evaluates expressions and executes statements. In doing so it reads and sets properties of
instances, binds methods to them, uses names and opens frames. These are its deeds, read off its
notes, the earliest first, each with the machine just before it.

Some deeds are events: the uses, and the frames that are opened, also those in which methods are
bound (`Deed.noted?`). So what is known of the uses in a session is known of the deeds.
-/

set_option autoImplicit false

namespace Lox

/-- What a run does, with instances and names above all. -/
inductive Deed where
  /-- An expression is about to be evaluated. -/
  | evaluates (e : Expr) (machine : Machine)
  /-- A statement is about to be executed. -/
  | executes (s : Stmt) (machine : Machine)
  /-- A use of a name is about to be looked up. -/
  | uses (access : Access) (machine : Machine)
  /-- A frame was opened inside another one, other than for a method that is bound. -/
  | opens (site : Site) (frame around : Address) (machine : Machine)
  /-- A method is bound to an instance. -/
  | binds (method : Method) (i : Instance) (machine : Machine)
  /-- A property of an instance is read. -/
  | reads (i : Instance) (name : Name) (machine : Machine)
  /-- A property of an instance is set. -/
  | sets (i : Instance) (name : Name) (value : Value) (machine : Machine)

namespace Deed

/-- The machine just before a deed. -/
def machine : Deed → Machine
  | evaluates _ m | executes _ m | uses _ m | opens _ _ _ m | binds _ _ m | reads _ _ m
  | sets _ _ _ m => m

/-- The heap just after a deed. -/
def made : Deed → Heap
  | evaluates _ m | executes _ m | uses _ m | opens _ _ _ m | reads _ _ m => m.heap
  | binds method i m => (m.heap.bindMethod method i).2
  | sets i name value m => m.heap.setField i name.lexeme value

/-- The event that a deed is, if it is one. -/
def noted? : Deed → Option Event
  | uses access m => some (.used access m)
  | opens site frame around _ => some (.opened site frame around)
  | binds method i m =>
    some (.opened (.receiver method.declaration) (m.heap.bindMethod method i).1.frame method.frame)
  | evaluates _ _ | executes _ _ | reads _ _ _ | sets _ _ _ _ => none

/-- The value that a deed gives to a property of an instance, under whatever name the instance is
known. -/
def set? (i : Instance) (name : String) : Deed → Option Value
  | sets j key value _ => if i.id = j.id ∧ name = key.lexeme then some value else none
  | evaluates _ _ | executes _ _ | uses _ _ | opens _ _ _ _ | binds _ _ _ | reads _ _ _ => none

/-- The events among some deeds, the latest first. -/
def notes (deeds : List Deed) : List Event :=
  (deeds.filterMap noted?).reverse

/-- The value that was last given to a property of an instance in some deeds. -/
def lastSet (deeds : List Deed) (i : Instance) (name : String) : Option Value :=
  (deeds.filterMap (set? i name)).getLast?

end Deed

/-- The deed that is noted, if it is one. -/
def Note.deed? : Note → Option Deed
  | evaluates e m => some (.evaluates e m)
  | executes s m => some (.executes s m)
  | uses access m => some (.uses access m)
  | opens site frame around m => some (.opens site frame around m)
  | creates (.binding method i _) m => some (.binds method i m)
  | reads i name m => some (.reads i name m)
  | sets i name value m => some (.sets i name value m)
  | _ => none

/-- All events are deeds. -/
theorem Note.event?_eq (note : Note) : note.event? = note.deed?.bind Deed.noted? := by
  cases note with
  | creates creation m => cases creation <;> rfl
  | evaluates | executes | leaves | uses | reads | sets | opens | constructs | invokes | calls
  | begins | ends => rfl

namespace Session

/-- What is done when a session is given an input. A source that is refused runs nothing. -/
def deedsOf (session : Session) (input : Input) : List Deed :=
  (session.notes input).filterMap Note.deed?

/-- What is done when a session is given inputs, one after another. -/
def deeds (session : Session) : List Input → List Deed
  | [] => []
  | input :: inputs => session.deedsOf input ++ (session.receive input).2.deeds inputs

/-- What is noted of names and frames is what is noted of the deeds. -/
theorem noted_eq (session : Session) (events : List Event) (input : Input) :
    session.noted events input = Deed.notes (session.deedsOf input) ++ events := by
  unfold noted deedsOf Deed.notes
  rw [List.filterMap_filterMap, funext Note.event?_eq]

/-- Whether a session that is given inputs has a machine when it has done some deeds: just before
the next deed, or after all inputs. Among these are the machines on which it evaluates an expression
or executes a statement, at any depth. -/
def Comes (session : Session) (inputs : List Input) (before : List Deed) (m : Machine) : Prop :=
  ∃ later, session.deeds inputs = before ++ later ∧
    match later with
    | [] => m = (session.after inputs).machine
    | deed :: _ => m = deed.machine

end Session

end Lox
