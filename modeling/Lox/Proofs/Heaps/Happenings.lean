import Lox.Proofs.Trace
import Lox.Proofs.Heaps.Soundness

/-!
# What a run creates and gives

A run takes cells of the heap for what it creates: frames for blocks, calls, superclasses and
receivers, instances, functions and classes. Its happenings list these creations in their order, each
with what was created and the machine just before, and besides them every expression and statement,
when it is entered and when it is left, with the value that it gives. So at each place in the list
one can tell which values have come up so far.

They are read off the notes of the run (`Note.happening?`), as moments, deeds and events are.
-/

set_option autoImplicit false

namespace Lox

namespace Creation

/-- The cells that a creation takes, in the order in which they are taken. -/
def cells : Creation → List (Address × Cell.Kind)
  | block frame | call _ frame | superclass _ frame => [(frame, .frame)]
  | binding _ _ f => [(f.frame, .frame), (f.id, .identity)]
  | construction i => [(i.id, .fields)]
  | function f => [(f.id, .identity)]
  | «class» c => [(c.id, .identity)]

/-- The value that is created, if it is more than a frame. -/
def value? : Creation → Option Value
  | block _ | call _ _ | superclass _ _ => none
  | binding _ _ f | function f => some (.closure f)
  | construction i => some (.instance i)
  | «class» c => some (.class c)

end Creation

/-- What happens in a run. -/
inductive Happening where
  /-- An expression or a statement is about to be run. -/
  | enters (machine : Machine)
  /-- Something is created; the machine is the one just before. -/
  | creates (creation : Creation) (machine : Machine)
  /-- An expression or a statement is left, with the value that it gives, if there is one. -/
  | leaves (given : Option Value) (machine : Machine)

namespace Happening

/-- The machine when something happens. -/
def machine : Happening → Machine
  | enters m | creates _ m | leaves _ m => m

/-- The cells that are taken. -/
def cells : Happening → List (Address × Cell.Kind)
  | creates creation _ => creation.cells
  | enters _ | leaves _ _ => []

/-- The addresses that are taken. -/
def addresses (x : Happening) : List Address :=
  x.cells.map Prod.fst

/-- The value that comes up. -/
def value? : Happening → Option Value
  | creates creation _ => creation.value?
  | leaves given _ => given
  | enters _ => none

end Happening

/-- What happens as it is noted, if anything does. -/
def Note.happening? : Note → Option Happening
  | evaluates _ m | executes _ m => some (.enters m)
  | leaves given m => some (.leaves given m)
  | creates creation m => some (.creates creation m)
  | uses _ _ | reads _ _ _ | sets _ _ _ _ | opens _ _ _ _ | constructs _ _ _ _ _
  | invokes _ _ _ _ _ | calls _ _ _ | begins _ _ | ends _ => none

namespace Session

/-- What happens when a session is given an input. A source that is refused runs nothing. -/
def happeningsOf (session : Session) (input : Input) : List Happening :=
  (session.notes input).filterMap Note.happening?

/-- What happens when a session is given inputs, one after another. -/
def happenings (session : Session) : List Input → List Happening
  | [] => []
  | input :: inputs => session.happeningsOf input ++ (session.receive input).2.happenings inputs

/-- Whether a session that is given inputs has a machine at some time: when something happens, or
after all inputs. -/
def Reaches (session : Session) (inputs : List Input) (m : Machine) : Prop :=
  (∃ x ∈ session.happenings inputs, x.machine = m) ∨ (session.after inputs).machine = m

end Session

end Lox
