import Lox.Heap
import Lox.Sink
import Lox.Scope
import Lox.Operation

/-!
# The machine

The state in which programs run, and the steps that touch it: looking up and assigning variables,
reading and setting properties, writing output. A computation ends with a value, with a runtime
error, or because the bound on its own nesting was used up; in each case it leaves a machine behind.
-/

set_option autoImplicit false

namespace Lox

/-- The state of a running program. -/
structure Machine where
  heap : Heap
  /-- The frame of the globals. -/
  globals : Address
  /-- The frame of the innermost scope. -/
  current : Address
  /-- How far out each use of a local variable is declared. -/
  distances : Distances
  /-- The number of function bodies that are running. -/
  depth : Nat
  /-- The number of function bodies that may run inside each other. -/
  maxDepth : Nat
  sink : Sink
  clock : Clock

/-- Why a computation stops without a value. -/
inductive Stop where
  | error (e : RuntimeError)
  /-- The bound on the nesting of the evaluation itself was used up. -/
  | exhausted

/-- Computes on a machine. -/
abbrev Eval := EStateM Stop Machine

/-- How a statement ends. -/
inductive Completion where
  | normal
  | returned (value : Value)

namespace Machine

/-- The nesting of calls that is allowed unless another limit is set. -/
def defaultMaxDepth : Nat := 2048

/-- A machine on a heap, with new globals in which the functions of the host are defined. -/
def new (heap : Heap) (policy : Sink.Policy) (maxDepth : Nat) (clock : Clock) : Machine :=
  let (native, heap) := heap.newNative "clock" 0 .clock
  let (globals, heap) := heap.allocateFrame none (Bindings.empty.set "clock" (.native native))
  { heap := heap
    globals := globals
    current := globals
    distances := ∅
    depth := 0
    maxDepth := maxDepth
    sink := .new policy
    clock := clock }

/-- Adds distances; a later one for the same use replaces an earlier one. -/
def learn (m : Machine) (distances : Distances) : Machine :=
  { m with distances := m.distances.insertMany distances.toList }

/-- The frame in which a use of a variable finds its name: a known distance out, or among the
globals. -/
def place? (m : Machine) (id : NodeId) (name : String) : Option Address :=
  match m.distances[id]? with
  | some distance => m.heap.ownerAt? m.current distance name
  | none => m.heap.owner? m.globals name

/-- The value that a use of a variable finds. -/
def lookUp? (m : Machine) (id : NodeId) (name : String) : Option Value :=
  (m.place? id name).bind (m.heap.read? · name)

end Machine

namespace Eval

/-- Stops with a runtime error. -/
def fail {α : Type} (cause : RuntimeError.Cause) (line : Nat) : Eval α :=
  fun m => .error (.error ⟨cause, line⟩) m

/-- Continues with the result of an operation, whose error is given a line. -/
def orFail {α : Type} (line : Nat) (result : Except RuntimeError.Cause α) : Eval α :=
  match result with
  | .ok a => pure a
  | .error cause => fail cause line

/-- Creates something in the heap. -/
@[inline]
def create {α : Type} (f : Heap → α × Heap) : Eval α := fun m =>
  let (a, heap) := f m.heap
  .ok a { m with heap := heap }

/-- The value of a variable. -/
def lookUp (id : NodeId) (name : String) (line : Nat) : Eval Value := fun m =>
  match m.lookUp? id name with
  | some value => .ok value m
  | none => .error (.error ⟨.undefinedVariable name, line⟩) m

/-- Gives a variable a new value. -/
def assign (id : NodeId) (name : Name) (value : Value) : Eval Unit := fun m =>
  match m.place? id name.lexeme with
  | some frame => .ok () { m with heap := m.heap.define frame name.lexeme value }
  | none => .error (.error ⟨.undefinedVariable name.lexeme, name.line⟩) m

/-- Binds a name in the current frame. -/
def define (name : String) (value : Value) : Eval Unit := fun m =>
  .ok () { m with heap := m.heap.define m.current name value }

/-- A method of an instance, bound to it. -/
def bound (method? : Option Method) (i : Instance) (property : String) (line : Nat) : Eval Value :=
  match method? with
  | some method => do return .closure (← create (·.bindMethod method i))
  | none => fail (.undefinedProperty property) line

/-- The property of a value. A field hides a method of the same name. -/
def property (object : Value) (name : Name) : Eval Value := fun m =>
  match object with
  | .instance i =>
    match m.heap.field? i name.lexeme with
    | some value => .ok value m
    | none => bound (i.of.method? name.lexeme) i name.lexeme name.line m
  | _ => .error (.error ⟨.readsPropertyOfNonInstance, name.line⟩) m

/-- Sets a field of an instance. -/
def setField (i : Instance) (name : String) (value : Value) : Eval Unit := fun m =>
  .ok () { m with heap := m.heap.setField i name value }

/-- A method of the superclass, bound to the current receiver. The frame that binds `this` is the
one just inside the frame that binds `super`. -/
def superMethod (id : NodeId) (line : Nat) (method : String) : Eval Value := fun m =>
  match m.distances[id]? with
  | none => fail .superOutsideClass line m
  | some distance =>
    match m.heap.getAt? m.current distance "super" with
    | none => fail (.undefinedVariable "super") line m
    | some (.class parent) =>
      match m.heap.getAt? m.current (distance - 1) "this" with
      | none => fail (.undefinedVariable "this") line m
      | some (.instance i) => bound (parent.method? method) i method line m
      | some _ => fail .readsPropertyOfNonInstance line m
    | some _ => fail .superclassNotClass line m

/-- Writes a piece of text. -/
def write (text : String) (line : Nat) : Eval Unit := fun m =>
  match m.sink.write text with
  | (none, sink) => .ok () { m with sink := sink }
  | (some reason, sink) => .error (.error ⟨.output reason, line⟩) { m with sink := sink }

/-- Writes pieces of text one after another, up to the first that is refused. -/
def writeAll (line : Nat) : List String → Eval Unit
  | [] => pure ()
  | text :: rest => do
    write text line
    writeAll line rest

/-- Writes a value on a line of its own. -/
def print (value : Value) (line : Nat) : Eval Unit :=
  writeAll line (value.parts ++ ["\n"])

/-- Runs a computation in another frame, and returns to the present one however it ends. -/
@[inline]
def inFrame {α : Type} (frame : Address) (body : Eval α) : Eval α := fun m =>
  let around := m.current
  match body { m with current := frame } with
  | .ok a m => .ok a { m with current := around }
  | .error stop m => .error stop { m with current := around }

/-- Runs a function body one level deeper, if the limit allows it, and returns to the present level
however it ends. -/
@[inline]
def inCall {α : Type} (line : Nat) (body : Eval α) : Eval α := fun m =>
  if m.maxDepth ≤ m.depth then
    fail .stackOverflow line m
  else
    let around := m.depth
    match body { m with depth := around + 1 } with
    | .ok a m => .ok a { m with depth := around }
    | .error stop m => .error stop { m with depth := around }

end Eval

end Lox
