import Lox.Machine

/-!
# Running programs

Expressions are evaluated and statements executed on a machine. The first argument of each function
bounds how deep its own calls may nest. It decreases with every call, and a computation that would
pass it ends as `exhausted`, which is neither a value nor an error of the program; with a larger
bound it gives the same result or goes on.
-/

set_option autoImplicit false

namespace Lox

namespace Eval

/-- The frame of a call: inside the frame of the function, with the parameters bound. -/
def enterFunction (f : Closure) (arguments : List Value) : Eval Address :=
  let bindings := (f.declaration.params.zip arguments).foldl
    (fun bindings (param, argument) => bindings.set param.lexeme argument) Bindings.empty
  create (·.allocateFrame (some f.frame) bindings)

/-- What a call gives, by how the body ended. An initializer gives its instance. -/
def result (f : Closure) (line : Nat) (completion : Completion) : Eval Value := fun m =>
  if f.isInitializer then
    match m.heap.read? f.frame "this" with
    | some value => .ok value m
    | none => fail (.undefinedVariable "this") line m
  else
    match completion with
    | .returned value => .ok value m
    | .normal => .ok .nil m

/-- Checks that a value can be called with so many arguments. -/
def checkCall (callee : Value) (count : Nat) (line : Nat) : Eval Unit :=
  match callee.arity? with
  | none => fail .notCallable line
  | some arity => if count = arity then pure () else fail (.wrongArity arity count) line

/-- Looks at the clock for a function of the host. -/
def readClock (f : Native) : Eval Float := fun m =>
  .ok m.clock.reading { m with clock := m.clock.after f }

/-- Calls a function of the host. -/
def callNative (f : Native) (arguments : List Value) (line : Nat) : Eval Value := do
  let reading ← readClock f
  orFail line (f.call reading arguments)

/-- The value of a superclass, which has to be a class. -/
def superclass? (parent : Option Superclass) : Eval (Option Class) :=
  match parent with
  | none => pure none
  | some parent => do
    match ← lookUp parent.id parent.name.lexeme parent.name.line with
    | .class c => return some c
    | _ => fail .superclassNotClass parent.name.line

/-- The frame around the methods of a class: one that binds `super`, if there is a superclass. -/
def methodFrame (parent : Option Class) : Eval Address := fun m =>
  match parent with
  | none => .ok m.current m
  | some c => create (·.allocateFrame (some m.current) (Bindings.empty.set "super" (.class c))) m

/-- Defines a class. -/
def declareClass (name : Name) (parent : Option Superclass) (methods : List FunctionDecl) :
    Eval Unit := do
  let parent ← superclass? parent
  let frame ← methodFrame parent
  let c ← create (·.newClass name.lexeme parent frame methods)
  define name.lexeme (.class c)

/-- Defines a function around which the current frame lies. -/
def declareFunction (declaration : FunctionDecl) : Eval Unit := fun m =>
  (do
    let f ← create (·.newClosure declaration m.current false)
    define declaration.name.lexeme (.closure f)) m

/-- Opens a frame inside the current one. -/
def openBlock : Eval Address := fun m =>
  create (·.allocateFrame (some m.current) .empty) m

end Eval

open Eval

mutual

/-- Evaluates an expression. -/
def evaluate (bound : Nat) (e : Expr) : Eval Value :=
  match bound with
  | 0 => throw .exhausted
  | n + 1 =>
    match e with
    | .literal value => return .ofLiteral value
    | .grouping inner => evaluate n inner
    | .unary op right line => do
      let right ← evaluate n right
      orFail line (op.apply right)
    | .binary left op right line => do
      let left ← evaluate n left
      let right ← evaluate n right
      orFail line (op.apply left right)
    | .logical left op right => do
      let left ← evaluate n left
      if op.stopsAt left then return left else evaluate n right
    | .variable id name => lookUp id name.lexeme name.line
    | .assign id name value => do
      let value ← evaluate n value
      assign id name value
      return value
    | .call callee arguments line => do
      let callee ← evaluate n callee
      let arguments ← evaluateAll n arguments
      checkCall callee arguments.length line
      call n callee arguments line
    | .get object name => do
      let object ← evaluate n object
      property object name
    | .set object name value => do
      match ← evaluate n object with
      | .instance i =>
        -- Only where there is a field to set is the value evaluated.
        let value ← evaluate n value
        setField i name.lexeme value
        return value
      | _ => fail .setsFieldOfNonInstance name.line
    | .this id line => lookUp id "this" line
    | .super id line method => superMethod id line method.lexeme

/-- Evaluates expressions from left to right. -/
def evaluateAll (bound : Nat) (es : List Expr) : Eval (List Value) :=
  match bound with
  | 0 => throw .exhausted
  | n + 1 =>
    match es with
    | [] => return []
    | e :: es => do
      let value ← evaluate n e
      let values ← evaluateAll n es
      return value :: values

/-- Calls a value with arguments of the right number. -/
def call (bound : Nat) (callee : Value) (arguments : List Value) (line : Nat) : Eval Value :=
  match bound with
  | 0 => throw .exhausted
  | n + 1 =>
    match callee with
    | .native f => callNative f arguments line
    | .closure f => invoke n f arguments line
    | .class c => do
      let i ← create (·.newInstance c)
      match c.method? initializerName with
      | none => return .instance i
      | some method =>
        -- The class gives its instance, whatever the initializer gives.
        let init ← create (·.bindMethod method i)
        let _ ← invoke n init arguments line
        return .instance i
    | _ => fail .notCallable line

/-- Runs the body of a function. -/
def invoke (bound : Nat) (f : Closure) (arguments : List Value) (line : Nat) : Eval Value :=
  match bound with
  | 0 => throw .exhausted
  | n + 1 => do
    let frame ← enterFunction f arguments
    let completion ← inCall line (inFrame frame (executeAll n f.declaration.body))
    result f line completion

/-- Executes a statement. -/
def execute (bound : Nat) (s : Stmt) : Eval Completion :=
  match bound with
  | 0 => throw .exhausted
  | n + 1 =>
    match s with
    | .expression e => do
      let _ ← evaluate n e
      return .normal
    | .print e => do
      let value ← evaluate n e
      print value e.line
      return .normal
    | .var name none => do
      define name.lexeme .nil
      return .normal
    | .var name (some e) => do
      let value ← evaluate n e
      define name.lexeme value
      return .normal
    | .block body => do
      let frame ← openBlock
      inFrame frame (executeAll n body)
    | .if condition thenBranch elseBranch => do
      let condition ← evaluate n condition
      if condition.isTruthy then
        execute n thenBranch
      else
        match elseBranch with
        | some s => execute n s
        | none => return .normal
    | .while condition body => executeWhile n condition body
    | .function declaration => do
      declareFunction declaration
      return .normal
    | .return _ none => return .returned .nil
    | .return _ (some e) => do
      let value ← evaluate n e
      return .returned value
    | .class name parent methods => do
      declareClass name parent methods
      return .normal

/-- Executes a loop. -/
def executeWhile (bound : Nat) (condition : Expr) (body : Stmt) : Eval Completion :=
  match bound with
  | 0 => throw .exhausted
  | n + 1 => do
    let value ← evaluate n condition
    if value.isTruthy then
      match ← execute n body with
      | .normal => executeWhile n condition body
      | .returned value => return .returned value
    else
      return .normal

/-- Executes statements in order, until one of them returns. -/
def executeAll (bound : Nat) (ss : List Stmt) : Eval Completion :=
  match bound with
  | 0 => throw .exhausted
  | n + 1 =>
    match ss with
    | [] => return .normal
    | s :: ss => do
      match ← execute n s with
      | .normal => executeAll n ss
      | .returned value => return .returned value

end

/-- Executes statements in a frame. -/
def executeBlock (bound : Nat) (body : List Stmt) (frame : Address) : Eval Completion :=
  inFrame frame (executeAll bound body)

/-- Executes the statements of a program. A return at top level ends its statement only. -/
def executeProgram (bound : Nat) : List Stmt → Eval Unit
  | [] => pure ()
  | s :: ss => do
    let _ ← execute bound s
    executeProgram bound ss

/-- Runs a program and flushes its output. An error of the program is kept whatever the flush does;
otherwise a refused flush is an error of its own, at no line. -/
def interpret (bound : Nat) (program : List Stmt) : Eval Unit := fun m =>
  match executeProgram bound program m with
  | .ok () m =>
    match m.sink.flush with
    | (none, sink) => .ok () { m with sink := sink }
    | (some reason, sink) => .error (.error ⟨.output reason, 0⟩) { m with sink := sink }
  | .error (.error e) m => .error (.error e) { m with sink := m.sink.flush.2 }
  | .error .exhausted m => .error .exhausted m

end Lox
