import Lox.Proofs.History
import Lox.Proofs.Told
import Lox.Proofs.Scoping.Uses

/-!
# Traced runs

A traced run notes what it does: the expressions and statements that it enters and leaves, the names
that it uses, the frames that it opens, what it creates, the calls that it carries out and the bodies
that it runs. Each note has the machine as it is then. The traced evaluator is the evaluator written
once more with these notes, and without them it gives what the evaluator gives (`Traced.same`). So
what is shown of the notes is shown of the run.

Every account of a run is a selection from its notes: its events, its moments, its acts, its deeds
and its happenings. A run that uses up its bound has notes too, those of the part within the bound.
What is shown of all notes is therefore shown of programs that never end, too.
-/

set_option autoImplicit false

namespace Lox

/-- A call expression. -/
structure CallSite where
  callee : Expr
  arguments : List Expr
  line : Nat

/-- The expression that a call is. -/
def CallSite.expr (site : CallSite) : Expr := .call site.callee site.arguments site.line

/-- What a run creates. -/
inductive Creation where
  /-- The frame of a block. -/
  | block (frame : Address)
  /-- The frame of a call. -/
  | call (f : Closure) (frame : Address)
  /-- The frame around the methods of a class, which binds `super`. -/
  | superclass (parent : Class) (frame : Address)
  /-- A method that is bound to an instance, and the frame around it, which binds `this`. -/
  | binding (method : Method) (i : Instance) (f : Closure)
  /-- An instance. -/
  | construction (i : Instance)
  /-- A function that is declared. -/
  | function (f : Closure)
  /-- A class. -/
  | «class» (c : Class)

/-- The value with which a statement ends, if it returns. -/
def Completion.value? : Completion → Option Value
  | normal => none
  | returned value => some value

/-- What is noted of a run, with the machine as it is then. -/
inductive Note where
  /-- An expression is about to be evaluated. -/
  | evaluates (e : Expr) (machine : Machine)
  /-- A statement is about to be executed. -/
  | executes (s : Stmt) (machine : Machine)
  /-- An expression or a statement is left, with the value that it gives, if there is one. -/
  | leaves (given : Option Value) (machine : Machine)
  /-- A use of a name is about to be looked up. -/
  | uses (access : Access) (machine : Machine)
  /-- A property of an instance is about to be read. -/
  | reads (i : Instance) (name : Name) (machine : Machine)
  /-- A property of an instance is about to be set. -/
  | sets (i : Instance) (name : Name) (value : Value) (machine : Machine)
  /-- Something is created; the machine is the one just before. -/
  | creates (creation : Creation) (machine : Machine)
  /-- A frame was opened inside another one, other than for a method that is bound. -/
  | opens (site : Site) (frame around : Address) (machine : Machine)
  /-- A class is called. -/
  | constructs (bound : Nat) (c : Class) (arguments : List Value) (line : Nat) (machine : Machine)
  /-- A function, a bound method or an initializer is called. -/
  | invokes (bound : Nat) (f : Closure) (arguments : List Value) (line : Nat) (machine : Machine)
  /-- The call of an expression is carried out on a value. -/
  | calls (site : CallSite) (callee : Value) (machine : Machine)
  /-- The body of a function begins. -/
  | begins (declaration : FunctionDecl) (machine : Machine)
  /-- The body of a function ends, with a value or without. -/
  | ends (machine : Machine)

/-- Computes on a machine and notes what is done. -/
abbrev Traced := Told Note

namespace Traced

open Told (lift note telling enclosed inFrame deeper guarded)

/-! ## Traced operations -/

/-- Binds a method to an instance. -/
def bindMethod (method : Method) (i : Instance) : Traced Closure :=
  telling (Eval.create (·.bindMethod method i)) fun f => .creates (.binding method i f)

/-- A method of an instance, bound to it. -/
def bound (method? : Option Method) (i : Instance) (property : String) (line : Nat) :
    Traced Value :=
  match method? with
  | some method => do return .closure (← bindMethod method i)
  | none => lift (Eval.fail (.undefinedProperty property) line)

/-- A field of an instance, or else a method bound to it. -/
def member (i : Instance) (name : Name) : Traced Value := fun m =>
  match m.heap.field? i name.lexeme with
  | some value => lift (pure value) m
  | none => bound (i.of.method? name.lexeme) i name.lexeme name.line m

/-- The property of a value. -/
def property (object : Value) (name : Name) : Traced Value :=
  match object with
  | .instance i => do
    note (.reads i name)
    member i name
  | _ => lift (Eval.fail .readsPropertyOfNonInstance name.line)

/-- A method of the superclass, bound to the current receiver. -/
def superMethod (id : NodeId) (line : Nat) (method : String) : Traced Value := fun m =>
  match m.distances[id]? with
  | none => lift (Eval.fail .superOutsideClass line) m
  | some distance =>
    match m.heap.getAt? m.current distance "super" with
    | none => lift (Eval.fail (.undefinedVariable "super") line) m
    | some (.class parent) =>
      match m.heap.getAt? m.current (distance - 1) "this" with
      | none => lift (Eval.fail (.undefinedVariable "this") line) m
      | some (.instance i) => bound (parent.method? method) i method line m
      | some _ => lift (Eval.fail .readsPropertyOfNonInstance line) m
    | some _ => lift (Eval.fail .superclassNotClass line) m

/-- The frame of a call. -/
def enterFunction (f : Closure) (arguments : List Value) : Traced Address := do
  let frame ← telling (Eval.enterFunction f arguments) fun frame => .creates (.call f frame)
  note (.opens (.function f.declaration) frame f.frame)
  return frame

/-- The value of a superclass. -/
def superclass? (parent : Option Superclass) : Traced (Option Class) :=
  match parent with
  | none => return none
  | some parent => do
    note (.uses parent.access)
    lift (Eval.superclass? (some parent))

/-- The frame around the methods of a class. -/
def methodFrame (name : Name) (parent : Option Superclass) (methods : List FunctionDecl)
    (above : Option Class) : Traced Address :=
  match above with
  | none => lift (Eval.methodFrame none)
  | some c => do
    let frame ← telling (Eval.methodFrame (some c)) fun frame => .creates (.superclass c frame)
    match parent with
    | none => return frame
    | some parent =>
      note fun m => .opens (.superclass name parent methods) frame m.current m
      return frame

/-- Defines a class. -/
def declareClass (name : Name) (parent : Option Superclass) (methods : List FunctionDecl) :
    Traced Unit := do
  let above ← superclass? parent
  let frame ← methodFrame name parent methods above
  let c ← telling (Eval.create (·.newClass name.lexeme above frame methods)) fun c =>
    Note.creates (.class c)
  lift (Eval.define name.lexeme (.class c))

/-- Defines a function around which the current frame lies. -/
def declareFunction (declaration : FunctionDecl) : Traced Unit := fun m =>
  (do
    let f ← telling (Eval.create (·.newClosure declaration m.current false)) fun f =>
      Note.creates (.function f)
    lift (Eval.define declaration.name.lexeme (.closure f))) m

/-- Opens a frame inside the current one. -/
def openBlock (body : List Stmt) : Traced Address := do
  let frame ← telling Eval.openBlock fun frame => .creates (.block frame)
  note fun m => .opens (.block body) frame m.current m
  return frame

/-- Makes an instance. -/
def newInstance (c : Class) : Traced Instance :=
  telling (Eval.create (·.newInstance c)) fun i => .creates (.construction i)

/-- Runs the body of a function one level deeper, if the limit allows it. -/
def inCall {α : Type} (declaration : FunctionDecl) (line : Nat) (body : Traced α) : Traced α :=
  -- The body begins and ends between the check of the limit and the return to the level around it.
  guarded line <| enclosed (fun m => .begins declaration { m with depth := m.depth + 1 })
    (fun _ => .ends) (deeper body)

/-- Carries out a call by running the body of a function. -/
def carryOut {α : Type} (site : CallSite) (callee : Value) (declaration : FunctionDecl)
    (body : Traced α) : Traced α := do
  note (.calls site callee)
  inCall declaration site.line body

/-! ## The traced evaluator -/

mutual

/-- Evaluates an expression. -/
def evaluate (bound : Nat) (e : Expr) : Traced Value :=
  match bound with
  | 0 => lift (throw .exhausted)
  | n + 1 =>
    enclosed (.evaluates e) .leaves <|
      match e with
      | .literal value => return .ofLiteral value
      | .grouping inner => evaluate n inner
      | .unary op right line => do
        let right ← evaluate n right
        lift (Eval.orFail line (op.apply right))
      | .binary left op right line => do
        let left ← evaluate n left
        let right ← evaluate n right
        lift (Eval.orFail line (op.apply left right))
      | .logical left op right => do
        let left ← evaluate n left
        if op.stopsAt left then return left else evaluate n right
      | .variable id name => do
        note (.uses (.read id name))
        lift (Eval.lookUp id name.lexeme name.line)
      | .assign id name value => do
        let value ← evaluate n value
        note (.uses (.assign id name))
        lift (Eval.assign id name value)
        return value
      | .call callee arguments line => do
        let value ← evaluate n callee
        let values ← evaluateAll n arguments
        lift (Eval.checkCall value values.length line)
        call n ⟨callee, arguments, line⟩ value values
      | .get object name => do
        let object ← evaluate n object
        property object name
      | .set object name value => do
        match ← evaluate n object with
        | .instance i =>
          let value ← evaluate n value
          note (.sets i name value)
          lift (Eval.setField i name.lexeme value)
          return value
        | _ => lift (Eval.fail .setsFieldOfNonInstance name.line)
      | .this id line => do
        note (.uses (.this id line))
        lift (Eval.lookUp id "this" line)
      | .super id line method => do
        note (.uses (.super id line))
        superMethod id line method.lexeme

/-- Evaluates expressions from left to right. -/
def evaluateAll (bound : Nat) (es : List Expr) : Traced (List Value) :=
  match bound with
  | 0 => lift (throw .exhausted)
  | n + 1 =>
    match es with
    | [] => return []
    | e :: es => do
      let value ← evaluate n e
      let values ← evaluateAll n es
      return value :: values

/-- Carries out the call of an expression on a value, with arguments of the right number. -/
def call (bound : Nat) (site : CallSite) (callee : Value) (arguments : List Value) : Traced Value :=
  match bound with
  | 0 => lift (throw .exhausted)
  | n + 1 =>
    match callee with
    | .native f => do
      note (.calls site callee)
      lift (Eval.callNative f arguments site.line)
    | .closure f => invoke n site callee f arguments
    | .class c => do
      note (.constructs n c arguments site.line)
      let i ← newInstance c
      match c.method? initializerName with
      | none =>
        note (.calls site callee)
        return .instance i
      | some method =>
        let init ← bindMethod method i
        let _ ← invoke n site callee init arguments
        return .instance i
    | _ => lift (Eval.fail .notCallable site.line)

/-- Runs the body of a function to carry out a call. -/
def invoke (bound : Nat) (site : CallSite) (callee : Value) (f : Closure)
    (arguments : List Value) : Traced Value := do
  note (.invokes bound f arguments site.line)
  match bound with
  | 0 => lift (throw .exhausted)
  | n + 1 =>
    let frame ← enterFunction f arguments
    let completion ← carryOut site callee f.declaration
      (inFrame frame (executeAll n f.declaration.body))
    lift (Eval.result f site.line completion)

/-- Executes a statement. -/
def execute (bound : Nat) (s : Stmt) : Traced Completion :=
  match bound with
  | 0 => lift (throw .exhausted)
  | n + 1 =>
    enclosed (.executes s) (fun completion => .leaves (completion.bind Completion.value?)) <|
      match s with
      | .expression e => do
        let _ ← evaluate n e
        return .normal
      | .print e => do
        let value ← evaluate n e
        lift (Eval.print value e.line)
        return .normal
      | .var name none => do
        lift (Eval.define name.lexeme .nil)
        return .normal
      | .var name (some e) => do
        let value ← evaluate n e
        lift (Eval.define name.lexeme value)
        return .normal
      | .block body => do
        let frame ← openBlock body
        inFrame frame (executeAll n body)
      | .if condition thenBranch elseBranch => do
        let condition ← evaluate n condition
        if condition.isTruthy then
          execute n thenBranch
        else
          match elseBranch with
          | some s => execute n s
          | none => return .normal
      | .while condition body => executeWhile n condition body
      | .function declaration => do
        declareFunction declaration
        return .normal
      | .return _ none => return .returned .nil
      | .return _ (some e) => do
        let value ← evaluate n e
        return .returned value
      | .class name parent methods => do
        declareClass name parent methods
        return .normal

/-- Executes a loop. -/
def executeWhile (bound : Nat) (condition : Expr) (body : Stmt) : Traced Completion :=
  match bound with
  | 0 => lift (throw .exhausted)
  | n + 1 => do
    let value ← evaluate n condition
    if value.isTruthy then
      match ← execute n body with
      | .normal => executeWhile n condition body
      | .returned value => return .returned value
    else
      return .normal

/-- Executes statements in order, until one of them returns. -/
def executeAll (bound : Nat) (ss : List Stmt) : Traced Completion :=
  match bound with
  | 0 => lift (throw .exhausted)
  | n + 1 =>
    match ss with
    | [] => return .normal
    | s :: ss => do
      match ← execute n s with
      | .normal => executeAll n ss
      | .returned value => return .returned value

end

/-- Executes the statements of a program. -/
def executeProgram (bound : Nat) : List Stmt → Traced Unit
  | [] => pure ()
  | s :: ss => do
    let _ ← execute bound s
    executeProgram bound ss

/-! ## What the traced operations can do -/

theorem member_cases (i : Instance) (name : Name) (m : Machine) :
    (∃ value, m.heap.field? i name.lexeme = some value ∧
      member i name m = lift (pure value) m) ∨
    (m.heap.field? i name.lexeme = none ∧
      member i name m = bound (i.of.method? name.lexeme) i name.lexeme name.line m) := by
  unfold member
  cases field : m.heap.field? i name.lexeme with
  | some value => exact .inl ⟨value, rfl, rfl⟩
  | none => exact .inr ⟨rfl, rfl⟩

/-- A method of the superclass is bound, or an error says what is missing. -/
theorem superMethod_cases (id : NodeId) (line : Nat) (method : String) (m : Machine) :
    (∃ distance parent i, m.distances[id]? = some distance ∧
      m.heap.getAt? m.current distance "super" = some (.class parent) ∧
      m.heap.getAt? m.current (distance - 1) "this" = some (.instance i) ∧
      superMethod id line method m = bound (parent.method? method) i method line m) ∨
    ∃ cause, superMethod id line method m = lift (Eval.fail cause line) m := by
  unfold superMethod
  cases known : m.distances[id]? with
  | none => exact .inr ⟨_, rfl⟩
  | some distance =>
    dsimp only
    cases above : m.heap.getAt? m.current distance "super" with
    | none => exact .inr ⟨_, rfl⟩
    | some parent =>
      cases parent with
      | «class» parent =>
        dsimp only
        cases receiver : m.heap.getAt? m.current (distance - 1) "this" with
        | none => exact .inr ⟨_, rfl⟩
        | some object =>
          cases object with
          | «instance» i => exact .inl ⟨distance, parent, i, rfl, above, receiver, rfl⟩
          | nil | bool | number | string | native | closure | «class» => exact .inr ⟨_, rfl⟩
      | nil | bool | number | string | native | closure | «instance» => exact .inr ⟨_, rfl⟩

/-- Within a call the body runs one level deeper, between its beginning and its end. -/
theorem inCall_room {α : Type} (declaration : FunctionDecl) (line : Nat) (body : Traced α)
    {m : Machine} (room : ¬m.maxDepth ≤ m.depth) :
    inCall declaration line body m
      = enclosed (fun m => .begins declaration { m with depth := m.depth + 1 }) (fun _ => .ends)
          (deeper body) m :=
  if_neg room

/-- At the limit nothing of it runs, and nothing is noted. -/
theorem inCall_full {α : Type} (declaration : FunctionDecl) (line : Nat) (body : Traced α)
    {m : Machine} (full : m.maxDepth ≤ m.depth) :
    inCall declaration line body m = lift (Eval.fail .stackOverflow line) m :=
  if_pos full

/-! ## What is not heard

One who does not ask about what an operation notes hears nothing of it. -/

section

variable {δ : Type} {hear : Note → Option δ}

theorem silent_bound (created : ∀ method i f m, hear (.creates (.binding method i f) m) = none)
    (method? : Option Method) (i : Instance) (property : String) (line : Nat) :
    Told.Silent hear (bound method? i property line) := by
  cases method? with
  | none => exact Told.silent_lift _
  | some method =>
    exact (Told.silent_telling fun f => created method i f).bind fun _ => Told.silent_pure _

theorem silent_property (read : ∀ i name m, hear (.reads i name m) = none)
    (created : ∀ method i f m, hear (.creates (.binding method i f) m) = none) (object : Value)
    (name : Name) : Told.Silent hear (property object name) := by
  cases object with
  | «instance» i =>
    refine (Told.silent_note (read i name)).bind fun _ m => ?_
    rcases member_cases i name m with ⟨value, -, same⟩ | ⟨-, same⟩
    · unfold Told.heard Told.told
      rw [same]
      rfl
    · unfold Told.heard Told.told
      rw [same]
      exact silent_bound created _ _ _ _ m
  | nil | bool | number | string | native | closure | «class» => exact Told.silent_lift _

theorem silent_superMethod (created : ∀ method i f m, hear (.creates (.binding method i f) m) = none)
    (id : NodeId) (line : Nat) (method : String) :
    Told.Silent hear (superMethod id line method) := by
  intro m
  unfold Told.heard Told.told
  rcases superMethod_cases id line method m with ⟨_, parent, i, -, -, -, same⟩ | ⟨cause, same⟩
  · rw [same]
    exact silent_bound created _ _ _ _ m
  · rw [same]
    rfl

theorem silent_openBlock (created : ∀ frame m, hear (.creates (.block frame) m) = none)
    (opened : ∀ site frame around m, hear (.opens site frame around m) = none) (body : List Stmt) :
    Told.Silent hear (openBlock body) :=
  (Told.silent_telling created).bind fun frame =>
    (Told.silent_note fun m => opened _ frame m.current m).bind fun _ => Told.silent_pure frame

theorem silent_enterFunction (created : ∀ f frame m, hear (.creates (.call f frame) m) = none)
    (opened : ∀ site frame around m, hear (.opens site frame around m) = none) (f : Closure)
    (arguments : List Value) : Told.Silent hear (enterFunction f arguments) :=
  (Told.silent_telling (created f)).bind fun frame =>
    (Told.silent_note (opened _ frame f.frame)).bind fun _ => Told.silent_pure frame

theorem silent_declareFunction (created : ∀ f m, hear (.creates (.function f) m) = none)
    (declaration : FunctionDecl) : Told.Silent hear (declareFunction declaration) :=
  fun m => (Told.silent_telling created).bind (fun _ => Told.silent_lift _) m

theorem silent_declareClass (used : ∀ access m, hear (.uses access m) = none)
    (above : ∀ c frame m, hear (.creates (.superclass c frame) m) = none)
    (opened : ∀ site frame around m, hear (.opens site frame around m) = none)
    (created : ∀ c m, hear (.creates (.class c) m) = none) (name : Name)
    (parent : Option Superclass) (methods : List FunctionDecl) :
    Told.Silent hear (declareClass name parent methods) := by
  have first : Told.Silent hear (superclass? parent) := by
    cases parent with
    | none => exact Told.silent_pure none
    | some parent => exact (Told.silent_note (used _)).bind fun _ => Told.silent_lift _
  refine first.bind fun above? => ?_
  have second : Told.Silent hear (methodFrame name parent methods above?) := by
    cases above? with
    | none => exact Told.silent_lift _
    | some c =>
      refine (Told.silent_telling (above c)).bind fun frame => ?_
      cases parent with
      | none => exact Told.silent_pure frame
      | some parent =>
        exact (Told.silent_note fun m => opened _ frame m.current m).bind fun _ =>
          Told.silent_pure frame
  exact second.bind fun _ => (Told.silent_telling created).bind fun _ => Told.silent_lift _

end

/-! ## Notes change nothing -/

@[simp]
theorem plain_bindMethod (method : Method) (i : Instance) :
    Told.plain (bindMethod method i) = Eval.create (·.bindMethod method i) :=
  Told.plain_telling _ _

theorem plain_bound (method? : Option Method) (i : Instance) (property : String) (line : Nat) :
    Told.plain (bound method? i property line) = Eval.bound method? i property line := by
  cases method? with
  | none => rfl
  | some method => simp [bound, Eval.bound]

theorem plain_member (i : Instance) (name : Name) :
    Told.plain (member i name) = Eval.property (.instance i) name := by
  funext m
  simp only [Told.plain, member, Eval.property]
  cases m.heap.field? i name.lexeme with
  | none => exact congrFun (plain_bound _ i _ _) m
  | some value => rfl

theorem plain_property (object : Value) (name : Name) :
    Told.plain (property object name) = Eval.property object name := by
  cases object with
  | «instance» i => simp [property, plain_member]
  | nil | bool | number | string | native | closure | «class» => rfl

theorem plain_superMethod (id : NodeId) (line : Nat) (method : String) :
    Told.plain (superMethod id line method) = Eval.superMethod id line method := by
  funext m
  simp only [Told.plain, superMethod, Eval.superMethod]
  cases m.distances[id]? with
  | none => rfl
  | some distance =>
    dsimp only
    cases m.heap.getAt? m.current distance "super" with
    | none => rfl
    | some above =>
      cases above with
      | «class» parent =>
        dsimp only
        cases m.heap.getAt? m.current (distance - 1) "this" with
        | none => rfl
        | some receiver =>
          cases receiver with
          | «instance» i => exact congrFun (plain_bound _ i _ _) m
          | nil | bool | number | string | native | closure | «class» => rfl
      | nil | bool | number | string | native | closure | «instance» => rfl

@[simp]
theorem plain_enterFunction (f : Closure) (arguments : List Value) :
    Told.plain (enterFunction f arguments) = Eval.enterFunction f arguments := by
  simp [enterFunction]

theorem plain_superclass? (parent : Option Superclass) :
    Told.plain (superclass? parent) = Eval.superclass? parent := by
  cases parent with
  | none => rfl
  | some parent => simp [superclass?]

theorem plain_methodFrame (name : Name) (parent : Option Superclass)
    (methods : List FunctionDecl) (above : Option Class) :
    Told.plain (methodFrame name parent methods above) = Eval.methodFrame above := by
  cases above with
  | none => rfl
  | some c => cases parent <;> simp [methodFrame]

theorem plain_declareClass (name : Name) (parent : Option Superclass)
    (methods : List FunctionDecl) :
    Told.plain (declareClass name parent methods) = Eval.declareClass name parent methods := by
  simp [declareClass, Eval.declareClass, plain_superclass?, plain_methodFrame]

theorem plain_declareFunction (declaration : FunctionDecl) :
    Told.plain (declareFunction declaration) = Eval.declareFunction declaration := by
  funext m
  have here := Told.plain_bind
    (Told.telling (Eval.create (·.newClosure declaration m.current false))
      fun f => Note.creates (.function f))
    fun f => Told.lift (Eval.define declaration.name.lexeme (.closure f))
  rw [Told.plain_telling] at here
  exact congrFun here m

@[simp]
theorem plain_openBlock (body : List Stmt) : Told.plain (openBlock body) = Eval.openBlock := by
  simp [openBlock]

@[simp]
theorem plain_newInstance (c : Class) :
    Told.plain (newInstance c) = Eval.create (·.newInstance c) :=
  Told.plain_telling _ _

@[simp]
theorem plain_inCall {α : Type} (declaration : FunctionDecl) (line : Nat) (body : Traced α) :
    Told.plain (inCall declaration line body) = Eval.inCall line (Told.plain body) := by
  funext m
  rw [← Told.plain_guarded_deeper]
  unfold inCall
  rw [Told.plain_guarded, Told.plain_guarded, Told.plain_enclosed]

@[simp]
theorem plain_carryOut {α : Type} (site : CallSite) (callee : Value) (declaration : FunctionDecl)
    (body : Traced α) :
    Told.plain (carryOut site callee declaration body)
      = Eval.inCall site.line (Told.plain body) := by
  simp [carryOut]

/-- A call fails at the limit, and below it runs the body one level deeper. One who does not ask
about calls hears nothing then, and otherwise what the body notes itself. -/
theorem carryOut_cases {δ : Type} (hear : Note → Option δ)
    (called : ∀ site callee m, hear (.calls site callee m) = none)
    (begun : ∀ declaration m, hear (.begins declaration m) = none)
    (ended : ∀ m, hear (.ends m) = none) {α : Type} (site : CallSite) (callee : Value)
    (declaration : FunctionDecl) (body : Traced α) (m : Machine) :
    (Told.heard hear (carryOut site callee declaration body) m = [] ∧
      Told.plain (carryOut site callee declaration body) m
        = Eval.fail .stackOverflow site.line m) ∨
    (Told.heard hear (carryOut site callee declaration body) m
        = Told.heard hear body { m with depth := m.depth + 1 } ∧
      Told.plain (carryOut site callee declaration body) m
        = Eval.onMachine (fun m' => { m' with depth := m.depth })
            (Told.plain body { m with depth := m.depth + 1 })) := by
  rw [plain_carryOut]
  unfold carryOut
  rw [Told.heard_note_bind (called site callee)]
  unfold Told.heard Told.told
  by_cases full : m.maxDepth ≤ m.depth
  · rw [inCall_full declaration site.line body full]
    exact .inl ⟨rfl, Eval.inCall_full site.line _ full⟩
  · have begun' (m : Machine) : hear (.begins declaration { m with depth := m.depth + 1 }) = none :=
      begun declaration _
    rw [inCall_room declaration site.line body full]
    exact .inr ⟨Told.heard_enclosed_silent begun' (fun _ => ended) (deeper body) m,
      Eval.inCall_room site.line _ full⟩

/-- The traced evaluator is the evaluator, within a bound. -/
structure Same (bound : Nat) : Prop where
  evaluate (e : Expr) : Told.plain (evaluate bound e) = Lox.evaluate bound e
  evaluateAll (es : List Expr) : Told.plain (evaluateAll bound es) = Lox.evaluateAll bound es
  call (site : CallSite) (callee : Value) (arguments : List Value) :
    Told.plain (call bound site callee arguments) = Lox.call bound callee arguments site.line
  invoke (site : CallSite) (callee : Value) (f : Closure) (arguments : List Value) :
    Told.plain (invoke bound site callee f arguments) = Lox.invoke bound f arguments site.line
  execute (s : Stmt) : Told.plain (execute bound s) = Lox.execute bound s
  executeWhile (condition : Expr) (body : Stmt) :
    Told.plain (executeWhile bound condition body) = Lox.executeWhile bound condition body
  executeAll (ss : List Stmt) : Told.plain (executeAll bound ss) = Lox.executeAll bound ss

namespace Same

variable {n : Nat}

theorem zero : Same 0 := by
  constructor <;> intros <;> rfl

theorem evaluate_succ (inner : Same n) (e : Expr) :
    Told.plain (Traced.evaluate (n + 1) e) = Lox.evaluate (n + 1) e := by
  unfold Traced.evaluate Lox.evaluate
  rw [Told.plain_enclosed]
  cases e with
  | literal value => rfl
  | grouping e => exact inner.evaluate e
  | unary op right line => simp [inner.evaluate]
  | binary left op right line => simp [inner.evaluate]
  | logical left op right =>
    simp only [Told.plain_bind, inner.evaluate]
    congr 1
    funext value
    cases op.stopsAt value with
    | true => rfl
    | false => exact inner.evaluate right
  | «variable» id name => simp
  | assign id name value => simp [inner.evaluate]
  | call callee arguments line => simp [inner.evaluate, inner.evaluateAll, inner.call]
  | get object name => simp [inner.evaluate, plain_property]
  | set object name value =>
    simp only [Told.plain_bind, inner.evaluate]
    congr 1
    funext receiver
    cases receiver with
    | «instance» i => simp [inner.evaluate]
    | nil | bool | number | string | native | closure | «class» => rfl
  | this id line => simp
  | super id line method => simp [plain_superMethod]

theorem evaluateAll_succ (inner : Same n) (es : List Expr) :
    Told.plain (Traced.evaluateAll (n + 1) es) = Lox.evaluateAll (n + 1) es := by
  cases es with
  | nil => rfl
  | cons e es => simp [Traced.evaluateAll, Lox.evaluateAll, inner.evaluate, inner.evaluateAll]

theorem call_succ (inner : Same n) (site : CallSite) (callee : Value) (arguments : List Value) :
    Told.plain (Traced.call (n + 1) site callee arguments)
      = Lox.call (n + 1) callee arguments site.line := by
  unfold Traced.call Lox.call
  cases callee with
  | native f => simp
  | closure f => exact inner.invoke site _ f arguments
  | «class» c =>
    simp only [Told.plain_bind, Told.plain_note, pure_bind, plain_newInstance]
    congr 1
    funext i
    cases c.method? initializerName with
    | none => simp
    | some method => simp [inner.invoke]
  | nil | bool | number | string | «instance» => rfl

theorem invoke_succ (inner : Same n) (site : CallSite) (callee : Value) (f : Closure)
    (arguments : List Value) :
    Told.plain (Traced.invoke (n + 1) site callee f arguments)
      = Lox.invoke (n + 1) f arguments site.line := by
  simp [Traced.invoke, Lox.invoke, inner.executeAll]

theorem execute_succ (inner : Same n) (s : Stmt) :
    Told.plain (Traced.execute (n + 1) s) = Lox.execute (n + 1) s := by
  unfold Traced.execute Lox.execute
  rw [Told.plain_enclosed]
  cases s with
  | expression e => simp [inner.evaluate]
  | print e => simp [inner.evaluate]
  | var name initializer => cases initializer <;> simp [inner.evaluate]
  | block body => simp [inner.executeAll]
  | «if» condition thenBranch elseBranch =>
    simp only [Told.plain_bind, inner.evaluate]
    congr 1
    funext value
    cases value.isTruthy with
    | true => exact inner.execute thenBranch
    | false =>
      cases elseBranch with
      | none => rfl
      | some s => exact inner.execute s
  | «while» condition body => exact inner.executeWhile condition body
  | function declaration => simp [plain_declareFunction]
  | «return» line value => cases value <;> simp [inner.evaluate]
  | «class» name parent methods => simp [plain_declareClass]

theorem executeWhile_succ (inner : Same n) (condition : Expr) (body : Stmt) :
    Told.plain (Traced.executeWhile (n + 1) condition body)
      = Lox.executeWhile (n + 1) condition body := by
  simp only [Traced.executeWhile, Lox.executeWhile, Told.plain_bind, inner.evaluate]
  congr 1
  funext value
  cases value.isTruthy with
  | false => rfl
  | true =>
    simp only [if_true, Told.plain_bind, inner.execute]
    congr 1
    funext completion
    cases completion with
    | normal => exact inner.executeWhile condition body
    | returned value => rfl

theorem executeAll_succ (inner : Same n) (ss : List Stmt) :
    Told.plain (Traced.executeAll (n + 1) ss) = Lox.executeAll (n + 1) ss := by
  cases ss with
  | nil => rfl
  | cons s ss =>
    simp only [Traced.executeAll, Lox.executeAll, Told.plain_bind, inner.execute]
    congr 1
    funext completion
    cases completion with
    | normal => exact inner.executeAll ss
    | returned value => rfl

end Same

/-- **Notes change nothing**, within any bound. -/
theorem same (bound : Nat) : Same bound := by
  induction bound with
  | zero => exact .zero
  | succ n ih =>
    exact ⟨ih.evaluate_succ, ih.evaluateAll_succ, ih.call_succ, ih.invoke_succ, ih.execute_succ,
      ih.executeWhile_succ, ih.executeAll_succ⟩

theorem plain_executeProgram (bound : Nat) (program : List Stmt) :
    Told.plain (executeProgram bound program) = Lox.executeProgram bound program := by
  induction program with
  | nil => rfl
  | cons s ss ih => simp [executeProgram, Lox.executeProgram, (same bound).execute, ih]

end Traced

namespace Session

/-- The machine on which a program runs. -/
def prepared (session : Session) (program : Program) : Machine :=
  session.machine.learn program.distances

/-- What is noted when a session is given an input. A source that is refused runs nothing. -/
def notes (session : Session) (input : Input) : List Note :=
  match (checkSource input.source session.nextId).outcome with
  | .error _ => []
  | .ok program =>
    (Traced.executeProgram input.bound program.statements).told (session.prepared program)

theorem notes_of_error {session : Session} {input : Input} {faults : List Fault}
    (refused : (checkSource input.source session.nextId).outcome = .error faults) :
    session.notes input = [] := by
  unfold notes
  rw [refused]

theorem notes_of_ok {session : Session} {input : Input} {program : Program}
    (accepted : (checkSource input.source session.nextId).outcome = .ok program) :
    session.notes input
      = (Traced.executeProgram input.bound program.statements).told (session.prepared program) := by
  unfold notes
  rw [accepted]

end Session

/-! ## Uses and frames -/

/-- What is noted of the names and frames of a run. -/
inductive Event where
  /-- A use of a name is about to be looked up in a machine. -/
  | used (access : Access) (machine : Machine)
  /-- A frame was opened inside another one. -/
  | opened (site : Site) (frame around : Address)

/-- A use of a name, or a frame that was opened, also one for a method that is bound. -/
def Note.event? : Note → Option Event
  | uses access m => some (.used access m)
  | opens site frame around _ => some (.opened site frame around)
  | creates (.binding method i _) m =>
    some (.opened (.receiver method.declaration) (m.heap.bindMethod method i).1.frame method.frame)
  | _ => none

/-- A machine, and what was noted of names and frames so far, the latest first. -/
structure Observed where
  machine : Machine
  events : List Event

namespace Traced

open Told (lift note telling enclosed)

variable {α β : Type}

/-- Runs a computation on an observed machine. -/
def observed (x : Traced α) (s : Observed) : EStateM.Result Stop Observed α :=
  match x s.machine with
  | (notes, .ok a m) => .ok a ⟨m, (notes.filterMap Note.event?).reverse ++ s.events⟩
  | (notes, .error stop m) => .error stop ⟨m, (notes.filterMap Note.event?).reverse ++ s.events⟩

theorem observed_bind (x : Traced α) (f : α → Traced β) (s : Observed) :
    observed (x >>= f) s =
      match observed x s with
      | .ok a s' => observed (f a) s'
      | .error stop s' => .error stop s' := by
  unfold observed
  cases ends : x s.machine with
  | mk notes ending =>
    cases ending with
    | error stop m => rw [Told.bind_error ends]
    | ok a m =>
      rw [Told.bind_ok ends]
      dsimp only
      rcases f a m with ⟨more, _ | _⟩ <;>
        simp only [List.filterMap_append, List.reverse_append, List.append_assoc]

/-- What is noted around a computation is of no interest here, if it is no use and no frame. -/
theorem observed_enclosed {before : Machine → Note} {after : Option α → Machine → Note}
    (silent : ∀ m, (before m).event? = none) (silent' : ∀ a m, (after a m).event? = none)
    (x : Traced α) (s : Observed) : observed (enclosed before after x) s = observed x s := by
  unfold observed enclosed
  rcases x s.machine with ⟨notes, _ | _⟩ <;>
    simp [List.filterMap_append, silent, silent']

/-- Nor is such a note by itself. -/
theorem observed_note_bind {tell : Machine → Note} (silent : ∀ m, (tell m).event? = none)
    (x : Traced α) (s : Observed) : observed (note tell >>= fun _ => x) s = observed x s := by
  rw [observed_bind]
  simp [observed, note, silent]

theorem observed_congr {x y : Traced α} {s : Observed} (same : x s.machine = y s.machine) :
    observed x s = observed y s := by
  unfold observed
  rw [same]

theorem observed_inFrame (frame : Address) (x : Traced α) (s : Observed) :
    observed (Told.inFrame frame x) s =
      match observed x ⟨{ s.machine with current := frame }, s.events⟩ with
      | .ok a s' => .ok a ⟨{ s'.machine with current := s.machine.current }, s'.events⟩
      | .error stop s' =>
        .error stop ⟨{ s'.machine with current := s.machine.current }, s'.events⟩ := by
  unfold observed Told.inFrame
  dsimp only
  rcases x { s.machine with current := frame } with ⟨notes, _ | _⟩ <;> rfl

theorem observed_deeper (x : Traced α) (s : Observed) :
    observed (Told.deeper x) s =
      match observed x ⟨{ s.machine with depth := s.machine.depth + 1 }, s.events⟩ with
      | .ok a s' => .ok a ⟨{ s'.machine with depth := s.machine.depth }, s'.events⟩
      | .error stop s' => .error stop ⟨{ s'.machine with depth := s.machine.depth }, s'.events⟩ := by
  unfold observed Told.deeper
  dsimp only
  rcases x { s.machine with depth := s.machine.depth + 1 } with ⟨notes, _ | _⟩ <;> rfl

end Traced

end Lox
