import Lox.Proofs.Instances.Telling
import Lox.Proofs.Origin.Sessions

/-!
# What initializers give

From the binding of a method to its call, and until its body ends, the frame of the method holds the
receiver as `this`. An initializer gives what that frame holds, however its body ends. So its call
gives the instance that it was bound to, or stops as its body does; it never looks for a receiver in
vain (`invoke_initializer`).

A class that is called makes an instance in a new cell, and every instance was made in a cell of its
own. The call gives this instance, or stops as the initializer does.
-/

set_option autoImplicit false

namespace Lox

open Eval

variable {o : Origin}

/-! ## Initializers -/

namespace Eval

/-- Runs the body of a function that is called, whatever the call gives. -/
def runBody (bound : Nat) (f : Closure) (arguments : List Value) (line : Nat) : Eval Completion :=
  match bound with
  | 0 => throw .exhausted
  | n + 1 => do
    let frame ← enterFunction f arguments
    inCall line (inFrame frame (executeAll n f.declaration.body))

end Eval

theorem invoke_eq (bound : Nat) (f : Closure) (arguments : List Value) (line : Nat) :
    invoke bound f arguments line = runBody bound f arguments line >>= result f line := by
  cases bound with
  | zero => rfl
  | succ n =>
    unfold runBody
    rw [invoke, bind_assoc]

/-- Gives a value in place of what a computation gives. -/
def Eval.giving {α : Type} (value : Value) (x : Eval α) : Eval Value := do
  let _ ← x
  return value

/-- A method has the name under which a class finds it. -/
theorem Class.name_of_method? (c : Class) {name : String} {method : Method}
    (found : c.method? name = some method) : method.declaration.name.lexeme = name := by
  have own (methods : List FunctionDecl) {f : FunctionDecl}
      (here : lastNamed? methods name = some f) : f.name.lexeme = name := by
    unfold lastNamed? at here
    have named := List.find?_some here
    exact beq_iff_eq.mp named
  match c with
  | ⟨_, _, parent, frame, methods⟩ =>
    unfold method? at found
    split at found
    · next declaration here =>
      obtain rfl := Option.some.inj found
      exact own methods here
    · split at found
      · next above => exact name_of_method? above found
      · cases found

/-- The frame in which a method is bound holds its receiver. -/
theorem Heap.read?_bindMethod (h : Heap) (method : Method) (i : Instance) :
    (h.bindMethod method i).2.read? (h.bindMethod method i).1.frame "this"
      = some (.instance i) := by
  have opened := read?_single (frame?_allocateFrame h (some method.frame)
    (Bindings.empty.set "this" (.instance i)))
  exact Retains.allocate _ .identity _ _ _ (fun spared => spared.1 rfl) opened

/-- The body of a function leads where its statements lead in the frame of the call. -/
theorem traces_runBody (bound : Nat) {f : Closure} {arguments : List Value} {line : Nat}
    (good : f.declaration.From o) (given : ∀ value ∈ arguments, value.From o)
    (here : o.HasLine line) :
    Traces o none nothing (Completion.From o) (runBody bound f arguments line) := by
  cases bound with
  | zero => exact traces_exhausted
  | succ n =>
    have body (frame : Address) := ((tracing o n).executeAll f.declaration.body (fun _ => True)
      (Stmt.allFrom_iff.mp good.body) fun _ _ _ _ => trivial).inFrame frame
    exact traces_opened (opens_function f given) fun frame => (body frame).inCall here

/-- **An initializer gives its receiver**, however its body ends. -/
theorem invoke_initializer (bound : Nat) {f : Closure} {arguments : List Value} {line : Nat}
    {m : Machine} {value : Value} (code : m.heap.From o) (good : f.declaration.From o)
    (given : ∀ argument ∈ arguments, argument.From o) (here : o.HasLine line)
    (initializer : f.isInitializer = true)
    (receiver : m.heap.read? f.frame "this" = some value) :
    invoke bound f arguments line m
      = giving value (runBody bound f arguments line) m := by
  have led := (traces_runBody bound good given here).leads code
  rw [invoke_eq, giving, bind_eq, bind_eq]
  unfold leaves at led
  cases ran : runBody bound f arguments line m with
  | error stop m' => rfl
  | ok completion m' =>
    rw [ran] at led
    -- Nothing declares or assigns `this`, so the frame of the method still holds the receiver.
    have kept := led.declares.retains f.frame "this" value (fun spared => spared.1 rfl) receiver
    dsimp only
    unfold result
    rw [if_pos initializer, kept]
    rfl

/-- A method that is bound is an initializer if it has the name of one. -/
theorem Heap.isInitializer_bindMethod (h : Heap) {method : Method} (i : Instance)
    (named : method.declaration.name.lexeme = initializerName) :
    (h.bindMethod method i).1.isInitializer = true := by
  show (method.declaration.name.lexeme == initializerName) = true
  rw [named, beq_self_eq_true]

/-- A class that is called gives a new instance, after its initializer has run on it. -/
theorem call_class (bound : Nat) (c : Class) {arguments : List Value} {line : Nat} {m : Machine}
    (code : m.heap.From o) (good : c.From o) (given : ∀ argument ∈ arguments, argument.From o)
    (here : o.HasLine line) :
    let made := m.heap.newInstance c
    match c.method? initializerName with
    | none => call (bound + 1) (.class c) arguments line m
        = .ok (.instance made.1) { m with heap := made.2 }
    | some method =>
      let init := made.2.bindMethod method made.1
      call (bound + 1) (.class c) arguments line m
        = giving (.instance made.1) (runBody bound init.1 arguments line)
            { m with heap := init.2 } := by
  intro made
  cases found : c.method? initializerName with
  | none =>
    unfold call
    dsimp only
    rw [found]
    rfl
  | some method =>
    dsimp only
    let init := made.2.bindMethod method made.1
    have created : made.2.From o := code.allocate (by rintro _ _ ⟨⟩)
    have receiver : made.1.of.From o := good
    have good' : method.declaration.From o := Class.From.method? good found
    have binding : Traces o none nothing (fun f : Closure => f.declaration.From o)
        (create (·.bindMethod method made.1)) := traces_bindMethod good' receiver
    have code' : init.2.From o := (binding { m with heap := made.2 } created).1.code
    let inside : Machine := { m with heap := init.2 }
    have called : invoke bound init.1 arguments line inside
        = giving (.instance made.1) (runBody bound init.1 arguments line) inside :=
      invoke_initializer bound code' good' given here
        (made.2.isInitializer_bindMethod made.1 (c.name_of_method? found))
        (Heap.read?_bindMethod made.2 method made.1)
    -- The instance that the class gives is the one that its initializer gives.
    unfold call
    dsimp only
    rw [found]
    show (invoke bound init.1 arguments line >>= fun _ => pure (Value.instance made.1)) inside = _
    rw [bind_eq, called, giving, bind_eq]
    cases runBody bound init.1 arguments line inside <;> rfl

/-! ## Sessions -/

namespace Session

variable {session : Session} {past : List Act}

theorem knownTo_fresh (policy : Sink.Policy) (maxDepth : Nat) (clock : Clock) :
    (fresh policy maxDepth clock).machine.heap.KnownTo past :=
  Machine.all_new (P := Value.KnownTo past) trivial policy maxDepth clock

/-- The acts of an input lead from the heap before it to the heap after it. -/
theorem passes_actsOf {input : Input} (code : session.machine.heap.From o)
    (known : session.machine.heap.KnownTo past)
    (accepts : ∀ program ∈ session.accepted input, ∀ s ∈ program.statements, s.From o) :
    Passes o past session.machine.heap (session.actsOf input)
      (session.receive input).2.machine.heap ∧
    (session.receive input).2.machine.heap.KnownTo (past ++ session.actsOf input) := by
  unfold accepted at accepts
  unfold actsOf
  cases checked : (checkSource input.source session.nextId).outcome with
  | error faults =>
    rw [receive_of_error checked, notes_of_error checked, List.filterMap_nil, List.append_nil]
    exact ⟨.nil (.refl _), known⟩
  | ok program =>
    rw [checked] at accepts
    have code' : (session.prepared program).heap.From o := code
    have known' : (session.prepared program).heap.KnownTo past := known
    have followed := follows_executeProgram past input.bound (accepts program List.mem_cons_self)
      (session.prepared program) code' known'
    rw [Traced.plain_executeProgram] at followed
    obtain ⟨sink, same⟩ := leaves_interpret input.bound program.statements
      (session.prepared program)
    rw [receive_of_ok checked, notes_of_ok checked, same]
    unfold leaves
    cases ran : executeProgram input.bound program.statements (session.prepared program) with
    | ok _ m =>
      rw [ran] at followed
      exact ⟨followed.1, followed.2.1⟩
    | error stop m =>
      rw [ran] at followed
      exact followed

theorem passes_acts {inputs : List Input} (code : session.machine.heap.From o)
    (known : session.machine.heap.KnownTo past)
    (tokens : ∀ input ∈ inputs, ∀ t ∈ (scan input.source).1, o.tokens t)
    (bare : PrintsBare (session.programs inputs) → o.bare) :
    Passes o past session.machine.heap (session.acts inputs)
      (session.after inputs).machine.heap := by
  induction inputs generalizing session past with
  | nil => exact .nil (.refl _)
  | cons input inputs ih =>
    obtain ⟨first, rest⟩ := List.forall_mem_cons.mp tokens
    have accepts := from_accepted first fun prints =>
      bare (prints.mono fun _ => List.mem_append_left _)
    obtain ⟨passes, known'⟩ := passes_actsOf code known accepts
    exact passes.append (ih (from_receive code accepts) known' rest fun prints =>
      bare (prints.mono fun _ => List.mem_append_right _))

/-- The acts of a session make a chain. -/
theorem passes_fresh (policy : Sink.Policy) (maxDepth : Nat) (clock : Clock) (inputs : List Input) :
    Passes ((fresh policy maxDepth clock).origin inputs) [] (fresh policy maxDepth clock).machine.heap
      ((fresh policy maxDepth clock).acts inputs)
      ((fresh policy maxDepth clock).after inputs).machine.heap :=
  passes_acts (from_fresh _ policy maxDepth clock) (knownTo_fresh policy maxDepth clock)
    (fun input member _ inside => ⟨input.source, List.mem_map_of_mem member, inside⟩) id

end Session

/-- **Initializers yield their receiver.** Whatever a session is given, consider the calls that it
carries out, in their order.

A class that is called makes an instance of it, other than all instances made before; and of all
instances that are there by then, in the heap or among the arguments, it is known which call made
them. If the class neither has nor inherits an initializer, the call gives the instance. Otherwise the
nearest one is bound to the instance and its body is run: if the body ends, by a return or without,
the call gives the instance, and if it stops, or may not run because of the limit on the depth, the
call stops in the same way.

A function that is called as an initializer is a method that is declared as one and was bound before,
to an instance that was made before. By whatever route it comes to be called, and however often, a
method that is declared as an initializer and was bound to an instance gives this instance if its
body ends, and stops as its body does otherwise. -/
theorem initializers_yield_their_receiver (policy : Sink.Policy) (maxDepth : Nat) (clock : Clock)
    (inputs : List Input) :
    (∀ (before later : List Act) (bound : Nat) (c : Class) (arguments : List Value) (line : Nat)
        (m : Machine),
      (Session.fresh policy maxDepth clock).acts inputs
          = before ++ .constructs bound c arguments line m :: later →
      let made := m.heap.newInstance c
      made.1.of = c ∧ (∀ i, MadeIn before i → made.1.id ≠ i.id) ∧
      (m.heap.KnownTo before ∧ ∀ value ∈ arguments, value.KnownTo before) ∧
      match c.method? initializerName with
      | none => call (bound + 1) (.class c) arguments line m
          = .ok (.instance made.1) { m with heap := made.2 }
      | some method =>
        let init := made.2.bindMethod method made.1
        call (bound + 1) (.class c) arguments line m
          = giving (.instance made.1) (runBody bound init.1 arguments line)
              { m with heap := init.2 }) ∧
    ∀ (before later : List Act) (bound : Nat) (f : Closure) (arguments : List Value) (line : Nat)
        (m : Machine),
      (Session.fresh policy maxDepth clock).acts inputs
          = before ++ .invokes bound f arguments line m :: later →
      (f.isInitializer = true → ∃ (method : Method) (i : Instance) (m' : Machine),
        MadeIn before i ∧ .binds method i m' ∈ before ∧ f = (m'.heap.bindMethod method i).1 ∧
        method.declaration.name.lexeme = initializerName) ∧
      ∀ (method : Method) (i : Instance) (m' : Machine),
        .binds method i m' ∈ before → f = (m'.heap.bindMethod method i).1 →
        method.declaration.name.lexeme = initializerName →
        invoke bound f arguments line m
          = giving (.instance i) (runBody bound f arguments line) m := by
  -- Both halves are read off the chain of acts at the place where the call stands.
  have chain := Session.passes_fresh policy maxDepth clock inputs
  constructor
  · intro before later bound c arguments line m split
    rw [split] at chain
    obtain ⟨earlier, ⟨code, good, given, here⟩, known⟩ := chain.split
    refine ⟨rfl, ?_, known, call_class bound c code good given here⟩
    rintro _ ⟨bound', c', arguments', line', m', member, rfl⟩
    -- The cell of an instance that was made before is there already.
    have there : (m'.heap.newInstance c').2.cells.size ≤ m.heap.cells.size :=
      (earlier.later_of_mem member).size
    have taken : (m'.heap.newInstance c').2.cells.size = m'.heap.cells.size + 1 :=
      Array.size_push _
    show m.heap.cells.size ≠ m'.heap.cells.size
    omega
  · intro before later bound f arguments line m split
    rw [split] at chain
    obtain ⟨earlier, ⟨code, good, given, here⟩, known⟩ := chain.split
    constructor
    · intro initializer
      obtain ⟨method, i, m', member, rfl⟩ := known initializer
      exact ⟨method, i, m', earlier.made_of_binds member, member, rfl, beq_iff_eq.mp initializer⟩
    · rintro method i m' member rfl named
      -- The frame in which it was bound holds the instance still, since no run assigns `this`.
      have receiver := (earlier.later_of_mem member).retains _ "this" _
        (fun spared => spared.1 rfl) (Heap.read?_bindMethod m'.heap method i)
      exact invoke_initializer bound code good given here
        (m'.heap.isInitializer_bindMethod i named) receiver

/-- The initializer of a class that is called. -/
def Act.declared? : Act → Option Method
  | .constructs _ c _ _ _ => c.method? initializerName
  | .binds _ _ _ | .invokes _ _ _ _ _ => none

/-- An initializer that is called. -/
def Act.initializer? : Act → Option Closure
  | .invokes _ f _ _ _ => if f.isInitializer then some f else none
  | .binds _ _ _ | .constructs _ _ _ _ _ => none

/-- A class is called, and its initializer is taken from the instance to be called by a later input.
It returns early the first time and at its end the second time. -/
theorem initializer_called_anew :
    let first : Input :=
      ⟨"class A \x7b init(x) \x7b if (x) return; \x7d \x7d var a = A(true); var f = a.init;", 30⟩
    let second : Input := ⟨"f(nil);", 30⟩
    let acts := (Session.fresh .accepting 5 (.steady 0)).acts [first, second]
    (∃ (later : List Act) (bound : Nat) (c : Class) (arguments : List Value) (line : Nat)
        (m : Machine) (method : Method),
      acts = .constructs bound c arguments line m :: later ∧
      c.method? initializerName = some method ∧
      let made := m.heap.newInstance c
      let init := made.2.bindMethod method made.1
      call (bound + 1) (.class c) arguments line m
        = giving (.instance made.1) (runBody bound init.1 arguments line)
            { m with heap := init.2 }) ∧
    ∃ (before : List Act) (bound : Nat) (f : Closure) (arguments : List Value) (line : Nat)
        (m : Machine) (method : Method) (i : Instance) (m' : Machine),
      acts = before ++ [.invokes bound f arguments line m] ∧
      .binds method i m' ∈ before ∧ f = (m'.heap.bindMethod method i).1 ∧
      invoke bound f arguments line m
        = giving (.instance i) (runBody bound f arguments line) m := by
  intro first second acts
  obtain ⟨classes, functions⟩ :=
    initializers_yield_their_receiver .accepting 5 (.steady 0) [first, second]
  constructor
  · have called : (acts.head?.bind Act.declared?).isSome = true := by decide +kernel
    obtain ⟨method, found⟩ := Option.isSome_iff_exists.mp called
    obtain ⟨act, begins, declared⟩ := Option.bind_eq_some_iff.mp found
    obtain ⟨later, split⟩ := List.head?_eq_some_iff.mp begins
    cases act with
    | constructs bound c arguments line m =>
      have declared : c.method? initializerName = some method := declared
      obtain ⟨-, -, -, gives⟩ := classes [] later bound c arguments line m split
      rw [declared] at gives
      exact ⟨later, bound, c, arguments, line, m, method, split, declared, gives⟩
    | binds => cases declared
    | invokes => cases declared
  · have called : (acts.getLast?.bind Act.initializer?).isSome = true := by decide +kernel
    obtain ⟨f, found⟩ := Option.isSome_iff_exists.mp called
    obtain ⟨act, ends, initializes⟩ := Option.bind_eq_some_iff.mp found
    obtain ⟨before, split⟩ := List.getLast?_eq_some_iff.mp ends
    cases act with
    | invokes bound f' arguments line m =>
      have initializer : f'.isInitializer = true := (Option.ite_none_right_eq_some.mp initializes).1
      obtain ⟨wasBound, gives⟩ := functions before [] bound f' arguments line m split
      obtain ⟨method, i, m', -, here, same, named⟩ := wasBound initializer
      exact ⟨before, bound, f', arguments, line, m, method, i, m', split, here, same,
        gives method i m' here same named⟩
    | binds => cases initializes
    | constructs => cases initializes

end Lox
