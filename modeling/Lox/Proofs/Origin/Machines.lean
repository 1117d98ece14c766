import Lox.Proofs.Origin.Values
import Lox.Proofs.Runs.Congruence

/-!
# What the operations trace back to the source

Where all code in the heap is made of certain tokens, an operation that is given code made of them
leaves such a heap and gives such a value, declares at most certain names in one frame, and blames an
error on a line of a token. `Eval.Traces` says this of a computation, for the frame that is current
or for one that is given. It is closed under sequencing. A computation in a frame that was just opened
declares nothing in those that were there (`traces_opened`), and this is what blocks and calls are.

One error has no line: that of a refused output, where what is printed begins with a constant.
-/

set_option autoImplicit false

namespace Lox

/-- Whether an error is blamed on a line of a token, or on no line because the output is refused
where an expression that begins with a constant is printed. -/
def RuntimeError.Blamed (o : Origin) (e : RuntimeError) : Prop :=
  o.HasLine e.line ∨ o.bare ∧ ∃ reason, e = ⟨.output reason, 0⟩

/-- One machine leads to another: its code is still made of the tokens, the frame that is current is
the same, and at most the given names were declared, in the given frame or in the current one. -/
structure Machine.Leads (o : Origin) (frame? : Option Address) (names : String → Prop)
    (m m' : Machine) : Prop where
  code : m'.heap.From o
  current : m'.current = m.current
  declares : m.heap.Declares (frame?.getD m.current) names m'.heap

namespace Machine.Leads

variable {o : Origin} {frame? : Option Address} {names : String → Prop}

theorem refl {m : Machine} (code : m.heap.From o) : m.Leads o frame? names m :=
  ⟨code, rfl, .refl m.heap _ _⟩

theorem trans {m₁ m₂ m₃ : Machine} (first : m₁.Leads o frame? names m₂)
    (second : m₂.Leads o frame? names m₃) : m₁.Leads o frame? names m₃ := by
  refine ⟨second.code, second.current.trans first.current, ?_⟩
  have further := second.declares
  rw [first.current] at further
  exact first.declares.trans further

theorem weaken {more : String → Prop} {m m' : Machine} (leads : m.Leads o frame? names m')
    (le : ∀ name, names name → more name) : m.Leads o frame? more m' :=
  ⟨leads.code, leads.current, leads.declares.weaken le⟩

/-- A new heap in which no more was declared. -/
theorem heap {m : Machine} {h : Heap} (code : h.From o)
    (declares : m.heap.Declares (frame?.getD m.current) names h) :
    m.Leads o frame? names { m with heap := h } :=
  ⟨code, rfl, declares⟩

end Machine.Leads

namespace Eval

/-- What is said of how a computation ends: of the machine that it leaves, and of its value or its
error. -/
def Reaches {α : Type} (o : Origin) (reached : Machine → Prop) (fine : α → Prop) :
    EStateM.Result Stop Machine α → Prop
  | .ok a m => reached m ∧ fine a
  | .error stop m => reached m ∧ ∀ e, stop = .error e → e.Blamed o

/-- Whether a computation leads to machines whose code is made of the tokens, gives a value that is
fine, and blames its errors on them. -/
def Traces {α : Type} (o : Origin) (frame? : Option Address) (names : String → Prop)
    (fine : α → Prop) (x : Eval α) : Prop :=
  ∀ m : Machine, m.heap.From o → Reaches o (m.Leads o frame? names) fine (x m)

variable {α β : Type} {o : Origin} {frame? : Option Address} {names more : String → Prop}
  {fine : α → Prop} {fine' : β → Prop} {line : Nat}

/-! ## Endings -/

section

variable {reached reached' : Machine → Prop} {result : EStateM.Result Stop Machine α}

/-- What a computation leaves may be changed afterwards. -/
theorem Reaches.onMachine (reaches : Reaches o reached fine result) {change : Machine → Machine}
    (le : ∀ m, reached m → reached' (change m)) :
    Reaches o reached' fine (onMachine change result) := by
  cases result with
  | ok a m => exact ⟨le m reaches.1, reaches.2⟩
  | error stop m => exact ⟨le m reaches.1, reaches.2⟩

theorem Reaches.mono (reaches : Reaches o reached fine result)
    (le : ∀ m, reached m → reached' m) : Reaches o reached' fine result := by
  have unchanged : Eval.onMachine id result = result := by cases result <;> rfl
  exact unchanged ▸ reaches.onMachine le

end

/-! ## Sequencing -/

theorem Traces.leads {x : Eval α} (traces : x.Traces o frame? names fine) {m : Machine}
    (code : m.heap.From o) : m.Leads o frame? names (x.leaves m) := by
  have known := traces m code
  unfold leaves
  cases ends : x m with
  | ok a m' =>
    rw [ends] at known
    exact known.1
  | error stop m' =>
    rw [ends] at known
    exact known.1

theorem Traces.blamed {x : Eval α} (traces : x.Traces o frame? names fine) {m m' : Machine}
    (code : m.heap.From o) {e : RuntimeError} (ends : x m = .error (.error e) m') : e.Blamed o := by
  have known := traces m code
  rw [ends] at known
  exact known.2 e rfl

theorem traces_pure {a : α} (good : fine a) : Traces o frame? names fine (pure a) :=
  fun _ code => ⟨.refl code, good⟩

theorem traces_exhausted : Traces o frame? names fine (throw .exhausted : Eval α) :=
  fun _ code => ⟨.refl code, nofun⟩

theorem traces_fail (cause : RuntimeError.Cause) (here : o.HasLine line) :
    Traces o frame? names fine (fail cause line : Eval α) := by
  refine fun m code => ⟨.refl code, ?_⟩
  rintro e ⟨⟩
  exact .inl here

theorem Traces.bind {x : Eval α} {f : α → Eval β} (first : x.Traces o frame? names fine)
    (second : ∀ a, fine a → (f a).Traces o frame? names fine') :
    (x >>= f).Traces o frame? names fine' := by
  intro m code
  have before := first m code
  rw [bind_eq]
  cases ends : x m with
  | error stop m' =>
    rw [ends] at before
    exact before
  | ok a m' =>
    rw [ends] at before
    have after := second a before.2 m' before.1.code
    exact after.mono fun _ led => before.1.trans led

theorem Traces.weaken {x : Eval α} (traces : x.Traces o frame? names fine)
    (le : ∀ name, names name → more name) : x.Traces o frame? more fine :=
  fun m code => (traces m code).mono fun _ led => led.weaken le

/-- What declares nothing does not declare what it might. -/
theorem Traces.still {x : Eval α} (traces : x.Traces o frame? nothing fine) :
    x.Traces o frame? names fine :=
  traces.weaken fun _ => False.elim

/-- Where two computations agree on a machine, what is known of one is known of the other. -/
theorem traces_of_agrees {x : Eval α}
    (agrees : ∀ m : Machine, m.heap.From o → ∃ y, x m = y m ∧ Traces o frame? names fine y) :
    x.Traces o frame? names fine := by
  intro m code
  obtain ⟨y, same, traces⟩ := agrees m code
  rw [same]
  exact traces m code

/-! ## The operations of the machine -/

theorem traces_orFail {result : Except RuntimeError.Cause α} (here : o.HasLine line)
    (good : ∀ a, result = .ok a → fine a) : Traces o frame? names fine (orFail line result) := by
  cases result with
  | ok a => exact traces_pure (good a rfl)
  | error cause => exact traces_fail cause here

/-- What is created declares nothing. -/
theorem traces_create {f : Heap → α × Heap}
    (creates : ∀ h : Heap, h.From o → fine (f h).1 ∧ (f h).2.From o ∧
      ∀ a, h.Declares a nothing (f h).2) : Traces o frame? names fine (create f) := by
  intro m code
  obtain ⟨good, code', still⟩ := creates m.heap code
  exact ⟨.heap code' ((still m.current).elsewhere _ _), good⟩

theorem traces_lookUp (id : NodeId) (name : String) (here : o.HasLine line) :
    Traces o frame? names (Value.From o) (lookUp id name line) := by
  refine traces_of_agrees fun m code => ?_
  rcases lookUp_cases id name line m with ⟨frame, value, _, found, same⟩ | same
  · exact ⟨pure value, same, traces_pure (code.read? found)⟩
  · exact ⟨_, same, traces_fail _ here⟩

theorem traces_assign (id : NodeId) {name : Name} (target : name.From o) {value : Value}
    (good : value.From o) : Traces o frame? names (fun _ => True) (assign id name value) := by
  intro m code
  rcases assign_cases id name value m with ⟨frame, place, same⟩ | ⟨-, same⟩
  · rw [same]
    -- The name is bound where the value is put, however the place was found.
    have bound : m.heap.binds frame name.lexeme = true := by
      unfold Machine.place? at place
      split at place
      · exact Heap.binds_ownerAt? place
      · exact Heap.binds_owner? place
    exact ⟨.heap (code.define frame _ good)
      (.assign bound target.isIdentifier.spared value _ _), trivial⟩
  · have failed : Traces o frame? names (fun _ : Unit => True)
        (fail (.undefinedVariable name.lexeme) name.line) := traces_fail _ target.hasLine
    rw [same]
    exact failed m code

theorem traces_define {name : Name} (target : name.From o) (value : Value) (good : value.From o) :
    Traces o none (· = name.lexeme) (fun _ => True) (define name.lexeme value) :=
  fun m code => ⟨.heap (code.define m.current _ good)
    (.define m.heap m.current target.isIdentifier.spared value), trivial⟩

theorem traces_bindMethod {method : Method} (good : method.declaration.From o) {i : Instance}
    (receiver : i.of.From o) :
    Traces o frame? names (fun f => f.declaration.From o) (create (·.bindMethod method i)) := by
  refine traces_create fun h code => ⟨good, ?_, fun a => ?_⟩
  · exact Heap.All.bindMethod code method receiver
  · exact (Heap.Declares.allocate h _ a _).trans (.allocate _ .identity a _)

theorem traces_bound {method? : Option Method}
    (good : ∀ method, method? = some method → method.declaration.From o) {i : Instance}
    (receiver : i.of.From o) (property : String) (here : o.HasLine line) :
    Traces o frame? names (Value.From o) (bound method? i property line) := by
  cases method? with
  | none => exact traces_fail _ here
  | some method =>
    exact (traces_bindMethod (good method rfl) receiver).bind fun f code => traces_pure code

theorem traces_property {object : Value} (good : object.From o) {name : Name}
    (property_ : name.From o) : Traces o frame? names (Value.From o) (property object name) := by
  refine traces_of_agrees fun m code => ?_
  rcases property_cases object name m with
    ⟨i, value, rfl, field, same⟩ | ⟨i, rfl, _, same⟩ | same
  · exact ⟨pure value, same, traces_pure (code.field? field)⟩
  · exact ⟨_, same, traces_bound (fun _ => Class.From.method? good) good _ property_.hasLine⟩
  · exact ⟨_, same, traces_fail _ property_.hasLine⟩

theorem traces_setField (i : Instance) (name : String) {value : Value} (good : value.From o) :
    Traces o frame? names (fun _ => True) (setField i name value) :=
  fun m code => ⟨.heap (code.setField i name good) (.setField m.heap i name value _ _), trivial⟩

theorem traces_superMethod (id : NodeId) (method : String) (here : o.HasLine line) :
    Traces o frame? names (Value.From o) (superMethod id line method) := by
  refine traces_of_agrees fun m code => ?_
  rcases superMethod_cases id line method m with
    ⟨distance, parent, i, _, above, receiver, same⟩ | ⟨cause, same⟩
  · have parent' : parent.From o := code.getAt? above
    have receiver' : i.of.From o := code.getAt? receiver
    exact ⟨_, same, traces_bound (fun _ => parent'.method?) receiver' _ here⟩
  · exact ⟨_, same, traces_fail _ here⟩

/-- A refused piece is blamed on the line that it is written for, which may be none. -/
theorem traces_write (text : String) (here : o.HasLine line ∨ o.bare ∧ line = 0) :
    Traces o frame? names (fun _ => True) (write text line) := by
  intro m code
  unfold write
  cases m.sink.write text with
  | mk refusal sink =>
    have leads : m.Leads o frame? names { m with sink := sink } := ⟨code, rfl, .refl m.heap _ _⟩
    cases refusal with
    | none => exact ⟨leads, trivial⟩
    | some reason =>
      refine ⟨leads, ?_⟩
      rintro e ⟨⟩
      rcases here with line | ⟨bare, rfl⟩
      · exact .inl line
      · exact .inr ⟨bare, reason, rfl⟩

theorem traces_print (value : Value) (here : o.HasLine line ∨ o.bare ∧ line = 0) :
    Traces o frame? names (fun _ => True) (print value line) := by
  have all : ∀ texts, Traces o frame? names (fun _ => True) (writeAll line texts) := by
    intro texts
    induction texts with
    | nil => exact traces_pure trivial
    | cons text texts ih => exact (traces_write text here).bind fun _ _ => ih
  exact all _

/-! ## Frames and calls -/

/-- What declares in the frame that is current declares in the frame in which it runs. -/
theorem Traces.inFrame {x : Eval α} (traces : x.Traces o none names fine) (frame : Address) :
    (inFrame frame x).Traces o (some frame) names fine := by
  intro m code
  rw [inFrame_eq]
  exact (traces { m with current := frame } code).onMachine fun _ led => ⟨led.code, rfl, led.declares⟩

theorem Traces.inCall {x : Eval α} {frame : Address} (traces : x.Traces o (some frame) names fine)
    (here : o.HasLine line) : (inCall line x).Traces o (some frame) names fine := by
  intro m code
  by_cases full : m.maxDepth ≤ m.depth
  · have failed : Traces o (some frame) names fine (fail .stackOverflow line) := traces_fail _ here
    rw [inCall_full line x full]
    exact failed m code
  · rw [inCall_room line x full]
    exact (traces { m with depth := m.depth + 1 } code).onMachine fun _ led =>
      ⟨led.code, led.current, led.declares⟩

/-- Whether a computation opens a new frame, and does nothing else. -/
def Opens (o : Origin) (x : Eval Address) : Prop :=
  ∀ m : Machine, ∃ frame : Frame, (Cell.frame frame).From o ∧
    x m = .ok m.heap.cells.size { m with heap := (m.heap.allocate (.frame frame)).2 }

/-- What runs in a frame that was just opened declares nothing in those that were there. -/
theorem traces_opened {x : Eval Address} {f : Address → Eval β} (opens : Opens o x)
    (inside : ∀ frame, (f frame).Traces o (some frame) names fine') :
    (x >>= f).Traces o frame? more fine' := by
  intro m code
  obtain ⟨frame, good, same⟩ := opens m
  rw [bind_eq, same]
  have known := inside m.heap.cells.size { m with heap := (m.heap.allocate (.frame frame)).2 }
    (code.allocate good)
  have leads : ∀ m' : Machine,
      Machine.Leads o (some m.heap.cells.size) names
        { m with heap := (m.heap.allocate (.frame frame)).2 } m' → m.Leads o frame? more m' := by
    intro m' led
    have opened : m.heap.Declares m.current nothing (m.heap.allocate (.frame frame)).2 :=
      .allocate _ _ _ _
    exact ⟨led.code, led.current,
      (opened.fresh led.declares (Heap.frame?_size m.heap)).elsewhere _ _⟩
  exact known.mono leads

theorem opens_block : Opens o openBlock :=
  fun m => ⟨⟨.empty, some m.current⟩, nofun, rfl⟩

theorem opens_function (f : Closure) {arguments : List Value}
    (good : ∀ value ∈ arguments, value.From o) : Opens o (enterFunction f arguments) :=
  fun _ => ⟨⟨_, some f.frame⟩,
    Bindings.forall_parameters f.declaration.params arguments good .empty nofun, rfl⟩

theorem traces_result (f : Closure) (here : o.HasLine line) {completion : Completion}
    (good : ∀ value, completion = .returned value → value.From o) :
    Traces o frame? names (Value.From o) (result f line completion) := by
  refine traces_of_agrees fun m code => ?_
  rcases result_cases f line completion m with
    ⟨value, _, receiver, same⟩ | ⟨_, _, same⟩ | ⟨value, _, returned, same⟩ | ⟨_, _, same⟩
  · exact ⟨pure value, same, traces_pure (code.read? receiver)⟩
  · exact ⟨_, same, traces_fail _ here⟩
  · exact ⟨pure value, same, traces_pure (good value returned)⟩
  · exact ⟨pure .nil, same, traces_pure trivial⟩

theorem traces_checkCall (callee : Value) (count : Nat) (here : o.HasLine line) :
    Traces o frame? names (fun _ => True) (checkCall callee count line) := by
  unfold checkCall
  cases callee.arity? with
  | none => exact traces_fail _ here
  | some arity =>
    show Traces o frame? names _ (if count = arity then pure () else fail _ _)
    split
    · exact traces_pure trivial
    · exact traces_fail _ here

/-! ## Declarations -/

theorem traces_superclass? {parent : Option Superclass}
    (good : ∀ above ∈ parent, above.name.From o) :
    Traces o frame? names (fun c? => ∀ c ∈ c?, c.From o) (superclass? parent) := by
  cases parent with
  | none => exact traces_pure nofun
  | some parent =>
    have name := good parent rfl
    refine (traces_lookUp _ _ name.hasLine).bind fun value code => ?_
    cases value with
    | «class» c =>
      refine traces_pure ?_
      rintro _ ⟨⟩
      exact code
    | nil | bool | number | string | native | closure | «instance» =>
      exact traces_fail _ name.hasLine

theorem traces_methodFrame {parent : Option Class} (good : ∀ c ∈ parent, c.From o) :
    Traces o frame? names (fun _ => True) (methodFrame parent) := by
  intro m code
  cases parent with
  | none => exact ⟨.refl code, trivial⟩
  | some c =>
    have frame : (Cell.frame ⟨Bindings.empty.set "super" (.class c), some m.current⟩).From o :=
      Bindings.forall_single (P := Value.From o) (good c rfl)
    exact ⟨.heap (code.allocate frame) (.allocate _ _ _ _), trivial⟩

theorem traces_declareClass {name : Name} (target : name.From o) {parent : Option Superclass}
    (above : ∀ above ∈ parent, above.name.From o) {methods : List FunctionDecl}
    (own : ∀ f ∈ methods, f.From o) :
    Traces o none (· = name.lexeme) (fun _ => True) (declareClass name parent methods) := by
  refine (traces_superclass? above).bind fun c? good => ?_
  refine (traces_methodFrame good).bind fun frame _ => ?_
  have created : Traces o none (· = name.lexeme) (Class.From o)
      (create (·.newClass name.lexeme c? frame methods)) :=
    traces_create fun h code =>
      ⟨Class.from_of good own, code.allocate trivial, fun a => .allocate h .identity a _⟩
  exact created.bind fun c good' => traces_define target (.class c) good'

theorem traces_declareFunction {declaration : FunctionDecl} (good : declaration.From o) :
    Traces o none (· = declaration.name.lexeme) (fun _ => True)
      (declareFunction declaration) := by
  intro m
  have created : Traces o none (· = declaration.name.lexeme) (fun f => f.declaration.From o)
      (create (·.newClosure declaration m.current false)) :=
    traces_create fun h code => ⟨good, code.allocate trivial, fun a => .allocate h .identity a _⟩
  exact created.bind (fun f good' => traces_define good.name (.closure f) good') m

/-- A function of the host gives no code but what it is given. -/
theorem traces_callNative (f : Native) {arguments : List Value}
    (good : ∀ value ∈ arguments, value.From o) (here : o.HasLine line) :
    Traces o none nothing (Value.From o) (callNative f arguments line) := by
  have looked : Traces o none nothing (fun _ => True) (readClock f) :=
    fun m code => ⟨⟨code, rfl, .refl m.heap _ _⟩, trivial⟩
  refine looked.bind fun reading _ => traces_orFail here fun value ok => ?_
  rcases Native.call_cases ok with data | given
  · exact Value.from_of_isData data
  · exact good value given

end Eval

end Lox
