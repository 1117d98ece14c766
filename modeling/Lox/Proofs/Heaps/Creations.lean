import Lox.Proofs.Heaps.Chains

/-!
# What the steps of the machine create

One lemma for each step of the machine. Most create nothing: they read a value that the heap holds, or
put one there under a name other than `super`, and nothing happens in them. The others take one cell
for what they create, of a kind that may have the next address (`Eval.creates_of_allocate`), but for
the binding of a method, which takes two: the frame that holds the receiver, and the function inside
it.
-/

set_option autoImplicit false

namespace Lox

variable {α β : Type} {o : Origin} {h h' : Heap} {fine : Heap → α → Prop} {good : Heap → β → Prop}

/-! ## Creations -/

namespace Eval

variable {x : Eval α}

/-- What takes one cell creates what the cell is taken for. -/
theorem creates_of_allocate {creation : α → Creation}
    (takes : ∀ m : Machine, h.Keeps m.heap → m.Sound o → ∃ a cell,
      x m = .ok a { m with heap := (m.heap.allocate cell).2 } ∧
      cell.Sound o m.heap m.heap.cells.size ∧
      (creation a).cells = [(m.heap.cells.size, cell.kind)] ∧
      (∀ value ∈ (creation a).value?, value.Sound o (m.heap.allocate cell).2) ∧
      fine (m.heap.allocate cell).2 a) :
    Creates o h fine x creation := by
  intro m later machine
  obtain ⟨a, cell, ran, sound, taken, new, holds⟩ := takes m later machine
  have one : Happening.addresses (.creates (creation a) m) = [m.heap.cells.size] :=
    congrArg (List.map Prod.fst) taken
  have gains : m.heap.Gains (Happening.addresses (.creates (creation a) m)).length
      (m.heap.allocate cell).2 := one ▸ .allocate m.heap cell
  refine ⟨a, _, ran, machine.heap.allocate sound, ⟨gains, one ▸ rfl, fun b kind member => ?_, new⟩,
    holds⟩
  have member' : (b, kind) ∈ (creation a).cells := member
  rw [taken] at member'
  cases List.mem_singleton.mp member'
  exact m.heap.kind?_size cell

/-- The address of a frame that was just opened is that of a frame. -/
theorem creates_block :
    Creates o h (fun h' frame => h'.kind? frame = some .frame) openBlock .block :=
  creates_of_allocate fun m _ machine =>
    ⟨_, .frame ⟨.empty, some m.current⟩, rfl, Frame.sound_block machine.current, rfl, nofun,
      m.heap.kind?_size _⟩

theorem creates_call {f : Closure} (sound : (Value.closure f).Sound o h) {arguments : List Value}
    (given : ∀ value ∈ arguments, value.Sound o h) :
    Creates o h (fun h' frame => h'.kind? frame = some .frame) (enterFunction f arguments)
      (.call f) :=
  creates_of_allocate fun m later _ =>
    ⟨_, .frame ⟨_, some f.frame⟩, rfl,
      Frame.sound_call (sound.mono later) fun value member => (given value member).mono later, rfl,
      nofun, m.heap.kind?_size _⟩

theorem creates_superclass {c : Class} (sound : (Value.class c).Sound o h) :
    Creates o h (fun h' frame => h'.kind? frame = some .frame) (methodFrame (some c))
      (.superclass c) :=
  creates_of_allocate fun m later machine =>
    ⟨_, .frame ⟨_, some m.current⟩, rfl, Frame.sound_superclass machine.current (sound.mono later),
      rfl, nofun, m.heap.kind?_size _⟩

theorem creates_instance {c : Class} (sound : (Value.class c).Sound o h) :
    Creates o h (fun h' i => (Value.instance i).Sound o h') (create (·.newInstance c))
      .construction := by
  refine creates_of_allocate fun m later _ => ?_
  have keeps := (Heap.Gains.allocate m.heap (.fields .empty)).keeps
  have new : (Value.instance (m.heap.newInstance c).1).Sound o
      (m.heap.allocate (.fields .empty)).2 :=
    Value.sound_instance (m.heap.kind?_size _) ((sound.mono later).mono keeps)
  refine ⟨_, .fields .empty, rfl, nofun, rfl, ?_, new⟩
  rintro _ ⟨⟩
  exact new

theorem creates_function {declaration : FunctionDecl} (code : declaration.From o) {frame : Address}
    (taken : h.kind? frame = some .frame) :
    Creates o h (fun h' f => (Value.closure f).Sound o h')
      (create (·.newClosure declaration frame false)) .function := by
  refine creates_of_allocate fun m later _ => ?_
  have keeps := (Heap.Gains.allocate m.heap .identity).keeps
  have new : (Value.closure (m.heap.newClosure declaration frame false).1).Sound o
      (m.heap.allocate .identity).2 :=
    Value.sound_closure (m.heap.kind?_size _) (keeps _ _ (later _ _ taken)) code
  refine ⟨_, .identity, rfl, trivial, rfl, ?_, new⟩
  rintro _ ⟨⟩
  exact new

theorem creates_class (name : String) {parent : Option Class}
    (above : ∀ c ∈ parent, (Value.class c).Sound o h) {frame : Address}
    (taken : h.kind? frame = some .frame) {methods : List FunctionDecl}
    (own : ∀ f ∈ methods, f.From o) :
    Creates o h (fun h' c => (Value.class c).Sound o h')
      (create (·.newClass name parent frame methods)) .class := by
  refine creates_of_allocate fun m later _ => ?_
  have keeps := (Heap.Gains.allocate m.heap .identity).keeps
  have new : (Value.class (m.heap.newClass name parent frame methods).1).Sound o
      (m.heap.allocate .identity).2 := by
    refine Value.sound_class (m.heap.kind?_size _) (keeps _ _ (later _ _ taken))
      (Class.from_of (fun c inherits => (above c inherits).code) own) fun c inherits => ?_
    have sound := (above c inherits).mono later
    exact ⟨sound.mono keeps, sound.id_lt⟩
  refine ⟨_, .identity, rfl, trivial, rfl, ?_, new⟩
  rintro _ ⟨⟩
  exact new

/-- A method is bound in a frame of its own, which lies inside the frame around the method. -/
theorem creates_binding {c : Class} (sound : (Value.class c).Sound o h) {name : String}
    {method : Method} (found : c.method? name = some method) {i : Instance}
    (receiver : (Value.instance i).Sound o h) :
    Creates o h (fun h' f => (Value.closure f).Sound o h') (create (·.bindMethod method i))
      (.binding method i) := by
  intro m later machine
  have taken : m.heap.kind? method.frame = some .frame :=
    later _ _ (sound.denotes _ _ (Class.frame_mem_references found))
  let inside : Heap := (m.heap.allocateFrame (some method.frame)
    (Bindings.empty.set "this" (.instance i))).2
  have frame : Cell.Sound o m.heap m.heap.cells.size
      (.frame ⟨Bindings.empty.set "this" (.instance i), some method.frame⟩) :=
    Frame.sound_receiver taken (receiver.mono later)
  have identity : Cell.identity.Sound o inside inside.cells.size := trivial
  have size : inside.cells.size = m.heap.cells.size + 1 := Array.size_push _
  -- The function is taken after its frame, so the frame is there when the function refers to it.
  have around : (m.heap.bindMethod method i).2.kind? m.heap.cells.size = some .frame :=
    (Heap.Gains.allocate inside .identity).keeps _ _ (m.heap.kind?_size _)
  have new : (Value.closure (m.heap.bindMethod method i).1).Sound o
      (m.heap.bindMethod method i).2 :=
    Value.sound_closure (inside.kind?_size _) around (Class.From.method? sound.code found)
  refine ⟨_, _, rfl, (machine.heap.allocate frame).allocate identity,
    ⟨.bindMethod m.heap method i, ?_, fun a kind member => ?_, ?_⟩, new⟩
  · show [m.heap.cells.size, inside.cells.size] = List.range' m.heap.cells.size 2
    rw [size]
    rfl
  · exact new.denotes a kind ((List.Perm.swap _ _ _).mem_iff.mp member)
  · rintro _ ⟨⟩
    exact new

end Eval

namespace Traced

open Told (lift)

/-! ## Steps in which nothing happens -/

theorem chronicled_pure {a : α} (holds : ∀ h', h.Keeps h' → fine h' a) :
    Chronicled o h fine (pure a) :=
  fun m later sound => ⟨.nil (.refl m.heap), sound, holds m.heap later⟩

theorem chronicled_exhausted : Chronicled o h fine (lift (throw .exhausted)) :=
  fun m _ sound => ⟨.nil (.refl m.heap), sound⟩

theorem chronicled_fail (cause : RuntimeError.Cause) (line : Nat) :
    Chronicled o h fine (lift (Eval.fail cause line)) :=
  fun m _ sound => ⟨.nil (.refl m.heap), sound⟩

theorem chronicled_orFail (line : Nat) {result : Except RuntimeError.Cause α}
    (holds : ∀ a, result = .ok a → ∀ h', h.Keeps h' → fine h' a) :
    Chronicled o h fine (lift (Eval.orFail line result)) := by
  cases result with
  | ok a => exact chronicled_pure (holds a rfl)
  | error cause => exact chronicled_fail cause line

/-- A value that is given unchanged stays sound. -/
theorem chronicled_value {value : Value} (sound : value.Sound o h) :
    Chronicled o h (Value.Sound o) (pure value) :=
  chronicled_pure fun _ keeps => sound.mono keeps

/-- Where two computations agree on a machine, what is known of one is known of the other. -/
theorem chronicled_of_agrees {x : Traced α}
    (agrees : ∀ m : Machine, h.Keeps m.heap → m.Sound o →
      ∃ y, x m = y m ∧ Chronicled o m.heap fine y) : Chronicled o h fine x := by
  intro m later sound
  obtain ⟨y, same, chronicled⟩ := agrees m later sound
  have here := chronicled m (.refl m.heap) sound
  unfold Told.heard Told.told Told.plain at here ⊢
  rw [same]
  exact here

theorem chronicled_lift_of_agrees {y : Eval α}
    (agrees : ∀ m : Machine, h.Keeps m.heap → m.Sound o →
      ∃ z, y m = z m ∧ Chronicled o m.heap fine (lift z)) : Chronicled o h fine (lift y) := by
  refine chronicled_of_agrees fun m later sound => ?_
  obtain ⟨z, same, chronicled⟩ := agrees m later sound
  exact ⟨lift z, congrArg (Prod.mk []) same, chronicled⟩

theorem chronicled_lift_bind {y : Eval α} {g : α → Eval β} (first : Chronicled o h fine (lift y))
    (second : ∀ h' a, h.Keeps h' → fine h' a → Chronicled o h' good (lift (g a))) :
    Chronicled o h good (lift (y >>= g)) := by
  rw [Told.lift_bind]
  exact first.bind second

theorem chronicled_lookUp (id : NodeId) (name : String) (line : Nat) :
    Chronicled o h (Value.Sound o) (lift (Eval.lookUp id name line)) := by
  refine chronicled_lift_of_agrees fun m _ sound => ?_
  rcases Eval.lookUp_cases id name line m with ⟨frame, value, -, found, same⟩ | same
  · exact ⟨pure value, same, chronicled_value (sound.heap.all.read? found)⟩
  · exact ⟨_, same, chronicled_fail _ _⟩

theorem chronicled_assign (id : NodeId) {name : Name} (identifier : name.IsIdentifier)
    {value : Value} (new : value.Sound o h) :
    Chronicled o h (fun _ _ => True) (lift (Eval.assign id name value)) := by
  intro m later sound
  rcases Eval.assign_cases id name value m with ⟨frame, -, same⟩ | ⟨-, same⟩
  · have gains := Heap.Gains.define m.heap frame name.lexeme value
    rw [Told.plain_lift, same]
    exact ⟨.nil gains, sound.withHeap gains.keeps
      (sound.heap.define frame identifier.spared (new.mono later)), trivial⟩
  · rw [Told.plain_lift, same]
    exact ⟨.nil (.refl m.heap), sound⟩

theorem chronicled_define {name : Name} (identifier : name.IsIdentifier) {value : Value}
    (new : value.Sound o h) :
    Chronicled o h (fun _ _ => True) (lift (Eval.define name.lexeme value)) := by
  intro m later sound
  have gains := Heap.Gains.define m.heap m.current name.lexeme value
  exact ⟨.nil gains, sound.withHeap gains.keeps
    (sound.heap.define m.current identifier.spared (new.mono later)), trivial⟩

theorem chronicled_setField (i : Instance) (name : String) {value : Value}
    (new : value.Sound o h) :
    Chronicled o h (fun _ _ => True) (lift (Eval.setField i name value)) := by
  intro m later sound
  have gains := Heap.Gains.setField m.heap i name value
  exact ⟨.nil gains, sound.withHeap gains.keeps (sound.heap.setField i name (new.mono later)),
    trivial⟩

theorem chronicled_print (value : Value) (line : Nat) :
    Chronicled o h (fun _ _ => True) (lift (Eval.print value line)) := by
  have written (text : String) : Chronicled o h (fun _ _ => True) (lift (Eval.write text line)) := by
    intro m _ sound
    have sound' (sink : Sink) : Machine.Sound o { m with sink := sink } :=
      ⟨sound.heap, sound.globals, sound.current⟩
    rw [Told.plain_lift, Told.heard_lift]
    unfold Eval.write
    cases m.sink.write text with
    | mk refusal sink =>
      cases refusal with
      | none => exact ⟨.nil (.refl m.heap), sound' sink, trivial⟩
      | some reason => exact ⟨.nil (.refl m.heap), sound' sink⟩
  have all : ∀ texts, Chronicled o h (fun _ _ => True) (lift (Eval.writeAll line texts)) := by
    intro texts
    induction texts with
    | nil => exact chronicled_pure fun _ _ => trivial
    | cons text texts ih =>
      exact chronicled_lift_bind (written text) fun _ _ keeps _ => ih.mono keeps
  exact all _

theorem chronicled_callNative (f : Native) {arguments : List Value}
    (given : ∀ value ∈ arguments, value.Sound o h) (line : Nat) :
    Chronicled o h (Value.Sound o) (lift (Eval.callNative f arguments line)) := by
  have looked : Chronicled o h (fun _ _ => True) (lift (Eval.readClock f)) := fun m _ sound =>
    ⟨.nil (.refl m.heap), ⟨sound.heap, sound.globals, sound.current⟩, trivial⟩
  refine chronicled_lift_bind looked fun h' reading keeps _ =>
    chronicled_orFail line fun value ok h'' later => ?_
  rcases Native.plain_or_given ok with plain | member
  · exact Value.sound_of_isPlain plain
  · exact (given value member).mono (keeps.trans later)

theorem chronicled_checkCall (callee : Value) (count line : Nat) :
    Chronicled o h (fun _ _ => True) (lift (Eval.checkCall callee count line)) := by
  unfold Eval.checkCall
  split
  · exact chronicled_fail _ line
  · split
    · exact chronicled_pure fun _ _ => trivial
    · exact chronicled_fail _ line

theorem chronicled_superclass? (parent : Option Superclass) :
    Chronicled o h (fun h' c? => ∀ c ∈ c?, (Value.class c).Sound o h')
      (lift (Eval.superclass? parent)) := by
  cases parent with
  | none => exact chronicled_pure fun _ _ => nofun
  | some parent =>
    refine chronicled_lift_bind (chronicled_lookUp _ _ _) fun h' value _ sound => ?_
    cases value with
    | «class» c =>
      refine chronicled_pure fun _ keeps => ?_
      rintro _ ⟨⟩
      exact sound.mono keeps
    | nil | bool | number | string | native | closure | «instance» => exact chronicled_fail _ _

/-- Whether a value with which a statement ends may be found in a heap. -/
def Returnable (o : Origin) (h : Heap) (completion : Completion) : Prop :=
  ∀ value ∈ completion.value?, value.Sound o h

theorem chronicled_result (f : Closure) (line : Nat) {completion : Completion}
    (returned : Returnable o h completion) :
    Chronicled o h (Value.Sound o) (lift (Eval.result f line completion)) := by
  refine chronicled_lift_of_agrees fun m later sound => ?_
  rcases Eval.result_cases f line completion m with
    ⟨value, -, receiver, same⟩ | ⟨-, -, same⟩ | ⟨value, -, rfl, same⟩ | ⟨-, -, same⟩
  · exact ⟨pure value, same, chronicled_value (sound.heap.all.read? receiver)⟩
  · exact ⟨_, same, chronicled_fail _ _⟩
  · exact ⟨pure value, same, chronicled_value ((returned value rfl).mono later)⟩
  · exact ⟨pure .nil, same, chronicled_value (Value.sound_of_isPlain trivial)⟩

/-! ## Operations that create -/

/-- A frame is created, and then noted to be open. -/
theorem chronicled_opened {y : Eval Address} {creation : Address → Creation} {site : Site}
    (creates : Eval.Creates o h (fun h' frame => h'.kind? frame = some .frame) y creation)
    (around : Machine → Address) :
    Chronicled o h (fun h' frame => h'.kind? frame = some .frame) (do
      let frame ← Told.telling y fun frame => Note.creates (creation frame)
      Told.note fun m => .opens site frame (around m) m
      return frame) :=
  (Chronicled.creating creates).bind fun _ _ _ taken =>
    .after_note (fun _ => rfl) (chronicled_pure fun _ keeps => keeps _ _ taken)

/-- A method that a class finds is bound to an instance. -/
theorem chronicled_bound {c : Class} (sound : (Value.class c).Sound o h) {i : Instance}
    (receiver : (Value.instance i).Sound o h) (name : String) (line : Nat) :
    Chronicled o h (Value.Sound o) (bound (c.method? name) i name line) := by
  cases found : c.method? name with
  | none => exact chronicled_fail _ _
  | some method =>
    exact (Chronicled.creating (Eval.creates_binding sound found receiver)).bind fun _ _ _ new =>
      chronicled_value new

theorem chronicled_property {object : Value} (sound : object.Sound o h) (name : Name) :
    Chronicled o h (Value.Sound o) (property object name) := by
  cases object with
  | «instance» i =>
    refine .after_note (fun _ => rfl) (chronicled_of_agrees fun m later machine => ?_)
    rcases member_cases i name m with ⟨value, found, same⟩ | ⟨-, same⟩
    · exact ⟨_, same, chronicled_value (machine.heap.all.field? found)⟩
    · have sound' : (Value.instance i).Sound o m.heap := sound.mono later
      exact ⟨_, same, chronicled_bound sound'.of sound' name.lexeme name.line⟩
  | nil | bool | number | string | native | closure | «class» => exact chronicled_fail _ _

theorem chronicled_superMethod (id : NodeId) (line : Nat) (method : String) :
    Chronicled o h (Value.Sound o) (superMethod id line method) := by
  refine chronicled_of_agrees fun m later machine => ?_
  rcases superMethod_cases id line method m with
    ⟨_, parent, i, -, above, receiver, same⟩ | ⟨cause, same⟩
  · exact ⟨_, same, chronicled_bound (machine.heap.all.getAt? above)
      (machine.heap.all.getAt? receiver) method line⟩
  · exact ⟨_, same, chronicled_fail cause line⟩

/-- Around the methods of a class lies the current frame, or one inside it that binds `super`. -/
theorem chronicled_methodFrame (name : Name) (parent : Option Superclass)
    (methods : List FunctionDecl) {above? : Option Class}
    (above : ∀ c ∈ above?, (Value.class c).Sound o h) :
    Chronicled o h (fun h' frame => h'.kind? frame = some .frame)
      (methodFrame name parent methods above?) := by
  cases above? with
  | none => exact fun m _ machine => ⟨.nil (.refl m.heap), machine, machine.current⟩
  | some c =>
    have creates := Eval.creates_superclass (above c rfl)
    cases parent with
    | some parent => exact chronicled_opened creates (·.current)
    | none =>
      exact (Chronicled.creating creates).bind fun _ _ _ taken =>
        chronicled_pure fun _ keeps => keeps _ _ taken

theorem chronicled_declareClass {name : Name} (identifier : name.IsIdentifier)
    (parent : Option Superclass) {methods : List FunctionDecl} (own : ∀ f ∈ methods, f.From o) :
    Chronicled o h (fun _ _ => True) (declareClass name parent methods) := by
  have looked : Chronicled o h (fun h' c? => ∀ c ∈ c?, (Value.class c).Sound o h')
      (superclass? parent) := by
    cases parent with
    | none => exact chronicled_pure fun _ _ => nofun
    | some parent => exact .after_note (fun _ => rfl) (chronicled_superclass? (some parent))
  refine looked.bind fun _ above? _ above => ?_
  refine (chronicled_methodFrame name parent methods above).bind fun _ frame later taken => ?_
  have above' : ∀ c ∈ above?, (Value.class c).Sound o _ := fun c inherits =>
    (above c inherits).mono later
  exact (Chronicled.creating (Eval.creates_class name.lexeme above' taken own)).bind
    fun _ c _ sound => chronicled_define identifier sound

theorem chronicled_declareFunction {declaration : FunctionDecl} (code : declaration.From o) :
    Chronicled o h (fun _ _ => True) (declareFunction declaration) := by
  refine chronicled_of_agrees fun m _ machine => ?_
  have created := Chronicled.creating (Eval.creates_function code machine.current)
  refine ⟨_, ?_, created.bind fun _ f _ sound => chronicled_define code.name.isIdentifier sound⟩
  rfl

end Traced

end Lox
