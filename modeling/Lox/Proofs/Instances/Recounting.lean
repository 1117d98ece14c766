import Lox.Proofs.Instances.Fields
import Lox.Proofs.Instances.Telling

/-!
# Runs are recounted by their deeds

The deeds of every run make a story from the heap that it starts with to the heap that it leaves.
`Traced.Recounts` says this of a traced computation and the deeds that are noted of it. Its
operations either leave all fields alone (`Eval.Calms`) or are deeds, and the evaluator follows by
induction on the bound.

Two things are needed of what is run: that it declares and assigns identifiers alone, so that no
`this` is replaced, which is known from where code comes from (`tracing`); and that the instances
whose fields it sets are there.
-/

set_option autoImplicit false

namespace Lox

variable {α β : Type} {o : Origin} {h : Heap}

/-! ## Operations that leave the fields alone -/

namespace Eval

/-- A result that leaves the fields of a heap alone, with instances that are there. -/
def Calmly (fine : Heap → α → Prop) (h : Heap) : EStateM.Result Stop Machine α → Prop
  | .ok a m => h.Settles m.heap ∧ fine m.heap a
  | .error _ m => h.Settles m.heap

/-- Whether a computation leaves all fields alone, on every heap that is later than a given one. -/
def Calms (h : Heap) (fine : Heap → α → Prop) (x : Eval α) : Prop :=
  ∀ m : Machine, h.Lasts m.heap → m.heap.Standing → Calmly fine m.heap (x m)

variable {fine : Heap → α → Prop} {good : Heap → β → Prop}

theorem calms_pure {a : α} (holds : ∀ h', h.Lasts h' → fine h' a) : Calms h fine (pure a) :=
  fun m lasts standing => ⟨.refl standing, holds m.heap lasts⟩

theorem calms_fail (cause : RuntimeError.Cause) (line : Nat) :
    Calms h fine (fail cause line : Eval α) :=
  fun _ _ standing => .refl standing

theorem Calms.bind {x : Eval α} {f : α → Eval β} (first : Calms h fine x)
    (second : ∀ h' a, h.Lasts h' → fine h' a → Calms h' good (f a)) : Calms h good (x >>= f) := by
  intro m lasts standing
  have before := first m lasts standing
  rw [bind_eq]
  cases ran : x m with
  | error stop m' =>
    rw [ran] at before
    exact before
  | ok a m' =>
    rw [ran] at before
    obtain ⟨settles, holds⟩ := before
    have rest := second m'.heap a (lasts.trans settles.calm.toLasts) holds m' (.refl m'.heap)
      settles.standing
    dsimp only
    cases ran' : f a m' with
    | error stop m'' =>
      rw [ran'] at rest
      exact settles.trans rest
    | ok b m'' =>
      rw [ran'] at rest
      exact ⟨settles.trans rest.1, rest.2⟩

/-- What only writes leaves the heap as it is. -/
theorem calms_of_leaves {x : Eval Unit} (same : ∀ m, (x.leaves m).heap = m.heap) :
    Calms h (fun _ _ => True) x := by
  intro m _ standing
  have here := same m
  unfold leaves at here
  cases ran : x m with
  | ok a m' =>
    rw [ran] at here
    have unchanged : m'.heap = m.heap := here
    refine ⟨?_, trivial⟩
    rw [unchanged]
    exact .refl standing
  | error stop m' =>
    rw [ran] at here
    have unchanged : m'.heap = m.heap := here
    show m.heap.Settles m'.heap
    rw [unchanged]
    exact .refl standing

theorem calms_create {f : Heap → α × Heap}
    (creates : ∀ h' : Heap, h.Lasts h' → h'.Standing →
      h'.Settles (f h').2 ∧ fine (f h').2 (f h').1) : Calms h fine (create f) :=
  fun m lasts standing => creates m.heap lasts standing

theorem calms_orFail (line : Nat) {result : Except RuntimeError.Cause α}
    (holds : ∀ a, result = .ok a → ∀ h', h.Lasts h' → fine h' a) :
    Calms h fine (orFail line result) := by
  cases result with
  | ok a => exact calms_pure (holds a rfl)
  | error cause => exact calms_fail cause line

theorem calms_lookUp (id : NodeId) (name : String) (line : Nat) :
    Calms h Value.Stands (lookUp id name line) := by
  intro m _ standing
  rcases lookUp_cases id name line m with ⟨frame, value, -, found, same⟩ | same
  · rw [same]
    exact ⟨.refl standing, Heap.All.read? standing found⟩
  · rw [same]
    exact .refl standing

theorem calms_assign (id : NodeId) {name : Name} (identifier : name.IsIdentifier) {value : Value}
    (stands : value.Stands h) : Calms h (fun _ _ => True) (assign id name value) := by
  intro m lasts standing
  rcases assign_cases id name value m with ⟨frame, -, same⟩ | ⟨-, same⟩
  · rw [same]
    exact ⟨.define standing frame identifier.spared (stands.lasts lasts), trivial⟩
  · rw [same]
    exact .refl standing

theorem calms_define {name : Name} (identifier : name.IsIdentifier) {value : Value}
    (stands : value.Stands h) : Calms h (fun _ _ => True) (define name.lexeme value) :=
  fun m lasts standing =>
    ⟨.define standing m.current identifier.spared (stands.lasts lasts), trivial⟩

theorem calms_print (value : Value) (line : Nat) : Calms h (fun _ _ => True) (print value line) := by
  refine calms_of_leaves fun m => ?_
  obtain ⟨sink, same⟩ := leaves_writeAll line (value.parts ++ ["\n"]) m
  unfold print
  rw [same]

theorem calms_callNative (f : Native) {arguments : List Value}
    (stand : ∀ value ∈ arguments, value.Stands h) (line : Nat) :
    Calms h Value.Stands (callNative f arguments line) := by
  have looked : Calms h (fun _ _ => True) (readClock f) :=
    fun m _ standing => ⟨.refl standing, trivial⟩
  refine looked.bind fun h' reading lasts _ => calms_orFail line fun value ok h'' lasts' => ?_
  exact (Native.call_cases ok).elim Value.stands_of_isData fun member =>
    (stand value member).lasts (lasts.trans lasts')

theorem calms_checkCall (callee : Value) (count line : Nat) :
    Calms h (fun _ _ => True) (checkCall callee count line) := by
  unfold checkCall
  split
  · exact calms_fail _ line
  · split
    · exact calms_pure fun _ _ => trivial
    · exact calms_fail _ line

theorem calms_result (f : Closure) (line : Nat) {completion : Completion}
    (returned : completion.Stands h) : Calms h Value.Stands (result f line completion) := by
  intro m lasts standing
  rcases result_cases f line completion m with
    ⟨value, -, receiver, same⟩ | ⟨-, -, same⟩ | ⟨value, -, ended, same⟩ | ⟨-, -, same⟩
  · exact same ▸ ⟨.refl standing, Heap.All.read? standing receiver⟩
  · exact same ▸ .refl standing
  · exact same ▸ ⟨.refl standing, (returned value ended).lasts lasts⟩
  · exact same ▸ ⟨.refl standing, trivial⟩

/-- A new instance is there, with no fields yet. -/
theorem calms_newInstance (c : Class) :
    Calms h (fun h' i => (Value.instance i).Stands h') (create (·.newInstance c)) := by
  refine calms_create fun h' _ standing => ⟨.allocate standing ?_ nofun, ?_⟩
  · rintro _ ⟨⟩
    rfl
  · have found : (h'.newInstance c).2.fields? (h'.newInstance c).1.id = some .empty :=
      Heap.fields?_eq_some.mpr ((Heap.cells_allocate h' _ _).trans (if_pos rfl))
    show ((h'.newInstance c).2.fields? (h'.newInstance c).1.id).isSome = true
    rw [found]
    rfl

/-- A function or a class that is created takes a cell that holds nothing. -/
theorem calms_identity {f : Heap → α × Heap}
    (makes : ∀ h' : Heap, (f h').2 = (h'.allocate .identity).2) :
    Calms h (fun _ _ => True) (create f) := by
  refine calms_create fun h' _ standing => ⟨?_, trivial⟩
  rw [makes]
  exact .allocate standing (by rintro _ ⟨⟩) trivial

theorem calms_declareFunction {declaration : FunctionDecl}
    (identifier : declaration.name.IsIdentifier) :
    Calms h (fun _ _ => True) (declareFunction declaration) := by
  intro m
  have made : Calms h (fun _ _ => True) (create (·.newClosure declaration m.current false)) :=
    calms_identity fun _ => rfl
  refine made.bind (fun h' f _ _ => ?_) m
  have stands : (Value.closure f).Stands h' := trivial
  exact calms_define identifier stands

/-- The last part of a class statement. -/
theorem calms_newClass {name : Name} (identifier : name.IsIdentifier) (above : Option Class)
    (frame : Address) (methods : List FunctionDecl) :
    Calms h (fun _ _ => True) (do
      let c ← create (·.newClass name.lexeme above frame methods)
      define name.lexeme (.class c)) := by
  have made : Calms h (fun _ _ => True) (create (·.newClass name.lexeme above frame methods)) :=
    calms_identity fun _ => rfl
  refine made.bind fun h' c _ _ => ?_
  have stands : (Value.class c).Stands h' := trivial
  exact calms_define identifier stands

theorem calms_superclass? (parent : Option Superclass) :
    Calms h (fun _ _ => True) (superclass? parent) := by
  cases parent with
  | none => exact calms_pure fun _ _ => trivial
  | some parent =>
    refine (calms_lookUp parent.id parent.name.lexeme parent.name.line).bind fun _ value _ _ => ?_
    cases value with
    | «class» c => exact calms_pure fun _ _ => trivial
    | nil | bool | number | string | native | closure | «instance» => exact calms_fail _ _

theorem calms_methodFrame (above : Option Class) :
    Calms h (fun _ _ => True) (methodFrame above) := by
  intro m _ standing
  cases above with
  | none => exact ⟨.refl standing, trivial⟩
  | some c =>
    have holds : (Cell.frame ⟨Bindings.empty.set "super" (.class c), some m.current⟩).All
        (Value.Stands m.heap) := Bindings.forall_single (P := Value.Stands m.heap) trivial
    exact ⟨.allocate standing (by rintro _ ⟨⟩) holds, trivial⟩

/-- A frame that is opened takes a cell. -/
theorem calms_opened {x : Eval Address}
    (opens : ∀ m : Machine, h.Lasts m.heap → ∃ frame : Frame,
      (Cell.frame frame).All (Value.Stands m.heap) ∧
        x m = .ok m.heap.cells.size { m with heap := (m.heap.allocate (.frame frame)).2 }) :
    Calms h (fun _ _ => True) x := by
  intro m lasts standing
  obtain ⟨frame, holds, same⟩ := opens m lasts
  rw [same]
  exact ⟨.allocate standing (by rintro _ ⟨⟩) holds, trivial⟩

theorem calms_openBlock : Calms h (fun _ _ => True) openBlock :=
  calms_opened fun m _ => ⟨⟨.empty, some m.current⟩, nofun, rfl⟩

theorem calms_enterFunction (f : Closure) {arguments : List Value}
    (stand : ∀ value ∈ arguments, value.Stands h) :
    Calms h (fun _ _ => True) (enterFunction f arguments) :=
  calms_opened fun _ lasts => ⟨⟨_, some f.frame⟩,
    Bindings.forall_parameters f.declaration.params arguments
      (fun value member => (stand value member).lasts lasts) .empty nofun, rfl⟩

/-- Where a frame is opened that holds code of certain tokens, the code stays theirs. -/
theorem Opens.traces {x : Eval Address} (opens : Opens o x) :
    Traces o none nothing (fun _ => True) x := by
  intro m code
  obtain ⟨frame, good, same⟩ := opens m
  rw [same]
  exact ⟨.heap (code.allocate good) (.allocate _ _ _ _), trivial⟩

end Eval

/-! ## Computations and their deeds -/

/-- Whether some deeds lead from a heap to another one, and all instances there have fields. -/
structure Heap.Comes (h : Heap) (deeds : List Deed) (h' : Heap) : Prop where
  story : Story h deeds h'
  standing : h'.Standing

namespace Heap.Comes

variable {h₁ h₂ : Heap} {deeds more : List Deed}

theorem append (first : h.Comes deeds h₁) (second : h₁.Comes more h₂) :
    h.Comes (deeds ++ more) h₂ :=
  ⟨first.story.append second.story, second.standing⟩

/-- A deed that makes nothing leaves the heap as it is. -/
theorem deed {deed : Deed} (machine : deed.machine.heap = h) (made : deed.made = h)
    (founded : deed.Founded) (standing : h.Standing) : h.Comes [deed] h := by
  refine ⟨.cons ?_ founded (.nil ?_), standing⟩
  · rw [machine]
    exact .refl _
  · rw [made]
    exact .refl _

/-- Nothing is done where the fields are left alone. -/
theorem of_settles (settles : h.Settles h₁) : h.Comes [] h₁ :=
  ⟨.nil settles.calm, settles.standing⟩

end Heap.Comes

namespace Traced

/-- A result that is reached by deeds. -/
def Recounted (fine : Heap → α → Prop) (h : Heap) (deeds : List Deed) :
    EStateM.Result Stop Machine α → Prop
  | .ok a m => h.Comes deeds m.heap ∧ fine m.heap a
  | .error _ m => h.Comes deeds m.heap

/-- Whether the deeds that are noted of a computation lead to its result, on every heap that is later
than a given one. -/
def Recounts (o : Origin) (h : Heap) (fine : Heap → α → Prop) (x : Traced α) : Prop :=
  ∀ m : Machine, h.Lasts m.heap → m.heap.From o → m.heap.Standing →
    Recounted fine m.heap (x.heard Note.deed? m) (x.plain m)

/-- Whether a computation does nothing, on every heap that is later than a given one. -/
def Rests (h : Heap) (fine : Heap → α → Prop) (x : Traced α) : Prop :=
  ∀ m : Machine, h.Lasts m.heap → m.heap.Standing →
    Recounted fine m.heap (x.heard Note.deed? m) (x.plain m) ∧ x.heard Note.deed? m = []

section

variable {fine : Heap → α → Prop} {good : Heap → β → Prop} {made : α → Prop}
  {x : Traced α} {y : Eval α} {f : α → Traced β}
  {frame? : Option Address} {names : String → Prop} {h₁ : Heap} {ds ds' : List Deed}

/-- What is reached from a heap that was reached is reached. -/
theorem Recounted.from_reached (first : h.Comes ds h₁) {result : EStateM.Result Stop Machine α}
    (second : Recounted fine h₁ ds' result) : Recounted fine h (ds ++ ds') result := by
  cases result with
  | ok a m => exact ⟨first.append second.1, second.2⟩
  | error stop m => exact first.append second

/-- The deeds lead to the heap that is left. -/
theorem Recounted.comes {m : Machine} (recounted : Recounted fine h ds (y m)) :
    h.Comes ds (y.leaves m).heap := by
  unfold Eval.leaves
  cases ran : y m with
  | ok a m' =>
    rw [ran] at recounted
    exact recounted.1
  | error stop m' =>
    rw [ran] at recounted
    exact recounted

/-- Only the heap of the machine matters. -/
theorem Recounted.onMachine {result : EStateM.Result Stop Machine α}
    (recounted : Recounted fine h ds result) {change : Machine → Machine}
    (same : ∀ m, (change m).heap = m.heap) :
    Recounted fine h ds (Eval.onMachine change result) := by
  cases result with
  | ok a m =>
    show h.Comes ds (change m).heap ∧ fine (change m).heap a
    rw [same]
    exact recounted
  | error stop m =>
    show h.Comes ds (change m).heap
    rw [same]
    exact recounted

/-- What follows a computation is recounted where the computation gives a value. -/
theorem Recounted.bind {m : Machine}
    (first : Recounted fine m.heap (x.heard Note.deed? m) (x.plain m))
    (second : ∀ a m', x.plain m = .ok a m' → m.heap.Comes (x.heard Note.deed? m) m'.heap →
      fine m'.heap a → Recounted good m'.heap ((f a).heard Note.deed? m') ((f a).plain m')) :
    Recounted good m.heap ((x >>= f).heard Note.deed? m) ((x >>= f).plain m) := by
  rw [Told.heard_bind, Told.plain_bind, Eval.bind_eq]
  cases ran : x.plain m with
  | error stop m' =>
    rw [ran] at first
    dsimp only
    rw [List.append_nil]
    exact first
  | ok a m' =>
    rw [ran] at first
    exact .from_reached first.1 (second a m' ran first.1 first.2)

theorem rests_of_silent (silent : x.Silent Note.deed?) (calms : Eval.Calms h fine x.plain) :
    Rests h fine x := by
  intro m lasts standing
  have ended := calms m lasts standing
  refine ⟨?_, silent m⟩
  rw [silent m]
  cases ran : x.plain m with
  | ok a m' =>
    rw [ran] at ended
    exact ⟨.of_settles ended.1, ended.2⟩
  | error stop m' =>
    rw [ran] at ended
    exact .of_settles ended

theorem rests_lift (calms : Eval.Calms h fine y) : Rests h fine (Told.lift y) :=
  rests_of_silent (Told.silent_lift y) calms

theorem rests_pure {a : α} (holds : ∀ h', h.Lasts h' → fine h' a) : Rests h fine (pure a) :=
  rests_of_silent (Told.silent_pure a) (Eval.calms_pure holds)

theorem rests_fail (cause : RuntimeError.Cause) (line : Nat) :
    Rests h fine (Told.lift (Eval.fail cause line)) :=
  rests_lift (Eval.calms_fail cause line)

theorem rests_exhausted : Rests h fine (Told.lift (throw .exhausted)) :=
  rests_lift fun _ _ standing => .refl standing

theorem Rests.bind (first : Rests h fine x)
    (second : ∀ h' a, h.Lasts h' → fine h' a → Rests h' good (f a)) : Rests h good (x >>= f) := by
  intro m lasts standing
  obtain ⟨told, nothing⟩ := first m lasts standing
  have rest (a : α) (m' : Machine) (reached : m.heap.Comes (x.heard Note.deed? m) m'.heap)
      (holds : fine m'.heap a) :=
    second m'.heap a (lasts.trans reached.story.lasts) holds m' (.refl _) reached.standing
  refine ⟨told.bind fun a m' _ reached holds => (rest a m' reached holds).1, ?_⟩
  rw [Told.heard_bind, nothing, List.nil_append]
  cases ran : x.plain m with
  | error stop m' => rfl
  | ok a m' =>
    rw [ran] at told
    exact (rest a m' told.1 told.2).2

theorem Rests.recounts (rests : Rests h fine x) : Recounts o h fine x :=
  fun m lasts _ standing => (rests m lasts standing).1

/-- The second part may rely on what the first part gives. -/
theorem Recounts.bind (first : Recounts o h fine x) (traces : x.plain.Traces o frame? names made)
    (second : ∀ h' a, h.Lasts h' → made a → fine h' a → Recounts o h' good (f a)) :
    Recounts o h good (x >>= f) := by
  intro m lasts code standing
  have traced := traces m code
  refine (first m lasts code standing).bind fun a m' ran reached holds => ?_
  rw [ran] at traced
  exact second m'.heap a (lasts.trans reached.story.lasts) traced.2 holds m' (.refl _)
    traced.1.code reached.standing

/-- After a computation that does nothing the rest is recounted. -/
theorem Recounts.after (rests : Rests h fine x) (traces : x.plain.Traces o none nothing made)
    (second : ∀ h' a, h.Lasts h' → made a → fine h' a → Recounts o h' good (f a)) :
    Recounts o h good (x >>= f) :=
  rests.recounts.bind traces second

/-- A part that does nothing adds nothing. -/
theorem Recounts.followed (first : Recounts o h fine x)
    (second : ∀ h' a, h.Lasts h' → fine h' a → Rests h' good (f a)) :
    Recounts o h good (x >>= f) := by
  intro m lasts code standing
  refine (first m lasts code standing).bind fun a m' _ reached holds => ?_
  exact (second m'.heap a (lasts.trans reached.story.lasts) holds m' (.refl _)
    reached.standing).1

/-- A note that is no deed makes no difference. -/
theorem Recounts.after_note {tell : Machine → Note} (rest : Recounts o h fine x)
    (silent : ∀ m, (tell m).deed? = none) :
    Recounts o h fine (Told.note tell >>= fun _ => x) := by
  intro m lasts code standing
  rw [Told.heard_note_bind silent]
  exact rest m lasts code standing

/-- A deed that makes nothing is done before the rest. -/
theorem Recounts.deed {tell : Machine → Note} {deed : Machine → Deed}
    (noted : ∀ m, (tell m).deed? = some (deed m))
    (still : ∀ m, (deed m).machine = m ∧ (deed m).made = m.heap) (founded : ∀ m, (deed m).Founded)
    (rest : Recounts o h fine x) : Recounts o h fine (Told.note tell >>= fun _ => x) := by
  intro m lasts code standing
  obtain ⟨machine, made⟩ := still m
  have first : [tell m].filterMap Note.deed? = [deed m] := by
    rw [List.filterMap_cons, noted]
    rfl
  rw [Told.heard_bind, Told.heard_note, first]
  have here : m.heap.Comes [deed m] m.heap := .deed (by rw [machine]) made (founded m) standing
  exact .from_reached here (rest m lasts code standing)

/-- A use is noted, and then the rest is recounted. -/
theorem Recounts.use (access : Access) (rest : Recounts o h fine x) :
    Recounts o h fine (Told.note (.uses access) >>= fun _ => x) :=
  .deed (fun _ => rfl) (fun _ => ⟨rfl, rfl⟩) (fun _ => trivial) rest

/-- A frame that was opened is noted, and then the rest is recounted. -/
theorem Recounts.open {site : Site} (other : site.isReceiver = false) (frame : Address)
    (around : Machine → Address) (rest : Recounts o h fine x) :
    Recounts o h fine (Told.note (fun m => .opens site frame (around m) m) >>= fun _ => x) :=
  .deed (fun _ => rfl) (fun _ => ⟨rfl, rfl⟩) (fun _ => other) rest

/-- An expression or a statement is a deed when it is entered, and none when it is left. -/
theorem Recounts.within {before : Machine → Note} {after : Option α → Machine → Note}
    {deed : Machine → Deed} (noted : ∀ m, (before m).deed? = some (deed m))
    (still : ∀ m, (deed m).machine = m ∧ (deed m).made = m.heap) (founded : ∀ m, (deed m).Founded)
    (silent : ∀ a m, (after a m).deed? = none) (inside : Recounts o h fine x) :
    Recounts o h fine (Told.enclosed before after x) := by
  intro m lasts code standing
  have whole := Recounts.deed noted still founded inside m lasts code standing
  rw [Told.heard_bind] at whole
  rw [Told.heard_enclosed_begun silent, Told.plain_enclosed]
  exact whole

theorem Recounts.inFrame (frame : Address) (inside : Recounts o h fine x) :
    Recounts o h fine (Told.inFrame frame x) := by
  intro m lasts code standing
  rw [Told.plain_inFrame, Eval.inFrame_eq frame x.plain m]
  exact (inside { m with current := frame } lasts code standing).onMachine fun _ => rfl

theorem Recounts.carryOut (site : CallSite) (callee : Value) (declaration : FunctionDecl)
    (inside : Recounts o h fine x) :
    Recounts o h fine (carryOut site callee declaration x) := by
  intro m lasts code standing
  rcases carryOut_cases Note.deed? (fun _ _ _ => rfl) (fun _ _ => rfl) (fun _ => rfl) site callee
    declaration x m with ⟨nothing, same⟩ | ⟨heard, same⟩
  · have failed : Rests h fine (Told.lift (Eval.fail .stackOverflow site.line)) := rests_fail _ _
    rw [nothing, same]
    exact (failed m lasts standing).1
  · rw [heard, same]
    exact (inside { m with depth := m.depth + 1 } lasts code standing).onMachine fun _ => rfl

/-! ### Methods that are bound -/

/-- A method that is bound is a deed. -/
theorem recounts_bindMethod (method : Method) {i : Instance}
    (receiver : (Value.instance i).Stands h) :
    Recounts o h (fun _ f => f.declaration = method.declaration) (bindMethod method i) := by
  intro m lasts _ standing
  have calm := Heap.Calm.bindMethod m.heap method i
  have standing' : (m.heap.bindMethod method i).2.Standing :=
    Heap.standing_of_lasts (Heap.All.bindMethod standing method (receiver.lasts lasts)) calm.toLasts
  have told : Story m.heap [.binds method i m] (m.heap.bindMethod method i).2 :=
    .cons (.refl _) trivial (.nil (.refl _))
  exact ⟨⟨told, standing'⟩, rfl⟩

theorem recounts_bound (method? : Option Method) {i : Instance}
    (receiver : (Value.instance i).Stands h) (property : String) (line : Nat) :
    Recounts o h Value.Stands (bound method? i property line) := by
  cases method? with
  | none => exact (rests_fail _ line).recounts
  | some method =>
    exact (recounts_bindMethod method receiver).followed fun _ f _ _ =>
      rests_pure fun _ _ => trivial

theorem recounts_property {object : Value} (receiver : object.Stands h) (name : Name) :
    Recounts o h Value.Stands (property object name) := by
  cases object with
  | «instance» i =>
    refine .deed (fun _ => rfl) (fun _ => ⟨rfl, rfl⟩) (fun _ => trivial) ?_
    intro m lasts code standing
    unfold Told.heard Told.told Told.plain
    rcases member_cases i name m with ⟨value, found, same⟩ | ⟨-, same⟩
    · have read : Rests m.heap Value.Stands (Told.lift (pure value)) :=
        rests_lift (Eval.calms_pure fun _ lasts' =>
          (Heap.All.field? (P := Value.Stands m.heap) standing found).lasts lasts')
      rw [same]
      exact (read m (.refl _) standing).1
    · rw [same]
      exact recounts_bound (i.of.method? name.lexeme) receiver name.lexeme name.line m lasts code
        standing
  | nil | bool | number | string | native | closure | «class» =>
    exact (rests_fail .readsPropertyOfNonInstance name.line).recounts

theorem recounts_superMethod (id : NodeId) (line : Nat) (method : String) :
    Recounts o h Value.Stands (superMethod id line method) := by
  intro m lasts code standing
  unfold Told.heard Told.told Told.plain
  rcases superMethod_cases id line method m with
    ⟨distance, parent, i, -, -, found, same⟩ | ⟨cause, same⟩
  · have receiver : (Value.instance i).Stands m.heap := Heap.All.getAt? standing found
    rw [same]
    exact recounts_bound (parent.method? method) receiver method line m (.refl _) code standing
  · have failed : Rests h Value.Stands (Told.lift (Eval.fail cause line)) := rests_fail cause line
    rw [same]
    exact (failed m lasts standing).1

/-- A property is set, and the value is given. -/
theorem recounts_setField {i : Instance} (there : (Value.instance i).Stands h) (name : Name)
    {value : Value} (stands : value.Stands h) :
    Recounts o h Value.Stands (do
      Told.note (.sets i name value)
      Told.lift (Eval.setField i name.lexeme value)
      return value) := by
  intro m lasts _ standing
  have changed := Heap.Lasts.setField m.heap i name.lexeme value
  have standing' : (m.heap.setField i name.lexeme value).Standing :=
    Heap.standing_of_lasts (Heap.All.setField standing i name.lexeme (stands.lasts lasts)) changed
  have told : Story m.heap [.sets i name value m] (m.heap.setField i name.lexeme value) :=
    .cons (.refl _) (there.lasts lasts) (.nil (.refl _))
  exact ⟨⟨told, standing'⟩, stands.lasts (lasts.trans changed)⟩

/-- A frame is opened, and a deed says so. -/
theorem recounts_opened {opening : Eval Address} {creation : Address → Creation} {site : Site}
    (silent : ∀ frame m, (Note.creates (creation frame) m).deed? = none)
    (other : site.isReceiver = false) (around : Machine → Address)
    (calms : Eval.Calms h (fun _ _ => True) opening)
    (traces : opening.Traces o none nothing fun _ => True) :
    Recounts o h (fun _ _ => True) (do
      let frame ← Told.telling opening fun frame => Note.creates (creation frame)
      Told.note fun m => .opens site frame (around m) m
      return frame) := by
  have created : Rests h (fun _ _ => True)
      (Told.telling opening fun frame => Note.creates (creation frame)) := by
    refine rests_of_silent (Told.silent_telling silent) ?_
    rw [Told.plain_telling]
    exact calms
  rw [← Told.plain_telling opening fun frame => Note.creates (creation frame)] at traces
  exact created.recounts.bind traces fun h₁ frame _ _ _ =>
    .open other frame around (rests_pure fun _ _ => trivial).recounts

/-- The frame around the methods of a class is opened after the superclass was looked up. -/
theorem recounts_declareClass {name : Name} (target : name.From o) {parent : Option Superclass}
    (above : ∀ above ∈ parent, above.name.From o) (methods : List FunctionDecl) :
    Recounts o h (fun _ _ => True) (declareClass name parent methods) := by
  -- Once the frame is there, only the class and its name are left.
  have made (above? : Option Class) (frame : Address) (h' : Heap) :
      Rests h' (fun _ _ => True) (do
        let c ← Told.telling (Eval.create (·.newClass name.lexeme above? frame methods))
          fun c => Note.creates (.class c)
        Told.lift (Eval.define name.lexeme (.class c))) := by
    refine rests_of_silent ((Told.silent_telling fun _ _ => rfl).bind fun _ => Told.silent_lift _) ?_
    simp only [Told.plain_bind, Told.plain_telling, Told.plain_lift]
    exact Eval.calms_newClass target.isIdentifier above? frame methods
  have looked : Recounts o h (fun _ _ => True) (superclass? parent) := by
    cases parent with
    | none => exact (rests_pure fun _ _ => trivial).recounts
    | some parent => exact .use parent.access (rests_lift (Eval.calms_superclass? _)).recounts
  have framed (above? : Option Class) (good : ∀ c ∈ above?, c.From o) (h' : Heap) :
      Recounts o h' (fun _ _ => True) (methodFrame name parent methods above?) := by
    cases above? with
    | none => exact (rests_lift (Eval.calms_methodFrame none)).recounts
    | some c =>
      have calms : Eval.Calms h' (fun _ _ => True) (Eval.methodFrame (some c)) :=
        Eval.calms_methodFrame (some c)
      cases parent with
      | some parent =>
        exact recounts_opened (fun _ _ => rfl) rfl (·.current) calms (Eval.traces_methodFrame good)
      | none =>
        refine (rests_of_silent ((Told.silent_telling fun _ _ => rfl).bind fun _ =>
          Told.silent_pure _) ?_).recounts
        simp only [Told.plain_bind, Told.plain_telling, Told.plain_pure]
        exact calms.bind fun _ _ _ _ => Eval.calms_pure fun _ _ => trivial
  have traced : (superclass? parent).plain.Traces o none nothing
      (fun above? => ∀ c ∈ above?, c.From o) := by
    rw [plain_superclass?]
    exact Eval.traces_superclass? above
  exact looked.bind traced fun h₁ above? _ good _ =>
    (framed above? good h₁).followed fun h₂ frame _ _ => made above? frame h₂

end

/-! ## The evaluator -/

/-- All functions of the traced evaluator are recounted by their deeds, within a bound. -/
structure Recounting (o : Origin) (bound : Nat) : Prop where
  evaluate (h : Heap) (e : Expr) : e.From o → Recounts o h Value.Stands (evaluate bound e)
  evaluateAll (h : Heap) (es : List Expr) : (∀ e ∈ es, e.From o) →
    Recounts o h (fun h values => ∀ value ∈ values, value.Stands h) (evaluateAll bound es)
  call (h : Heap) (site : CallSite) (callee : Value) (arguments : List Value) : callee.From o →
    (∀ value ∈ arguments, value.From o) → (∀ value ∈ arguments, value.Stands h) →
    o.HasLine site.line → Recounts o h Value.Stands (call bound site callee arguments)
  invoke (h : Heap) (site : CallSite) (callee : Value) (f : Closure) (arguments : List Value) :
    f.declaration.From o → (∀ value ∈ arguments, value.From o) →
    (∀ value ∈ arguments, value.Stands h) → o.HasLine site.line →
    Recounts o h Value.Stands (invoke bound site callee f arguments)
  execute (h : Heap) (s : Stmt) : s.From o → Recounts o h Completion.Stands (execute bound s)
  executeWhile (h : Heap) (condition : Expr) (body : Stmt) : condition.From o → body.From o →
    body.isPlain = true → Recounts o h Completion.Stands (executeWhile bound condition body)
  executeAll (h : Heap) (ss : List Stmt) : (∀ s ∈ ss, s.From o) →
    Recounts o h Completion.Stands (executeAll bound ss)

theorem rests_normal : Rests h Completion.Stands (pure .normal) :=
  rests_pure fun _ _ => Completion.stands_normal

theorem rests_value {value : Value} (stands : value.Stands h) :
    Rests h Value.Stands (pure value) :=
  rests_pure fun _ lasts => stands.lasts lasts

theorem rests_returned {value : Value} (stands : value.Stands h) :
    Rests h Completion.Stands (pure (.returned value)) :=
  rests_pure fun _ lasts => Completion.stands_returned (stands.lasts lasts)

namespace Recounting

variable {n : Nat}

theorem zero : Recounting o 0 := by
  constructor <;> intros <;> exact rests_exhausted.recounts

theorem evaluate_succ (inner : Recounting o n) (h : Heap) (e : Expr) (from_ : e.From o) :
    Recounts o h Value.Stands (Traced.evaluate (n + 1) e) := by
  -- That an expression is about to be evaluated changes nothing.
  refine .within (fun _ => rfl) (fun _ => ⟨rfl, rfl⟩) (fun _ => trivial) (fun _ _ => rfl) ?_
  cases e with
  | literal value =>
    exact (rests_value (Value.stands_of_isData (Value.isData_ofLiteral value))).recounts
  | grouping e => exact inner.evaluate h e from_
  | unary op right line =>
    exact (inner.evaluate h right from_.2).followed fun _ _ _ _ =>
      rests_lift (Eval.calms_orFail line fun _ ok _ _ =>
        Value.stands_of_isData (UnaryOp.isData_apply ok))
  | binary left op right line =>
    exact (inner.evaluate h left from_.2.1).bind (traces_evaluate from_.2.1)
      fun h' _ _ _ _ => (inner.evaluate h' right from_.2.2).followed fun _ _ _ _ =>
        rests_lift (Eval.calms_orFail line fun _ ok _ _ =>
          Value.stands_of_isData (BinaryOp.isData_apply ok))
  | logical left op right =>
    refine (inner.evaluate h left from_.1).bind (traces_evaluate from_.1)
      fun h' value _ _ stands => ?_
    by_cases stops : op.stopsAt value
    · simp only [stops, if_true]
      exact (rests_value stands).recounts
    · simp only [stops]
      exact inner.evaluate h' right from_.2
  | «variable» id name =>
    exact .use (.read id name) (rests_lift (Eval.calms_lookUp _ _ _)).recounts
  | assign id name value =>
    refine (inner.evaluate h value from_.2).bind (traces_evaluate from_.2)
      fun h' result _ _ stands => .use (.assign id name) ?_
    exact ((rests_lift (Eval.calms_assign id from_.1.isIdentifier stands)).bind
      fun _ _ lasts _ => rests_value (stands.lasts lasts)).recounts
  | call callee arguments line =>
    have all := Expr.allFrom_iff.mp from_.2.2
    refine (inner.evaluate h callee from_.2.1).bind (traces_evaluate from_.2.1)
      fun h₁ value _ good _ => ?_
    refine (inner.evaluateAll h₁ arguments all).bind (traces_evaluateAll all)
      fun h₂ values _ given stand => ?_
    exact .after (rests_lift (Eval.calms_checkCall _ _ _)) (Eval.traces_checkCall _ _ from_.1)
      fun h₃ _ lasts _ _ => inner.call h₃ ⟨callee, arguments, line⟩ value values good given
        (fun value member => (stand value member).lasts lasts) from_.1
  | get object name =>
    exact (inner.evaluate h object from_.2).bind (traces_evaluate from_.2)
      fun _ _ _ _ receiver => recounts_property receiver name
  | set object name value =>
    refine (inner.evaluate h object from_.2.1).bind (traces_evaluate from_.2.1)
      fun h₁ receiver _ _ there => ?_
    cases receiver with
    | «instance» i =>
      exact (inner.evaluate h₁ value from_.2.2).bind (traces_evaluate from_.2.2)
        fun _ _ lasts _ stands => recounts_setField (there.lasts lasts) name stands
    | nil | bool | number | string | native | closure | «class» =>
      exact (rests_fail .setsFieldOfNonInstance name.line).recounts
  | this id line => exact .use (.this id line) (rests_lift (Eval.calms_lookUp _ _ _)).recounts
  | super id line method =>
    exact .use (.super id line) (recounts_superMethod id line method.lexeme)

theorem evaluateAll_succ (inner : Recounting o n) (h : Heap) (es : List Expr)
    (from_ : ∀ e ∈ es, e.From o) :
    Recounts o h (fun h values => ∀ value ∈ values, value.Stands h)
      (Traced.evaluateAll (n + 1) es) := by
  cases es with
  | nil => exact (rests_pure fun _ _ _ member => absurd member List.not_mem_nil).recounts
  | cons e es =>
    obtain ⟨first, rest⟩ := List.forall_mem_cons.mp from_
    refine (inner.evaluate h e first).bind (traces_evaluate first) fun h₁ value _ _ stands => ?_
    refine (inner.evaluateAll h₁ es rest).followed fun h₂ values later stand => ?_
    refine rests_pure fun h₃ lasts => List.forall_mem_cons.mpr ⟨?_, fun value member => ?_⟩
    · exact stands.lasts (later.trans lasts)
    · exact (stand value member).lasts lasts

theorem call_succ (inner : Recounting o n) (h : Heap) (site : CallSite) (callee : Value)
    (arguments : List Value) (good : callee.From o) (given : ∀ value ∈ arguments, value.From o)
    (stand : ∀ value ∈ arguments, value.Stands h) (here : o.HasLine site.line) :
    Recounts o h Value.Stands (Traced.call (n + 1) site callee arguments) := by
  cases callee with
  | native f =>
    exact (rests_lift (Eval.calms_callNative f stand site.line)).recounts.after_note fun _ => rfl
  | closure f => exact inner.invoke h site _ f arguments good given stand here
  | «class» c =>
    refine Recounts.after_note ?_ fun _ => rfl
    have created : (newInstance c).plain.Traces o none nothing (fun i => i.of = c) := by
      rw [plain_newInstance]
      exact Eval.traces_create fun h code => ⟨rfl, code.allocate nofun, fun a => .allocate h _ a _⟩
    have rests : Rests h (fun h' i => (Value.instance i).Stands h') (newInstance c) := by
      refine rests_of_silent (Told.silent_telling fun _ _ => rfl) ?_
      rw [plain_newInstance]
      exact Eval.calms_newInstance c
    refine .after rests created fun h₁ i lasts same receiver => ?_
    cases found : c.method? initializerName with
    | none => exact (rests_value receiver).recounts.after_note fun _ => rfl
    | some method =>
      have good' : method.declaration.From o := Class.From.method? good found
      have receiver' : i.of.From o := by
        rw [same]
        exact good
      have bound : (bindMethod method i).plain.Traces o none nothing
          (fun f => f.declaration.From o) := by
        rw [plain_bindMethod]
        exact Eval.traces_bindMethod good' receiver'
      refine (recounts_bindMethod method receiver).bind bound fun h₂ init lasts' code _ => ?_
      -- What was held before the instance was made is held in the heaps after it, too.
      refine (inner.invoke h₂ site (.class c) init arguments code given (fun value member =>
        (stand value member).lasts (lasts.trans lasts')) here).followed fun h₃ _ lasts'' _ => ?_
      exact rests_value (receiver.lasts (lasts'.trans lasts''))
  | nil | bool | number | string | «instance» => exact (rests_fail .notCallable site.line).recounts

theorem recounts_enterFunction (f : Closure) {arguments : List Value}
    (given : ∀ value ∈ arguments, value.From o) (stand : ∀ value ∈ arguments, value.Stands h) :
    Recounts o h (fun _ _ => True) (enterFunction f arguments) :=
  recounts_opened (fun _ _ => rfl) rfl (fun _ => f.frame) (Eval.calms_enterFunction f stand)
    (Eval.opens_function f given).traces

theorem invoke_succ (inner : Recounting o n) (h : Heap) (site : CallSite) (callee : Value)
    (f : Closure) (arguments : List Value) (good : f.declaration.From o)
    (given : ∀ value ∈ arguments, value.From o) (stand : ∀ value ∈ arguments, value.Stands h) :
    Recounts o h Value.Stands (Traced.invoke (n + 1) site callee f arguments) := by
  refine Recounts.after_note ?_ fun _ => rfl
  have entered : (enterFunction f arguments).plain.Traces o none nothing fun _ => True := by
    rw [plain_enterFunction]
    exact (Eval.opens_function f given).traces
  refine (recounts_enterFunction f given stand).bind entered fun h₁ frame _ _ _ => ?_
  have body := inner.executeAll h₁ f.declaration.body (Stmt.allFrom_iff.mp good.body)
  exact ((body.inFrame frame).carryOut site callee f.declaration).followed
    fun _ completion _ returned => rests_lift (Eval.calms_result f site.line returned)

theorem execute_succ (inner : Recounting o n) (h : Heap) (s : Stmt) (from_ : s.From o) :
    Recounts o h Completion.Stands (Traced.execute (n + 1) s) := by
  refine .within (fun _ => rfl) (fun _ => ⟨rfl, rfl⟩) (fun _ => trivial) (fun _ _ => rfl) ?_
  cases s with
  | expression e => exact (inner.evaluate h e from_).followed fun _ _ _ _ => rests_normal
  | print e =>
    exact (inner.evaluate h e from_.1).followed fun _ value _ _ =>
      (rests_lift (Eval.calms_print value e.line)).bind fun _ _ _ _ => rests_normal
  | var name initializer =>
    cases initializer with
    | none =>
      have nil : Value.nil.Stands h := trivial
      exact ((rests_lift (Eval.calms_define from_.1.isIdentifier nil)).bind
        fun _ _ _ _ => rests_normal).recounts
    | some e =>
      exact (inner.evaluate h e from_.2).followed fun _ value _ stands =>
        (rests_lift (Eval.calms_define from_.1.isIdentifier stands)).bind
          fun _ _ _ _ => rests_normal
  | block body =>
    have opened : Recounts o h (fun _ _ => True) (openBlock body) :=
      recounts_opened (fun _ _ => rfl) rfl (·.current) Eval.calms_openBlock Eval.opens_block.traces
    refine opened.bind (?_ : (openBlock body).plain.Traces o none nothing fun _ => True)
      fun h₁ frame _ _ _ => (inner.executeAll h₁ body (Stmt.allFrom_iff.mp from_)).inFrame frame
    rw [plain_openBlock]
    exact Eval.opens_block.traces
  | «if» condition thenBranch elseBranch =>
    refine (inner.evaluate h condition from_.1).bind (traces_evaluate from_.1)
      fun h₁ value _ _ _ => ?_
    by_cases holds : value.isTruthy
    · simp only [holds, if_true]
      exact inner.execute h₁ thenBranch from_.2.1.1
    · simp only [holds]
      cases elseBranch with
      | none => exact rests_normal.recounts
      | some s => exact inner.execute h₁ s from_.2.2.1
  | «while» condition body =>
    exact inner.executeWhile h condition body from_.1 from_.2.1 from_.2.2
  | function declaration =>
    have declared : Rests h (fun _ _ => True) (declareFunction declaration) := by
      refine rests_of_silent (silent_declareFunction (fun _ _ => rfl) declaration) ?_
      rw [plain_declareFunction]
      exact Eval.calms_declareFunction from_.name.isIdentifier
    exact (declared.bind fun _ _ _ _ => rests_normal).recounts
  | «return» line value =>
    cases value with
    | none =>
      have nil : Value.nil.Stands h := trivial
      exact (rests_returned nil).recounts
    | some e =>
      exact (inner.evaluate h e from_).followed fun _ _ _ stands => rests_returned stands
  | «class» name parent methods =>
    exact (recounts_declareClass from_.1 from_.2.1 methods).followed fun _ _ _ _ => rests_normal

theorem executeWhile_succ (inner : Recounting o n) (h : Heap) (condition : Expr) (body : Stmt)
    (test : condition.From o) (from_ : body.From o) (plain : body.isPlain = true) :
    Recounts o h Completion.Stands (Traced.executeWhile (n + 1) condition body) := by
  refine (inner.evaluate h condition test).bind (traces_evaluate test) fun h₁ value _ _ _ => ?_
  by_cases holds : value.isTruthy
  · simp only [holds, if_true]
    refine (inner.execute h₁ body from_).bind (traces_execute from_)
      fun h₂ completion _ _ returned => ?_
    cases completion with
    | normal => exact inner.executeWhile h₂ condition body test from_ plain
    | returned value => exact (rests_returned (returned value rfl)).recounts
  · simp only [holds]
    exact rests_normal.recounts

theorem executeAll_succ (inner : Recounting o n) (h : Heap) (ss : List Stmt)
    (from_ : ∀ s ∈ ss, s.From o) :
    Recounts o h Completion.Stands (Traced.executeAll (n + 1) ss) := by
  cases ss with
  | nil => exact rests_normal.recounts
  | cons s ss =>
    obtain ⟨first, rest⟩ := List.forall_mem_cons.mp from_
    refine (inner.execute h s first).bind (traces_execute first)
      fun h₁ completion _ _ returned => ?_
    cases completion with
    | normal => exact inner.executeAll h₁ ss rest
    | returned value => exact (rests_returned (returned value rfl)).recounts

theorem succ (inner : Recounting o n) : Recounting o (n + 1) :=
  ⟨inner.evaluate_succ, inner.evaluateAll_succ, inner.call_succ,
    fun h site callee f arguments good given stand _ =>
      inner.invoke_succ h site callee f arguments good given stand,
    inner.execute_succ, inner.executeWhile_succ, inner.executeAll_succ⟩

end Recounting

/-- **Every run is recounted by its deeds**, within any bound. -/
theorem recounting (o : Origin) (bound : Nat) : Recounting o bound := by
  induction bound with
  | zero => exact .zero
  | succ n ih => exact ih.succ

theorem recounts_executeProgram (h : Heap) (bound : Nat) {program : List Stmt}
    (from_ : ∀ s ∈ program, s.From o) :
    Recounts o h (fun _ _ => True) (executeProgram bound program) := by
  induction program generalizing h with
  | nil => exact (rests_pure fun _ _ => trivial).recounts
  | cons s ss ih =>
    obtain ⟨first, rest⟩ := List.forall_mem_cons.mp from_
    exact ((recounting o bound).execute h s first).bind (traces_execute first)
      fun h₁ _ _ _ _ => ih h₁ rest

end Traced

end Lox
