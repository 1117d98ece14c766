import Lox.Proofs.Instances.Acts
import Lox.Proofs.Origin.Machines

/-!
# From one act to the next

A later heap has the cells of an earlier one, and what the earlier one has for `this` it has too. Each
act finds a heap that is later than what the acts before it made, so the acts of a run make a chain
(`Passes`). Chains are joined where one computation follows another.

Instances are made by calls of classes alone, and the only functions that are initializers are methods
that were bound. So an instance or an initializer that a value or a heap holds at some time is known:
one of the acts before has made or bound it (`Value.KnownTo`).

`Eval.Follows` says both of a traced computation and the acts that are noted of it, after those
before. A computation of which no acts are noted is steady: it only leaves a later heap.
-/

set_option autoImplicit false

namespace Lox

/-! ## Later heaps -/

/-- One heap is later than another: no cell was given up, and `this` and `super` are bound as
before. -/
structure Heap.Later (h h' : Heap) : Prop where
  retains : h.Retains h'
  size : h.cells.size ≤ h'.cells.size

namespace Heap.Later

variable {h h₁ h₂ : Heap}

theorem refl (h : Heap) : h.Later h := ⟨.refl h, Nat.le_refl _⟩

theorem trans (first : h.Later h₁) (second : h₁.Later h₂) : h.Later h₂ :=
  ⟨first.retains.trans second.retains, Nat.le_trans first.size second.size⟩

theorem allocate (h : Heap) (cell : Cell) : h.Later (h.allocate cell).2 :=
  ⟨.allocate h cell, (Array.size_push cell).symm ▸ Nat.le_succ _⟩

theorem define (h : Heap) (a : Address) {name : String} (spared : Spared name) (value : Value) :
    h.Later (h.define a name value) :=
  ⟨.define h a spared value, Array.size_modify ▸ Nat.le_refl _⟩

theorem setField (h : Heap) (i : Instance) (name : String) (value : Value) :
    h.Later (h.setField i name value) :=
  ⟨.setField h i name value, Array.size_modify ▸ Nat.le_refl _⟩

theorem bindMethod (h : Heap) (method : Method) (i : Instance) :
    h.Later (h.bindMethod method i).2 :=
  (allocate h _).trans (allocate _ .identity)

end Heap.Later

/-! ## Chains of acts -/

/-- Whether a function is a method that was bound in some acts. -/
def BoundIn (acts : List Act) (f : Closure) : Prop :=
  ∃ (method : Method) (i : Instance) (m : Machine),
    .binds method i m ∈ acts ∧ f = (m.heap.bindMethod method i).1

/-- Whether an instance is one that a class was called for in some acts. -/
def MadeIn (acts : List Act) (i : Instance) : Prop :=
  ∃ (bound : Nat) (c : Class) (arguments : List Value) (line : Nat) (m : Machine),
    .constructs bound c arguments line m ∈ acts ∧ i = (m.heap.newInstance c).1

/-- Whether a value, if it is an instance or an initializer, was made or bound in some acts. -/
def Value.KnownTo (acts : List Act) : Value → Prop
  | .closure f => f.isInitializer = true → BoundIn acts f
  | .instance i => MadeIn acts i
  | .nil | .bool _ | .number _ | .string _ | .native _ | .class _ => True

/-- Whether all instances and initializers in a heap were made and bound in some acts. -/
abbrev Heap.KnownTo (acts : List Act) (h : Heap) : Prop := h.All (Value.KnownTo acts)

/-- Whether a value that a statement returns is known to some acts. -/
def Completion.KnownTo (acts : List Act) (completion : Completion) : Prop :=
  ∀ value, completion = .returned value → value.KnownTo acts

variable {past acts acts' : List Act} {act : Act}

theorem BoundIn.append {f : Closure} (bound : BoundIn past f) (more : List Act) :
    BoundIn (past ++ more) f := by
  obtain ⟨method, i, m, member, same⟩ := bound
  exact ⟨method, i, m, List.mem_append_left _ member, same⟩

theorem MadeIn.append {i : Instance} (made : MadeIn past i) (more : List Act) :
    MadeIn (past ++ more) i := by
  obtain ⟨bound, c, arguments, line, m, member, same⟩ := made
  exact ⟨bound, c, arguments, line, m, List.mem_append_left _ member, same⟩

theorem Value.KnownTo.append {value : Value} (known : value.KnownTo past) (more : List Act) :
    value.KnownTo (past ++ more) := by
  cases value with
  | closure f => exact fun initializer => (known initializer).append more
  | «instance» i => exact MadeIn.append known more
  | nil | bool | number | string | native | «class» => trivial

theorem Heap.KnownTo.append {h : Heap} (known : h.KnownTo past) (more : List Act) :
    h.KnownTo (past ++ more) :=
  All.imp known fun _ known => known.append more

theorem Value.knownTo_of_isData {value : Value} (data : value.IsData) : value.KnownTo past := by
  cases value with
  | nil | bool | number | string | native => trivial
  | closure | «class» | «instance» => cases data

namespace Act

/-- The machine just before an act. -/
def machine : Act → Machine
  | binds _ _ m | constructs _ _ _ _ m | invokes _ _ _ _ m => m

/-- The heap in which an act has made what it makes: a bound method, or an instance. -/
def made : Act → Heap
  | binds method i m => (m.heap.bindMethod method i).2
  | constructs _ c _ _ m => (m.heap.newInstance c).2
  | invokes _ _ _ _ m => m.heap

/-- Whether an act finds code of certain tokens, and instances and initializers that were made and
bound before. -/
def Founded (o : Origin) (past : List Act) : Act → Prop
  | binds _ i _ => MadeIn past i
  | constructs _ c arguments line m =>
    (m.heap.From o ∧ c.From o ∧ (∀ value ∈ arguments, value.From o) ∧ o.HasLine line) ∧
      m.heap.KnownTo past ∧ ∀ value ∈ arguments, value.KnownTo past
  | invokes _ f arguments line m =>
    (m.heap.From o ∧ f.declaration.From o ∧ (∀ value ∈ arguments, value.From o) ∧
      o.HasLine line) ∧ (Value.closure f).KnownTo past

theorem later_made (act : Act) : act.machine.heap.Later act.made := by
  cases act with
  | binds method i m => exact .bindMethod m.heap method i
  | constructs _ c _ _ m => exact .allocate m.heap _
  | invokes _ _ _ _ m => exact .refl m.heap

end Act

/-- The acts between two heaps, after those of the past: each finds a heap that is later than what
was made before. -/
inductive Passes (o : Origin) : List Act → Heap → List Act → Heap → Prop
  | nil {past : List Act} {h h' : Heap} (later : h.Later h') : Passes o past h [] h'
  | cons {past acts : List Act} {act : Act} {h h' : Heap} (start : h.Later act.machine.heap)
      (founded : act.Founded o past) (rest : Passes o (past ++ [act]) act.made acts h') :
      Passes o past h (act :: acts) h'

namespace Passes

variable {o : Origin} {h h₁ h₂ : Heap}

theorem from_earlier (first : h.Later h₁) (passes : Passes o past h₁ acts h₂) :
    Passes o past h acts h₂ := by
  cases passes with
  | nil later => exact .nil (first.trans later)
  | cons start founded rest => exact .cons (first.trans start) founded rest

theorem append (first : Passes o past h acts h₁) (second : Passes o (past ++ acts) h₁ acts' h₂) :
    Passes o past h (acts ++ acts') h₂ := by
  induction first with
  | nil later =>
    rw [List.append_nil] at second
    exact second.from_earlier later
  | cons start founded rest ih =>
    -- The acts of the first part are past for the second.
    refine .cons start founded (ih ?_)
    rwa [List.append_assoc, List.singleton_append]

theorem to_later (passes : Passes o past h acts h₁) (later : h₁.Later h₂) :
    Passes o past h acts h₂ :=
  List.append_nil acts ▸ passes.append (.nil later)

theorem later (passes : Passes o past h acts h₁) : h.Later h₁ := by
  induction passes with
  | nil later => exact later
  | cons start _ _ ih => exact (start.trans (Act.later_made _)).trans ih

/-- What an act made is found by all that comes later. -/
theorem later_of_mem (passes : Passes o past h acts h₁) (member : act ∈ acts) :
    act.made.Later h₁ := by
  induction passes with
  | nil => exact absurd member List.not_mem_nil
  | cons start founded rest ih =>
    rcases List.mem_cons.mp member with rfl | further
    · exact rest.later
    · exact ih further

/-- A chain is cut at an act. -/
theorem split {before later : List Act} (passes : Passes o past h (before ++ act :: later) h₁) :
    Passes o past h before act.machine.heap ∧ act.Founded o (past ++ before) := by
  induction before generalizing past h with
  | nil =>
    cases passes with
    | cons start founded rest => exact ⟨.nil start, (List.append_nil past).symm ▸ founded⟩
  | cons first before ih =>
    cases passes with
    | cons start founded rest =>
      obtain ⟨earlier, known⟩ := ih rest
      rw [List.append_assoc, List.singleton_append] at known
      exact ⟨.cons start founded earlier, known⟩

/-- What a method is bound to was made before. -/
theorem made_of_binds (passes : Passes o [] h acts h₁) {method : Method} {i : Instance}
    {m : Machine} (member : .binds method i m ∈ acts) : MadeIn acts i := by
  obtain ⟨before, later, rfl⟩ := List.append_of_mem member
  have receiver : MadeIn ([] ++ before) i := passes.split.2
  exact receiver.append _

end Passes

namespace Eval

variable {α β : Type} {o : Origin}

/-! ## Steady computations -/

/-- A result that leaves a later heap than a given one, with known initializers. -/
def Steadily (past : List Act) (fine : α → Prop) (h : Heap) :
    EStateM.Result Stop Machine α → Prop
  | .ok a m => h.Later m.heap ∧ m.heap.KnownTo past ∧ fine a
  | .error _ m => h.Later m.heap ∧ m.heap.KnownTo past

/-- Whether a computation leaves a later heap, and no initializer in it that was not known. -/
def Steady (past : List Act) (fine : α → Prop) (x : Eval α) : Prop :=
  ∀ m : Machine, m.heap.KnownTo past → Steadily past fine m.heap (x m)

section

variable {fine : α → Prop} {good : β → Prop}

theorem steady_pure {a : α} (holds : fine a) : Steady past fine (pure a) :=
  fun m known => ⟨.refl m.heap, known, holds⟩

theorem steady_exhausted : Steady past fine (throw .exhausted : Eval α) :=
  fun m known => ⟨.refl m.heap, known⟩

theorem steady_fail (cause : RuntimeError.Cause) (line : Nat) :
    Steady past fine (fail cause line : Eval α) :=
  fun m known => ⟨.refl m.heap, known⟩

theorem Steady.bind {x : Eval α} {f : α → Eval β} (first : Steady past fine x)
    (second : ∀ a, fine a → Steady past good (f a)) : Steady past good (x >>= f) := by
  intro m known
  have before := first m known
  rw [bind_eq]
  cases ran : x m with
  | error stop m' =>
    rw [ran] at before
    exact before
  | ok a m' =>
    rw [ran] at before
    obtain ⟨later, known', holds⟩ := before
    have rest := second a holds m' known'
    dsimp only
    cases ran' : f a m' with
    | error stop m'' =>
      rw [ran'] at rest
      exact ⟨later.trans rest.1, rest.2⟩
    | ok b m'' =>
      rw [ran'] at rest
      exact ⟨later.trans rest.1, rest.2⟩

theorem steady_create {f : Heap → α × Heap}
    (creates : ∀ h : Heap, h.KnownTo past → h.Later (f h).2 ∧ (f h).2.KnownTo past ∧ fine (f h).1) :
    Steady past fine (create f) :=
  fun m known => creates m.heap known

theorem steady_orFail (line : Nat) {result : Except RuntimeError.Cause α}
    (holds : ∀ a, result = .ok a → fine a) : Steady past fine (orFail line result) := by
  cases result with
  | ok a => exact steady_pure (holds a rfl)
  | error cause => exact steady_fail cause line

end

theorem steady_lookUp (id : NodeId) (name : String) (line : Nat) :
    Steady past (Value.KnownTo past) (lookUp id name line) := by
  intro m known
  rcases lookUp_cases id name line m with ⟨frame, value, -, found, same⟩ | same
  · rw [same]
    exact ⟨.refl m.heap, known, known.read? found⟩
  · rw [same]
    exact ⟨.refl m.heap, known⟩

theorem steady_assign (id : NodeId) {name : Name} (identifier : name.IsIdentifier) {value : Value}
    (new : value.KnownTo past) : Steady past (fun _ => True) (assign id name value) := by
  intro m known
  rcases assign_cases id name value m with ⟨frame, -, same⟩ | ⟨-, same⟩
  · rw [same]
    exact ⟨.define m.heap frame identifier.spared value, known.define frame _ new, trivial⟩
  · rw [same]
    exact ⟨.refl m.heap, known⟩

theorem steady_define {name : Name} (identifier : name.IsIdentifier) {value : Value}
    (new : value.KnownTo past) : Steady past (fun _ => True) (define name.lexeme value) :=
  fun m known => ⟨.define m.heap m.current identifier.spared value, known.define m.current _ new,
    trivial⟩

theorem steady_setField (i : Instance) (name : String) {value : Value}
    (new : value.KnownTo past) : Steady past (fun _ => True) (setField i name value) :=
  fun m known => ⟨.setField m.heap i name value, known.setField i name new, trivial⟩

theorem steady_print (value : Value) (line : Nat) :
    Steady past (fun _ => True) (print value line) := by
  have written (text : String) : Steady past (fun _ => True) (write text line) := by
    intro m known
    unfold write
    cases m.sink.write text with
    | mk refusal sink =>
      cases refusal with
      | none => exact ⟨.refl m.heap, known, trivial⟩
      | some reason => exact ⟨.refl m.heap, known⟩
  have all : ∀ texts, Steady past (fun _ => True) (writeAll line texts) := by
    intro texts
    induction texts with
    | nil => exact steady_pure trivial
    | cons text texts ih => exact (written text).bind fun _ _ => ih
  exact all _

theorem steady_callNative (f : Native) {arguments : List Value}
    (known : ∀ value ∈ arguments, value.KnownTo past) (line : Nat) :
    Steady past (Value.KnownTo past) (callNative f arguments line) := by
  have looked : Steady past (fun _ => True) (readClock f) :=
    fun m known => ⟨.refl m.heap, known, trivial⟩
  exact looked.bind fun reading _ => steady_orFail line fun value ok =>
    (Native.call_cases ok).elim Value.knownTo_of_isData (known value)

theorem steady_checkCall (callee : Value) (count line : Nat) :
    Steady past (fun _ => True) (checkCall callee count line) := by
  unfold checkCall
  split
  · exact steady_fail _ line
  · split
    · exact steady_pure trivial
    · exact steady_fail _ line

theorem steady_result (f : Closure) (line : Nat) {completion : Completion}
    (returned : completion.KnownTo past) :
    Steady past (Value.KnownTo past) (result f line completion) := by
  intro m known
  rcases result_cases f line completion m with
    ⟨value, -, receiver, same⟩ | ⟨-, -, same⟩ | ⟨value, -, ended, same⟩ | ⟨-, -, same⟩
  · exact same ▸ ⟨.refl m.heap, known, known.read? receiver⟩
  · exact same ▸ ⟨.refl m.heap, known⟩
  · exact same ▸ ⟨.refl m.heap, known, returned value ended⟩
  · exact same ▸ ⟨.refl m.heap, known, trivial⟩

/-- A function that is declared is no initializer. -/
theorem steady_declareFunction {declaration : FunctionDecl}
    (identifier : declaration.name.IsIdentifier) :
    Steady past (fun _ => True) (declareFunction declaration) := by
  intro m known
  have made : Steady past (fun f => (Value.closure f).KnownTo past)
      (create (·.newClosure declaration m.current false)) :=
    steady_create fun h known => ⟨.allocate h _, known.allocate trivial, nofun⟩
  exact (made.bind fun f new => steady_define identifier new) m known

theorem steady_declareClass {name : Name} (identifier : name.IsIdentifier)
    (parent : Option Superclass) (methods : List FunctionDecl) :
    Steady past (fun _ => True) (declareClass name parent methods) := by
  have above : Steady past (fun _ => True) (superclass? parent) := by
    cases parent with
    | none => exact steady_pure trivial
    | some parent =>
      refine (steady_lookUp parent.id parent.name.lexeme parent.name.line).bind fun value _ => ?_
      cases value with
      | «class» c => exact steady_pure trivial
      | nil | bool | number | string | native | closure | «instance» => exact steady_fail _ _
  have around (parent : Option Class) : Steady past (fun _ => True) (methodFrame parent) := by
    intro m known
    cases parent with
    | none => exact ⟨.refl m.heap, known, trivial⟩
    | some c =>
      have frame : (Cell.frame ⟨Bindings.empty.set "super" (.class c), some m.current⟩).All
          (Value.KnownTo past) := by
        exact Bindings.forall_single (P := Value.KnownTo past) trivial
      exact ⟨.allocate m.heap _, known.allocate frame, trivial⟩
  refine above.bind fun parent _ => (around parent).bind fun frame _ => ?_
  have made : Steady past (fun c => (Value.class c).KnownTo past)
      (create (·.newClass name.lexeme parent frame methods)) :=
    steady_create fun h known => ⟨.allocate h _, known.allocate trivial, trivial⟩
  exact made.bind fun c new => steady_define identifier new

/-! ## Computations and their acts -/

/-- A result that is reached by acts after those of the past, with initializers that are known by
then. -/
def Reached (o : Origin) (past : List Act) (fine : List Act → α → Prop) (h : Heap)
    (acts : List Act) : EStateM.Result Stop Machine α → Prop
  | .ok a m => Passes o past h acts m.heap ∧ m.heap.KnownTo (past ++ acts) ∧ fine (past ++ acts) a
  | .error _ m => Passes o past h acts m.heap ∧ m.heap.KnownTo (past ++ acts)

/-- Whether the acts that are noted of a computation lead to its result. -/
def Follows (o : Origin) (past : List Act) (fine : List Act → α → Prop) (x : Traced α) : Prop :=
  ∀ m : Machine, m.heap.From o → m.heap.KnownTo past →
    Reached o past fine m.heap (x.heard Note.act? m) (x.plain m)

/-- Whether a computation is steady and no acts are noted of it. -/
def Idle (past : List Act) (fine : α → Prop) (x : Traced α) : Prop :=
  ∀ m : Machine, m.heap.KnownTo past →
    x.heard Note.act? m = [] ∧ Steadily past fine m.heap (x.plain m)

section

variable {fine : α → Prop} {good : β → Prop} {x : Traced α} {f : α → Traced β}

theorem idle_of_silent (silent : x.Silent Note.act?) (steady : Steady past fine x.plain) :
    Idle past fine x :=
  fun m known => ⟨silent m, steady m known⟩

theorem Steady.idle {y : Eval α} (steady : Steady past fine y) : Idle past fine (Told.lift y) :=
  idle_of_silent (Told.silent_lift y) steady

theorem idle_pure {a : α} (holds : fine a) : Idle past fine (pure a) :=
  idle_of_silent (Told.silent_pure a) (steady_pure holds)

theorem Idle.bind (first : Idle past fine x) (second : ∀ a, fine a → Idle past good (f a)) :
    Idle past good (x >>= f) := by
  intro m known
  obtain ⟨nothing, before⟩ := first m known
  rw [Told.heard_bind, Told.plain_bind, bind_eq, nothing, List.nil_append]
  cases ran : x.plain m with
  | error stop m' =>
    rw [ran] at before
    exact ⟨rfl, before⟩
  | ok a m' =>
    rw [ran] at before
    obtain ⟨later, known', holds⟩ := before
    obtain ⟨nothing', rest⟩ := second a holds m' known'
    refine ⟨nothing', ?_⟩
    dsimp only
    cases ran' : (f a).plain m' with
    | error stop m'' =>
      rw [ran'] at rest
      exact ⟨later.trans rest.1, rest.2⟩
    | ok b m'' =>
      rw [ran'] at rest
      exact ⟨later.trans rest.1, rest.2⟩

theorem Idle.after_note {tell : Machine → Note} (idle : Idle past fine x)
    (silent : ∀ m, (tell m).act? = none) : Idle past fine (Told.note tell >>= fun _ => x) := by
  intro m known
  rw [Told.heard_note_bind silent]
  exact idle m known

end

section

variable {fine : List Act → α → Prop} {good : List Act → β → Prop} {made : α → Prop}
  {x : Traced α} {f : α → Traced β} {frame? : Option Address} {names : String → Prop}

theorem Reached.onMachine {h : Heap} {result : EStateM.Result Stop Machine α}
    (reached : Reached o past fine h acts result) {change : Machine → Machine}
    (same : ∀ m, (change m).heap = m.heap) :
    Reached o past fine h acts (onMachine change result) := by
  cases result with
  | ok a m =>
    show Passes o past h acts (change m).heap ∧ (change m).heap.KnownTo _ ∧ _
    rw [same]
    exact reached
  | error stop m =>
    show Passes o past h acts (change m).heap ∧ (change m).heap.KnownTo _
    rw [same]
    exact reached

/-- What is reached from a place that was reached is reached. -/
theorem Reached.from_passed {h h₁ : Heap} {result : EStateM.Result Stop Machine α}
    (first : Passes o past h acts h₁)
    (second : Reached o (past ++ acts) fine h₁ acts' result) :
    Reached o past fine h (acts ++ acts') result := by
  cases result with
  | ok a m =>
    obtain ⟨passes, known, holds⟩ := second
    rw [List.append_assoc] at known holds
    exact ⟨first.append passes, known, holds⟩
  | error stop m =>
    obtain ⟨passes, known⟩ := second
    rw [List.append_assoc] at known
    exact ⟨first.append passes, known⟩

theorem Idle.follows (idle : Idle past (fine past) x) : Follows o past fine x := by
  intro m _ known
  obtain ⟨nothing, ended⟩ := idle m known
  have none : past ++ [] = past := List.append_nil past
  rw [nothing]
  cases ran : x.plain m with
  | ok a m' =>
    rw [ran] at ended
    show Passes o past m.heap [] m'.heap ∧ m'.heap.KnownTo (past ++ []) ∧ fine (past ++ []) a
    rw [none]
    exact ⟨.nil ended.1, ended.2⟩
  | error stop m' =>
    rw [ran] at ended
    show Passes o past m.heap [] m'.heap ∧ m'.heap.KnownTo (past ++ [])
    rw [none]
    exact ⟨.nil ended.1, ended.2⟩

/-- The second part may rely on what the first part gives. -/
theorem Follows.bind (first : Follows o past fine x) (traces : Traces o frame? names made x.plain)
    (second : ∀ more a, made a → fine (past ++ more) a → Follows o (past ++ more) good (f a)) :
    Follows o past good (x >>= f) := by
  intro m code known
  have before := first m code known
  have traced := traces m code
  rw [Told.heard_bind, Told.plain_bind, bind_eq]
  cases ran : x.plain m with
  | error stop m' =>
    rw [ran] at before
    dsimp only
    rw [List.append_nil]
    exact before
  | ok a m' =>
    rw [ran] at before traced
    obtain ⟨passes, known', holds⟩ := before
    exact .from_passed passes (second _ a traced.2 holds m' traced.1.code known')

/-- Behind a computation an idle one adds nothing. -/
theorem Follows.followed (first : Follows o past fine x)
    (idle : ∀ more a, fine (past ++ more) a → Idle (past ++ more) (good (past ++ more)) (f a)) :
    Follows o past good (x >>= f) := by
  intro m code known
  have before := first m code known
  rw [Told.heard_bind, Told.plain_bind, bind_eq]
  cases ran : x.plain m with
  | error stop m' =>
    rw [ran] at before
    dsimp only
    rw [List.append_nil]
    exact before
  | ok a m' =>
    rw [ran] at before
    obtain ⟨passes, known', holds⟩ := before
    obtain ⟨nothing, rest⟩ := idle _ a holds m' known'
    dsimp only
    rw [nothing, List.append_nil]
    cases ran' : (f a).plain m' with
    | error stop m'' =>
      rw [ran'] at rest
      exact ⟨passes.to_later rest.1, rest.2⟩
    | ok b m'' =>
      rw [ran'] at rest
      exact ⟨passes.to_later rest.1, rest.2⟩

/-- A note that is no act makes no difference. -/
theorem Follows.after_note {tell : Machine → Note} (follows : Follows o past fine x)
    (silent : ∀ m, (tell m).act? = none) :
    Follows o past fine (Told.note tell >>= fun _ => x) := by
  intro m code known
  rw [Told.heard_note_bind silent]
  exact follows m code known

/-- Nor do the notes around an expression or a statement. -/
theorem Follows.within {before : Machine → Note} {after : Option α → Machine → Note}
    (inside : Follows o past fine x) (silent : ∀ m, (before m).act? = none)
    (silent' : ∀ a m, (after a m).act? = none) :
    Follows o past fine (Told.enclosed before after x) := by
  intro m code known
  rw [Told.heard_enclosed_silent silent silent', Told.plain_enclosed]
  exact inside m code known

theorem Follows.inFrame (frame : Address) (inside : Follows o past fine x) :
    Follows o past fine (Told.inFrame frame x) := by
  intro m code known
  rw [Told.plain_inFrame, inFrame_eq frame x.plain m]
  exact (inside { m with current := frame } code known).onMachine fun _ => rfl

theorem Follows.carryOut (site : CallSite) (callee : Value) (declaration : FunctionDecl)
    (inside : Follows o past fine x) :
    Follows o past fine (Traced.carryOut site callee declaration x) := by
  intro m code known
  rcases Traced.carryOut_cases Note.act? (fun _ _ _ => rfl) (fun _ _ => rfl) (fun _ => rfl) site
    callee declaration x m with ⟨nothing, same⟩ | ⟨heard, same⟩
  · have refused : Follows o past fine (Told.lift (fail .stackOverflow site.line)) :=
      (steady_fail .stackOverflow site.line).idle.follows
    rw [nothing, same]
    exact refused m code known
  · rw [heard, same]
    exact (inside { m with depth := m.depth + 1 } code known).onMachine fun _ => rfl

/-- Where a frame is opened that holds what is known, nothing is done yet. -/
theorem Follows.opened {x : Traced Address} {f : Address → Traced β}
    (silent : x.Silent Note.act?)
    (opens : ∀ m : Machine, ∃ frame : Frame, (Cell.frame frame).From o ∧
      (Cell.frame frame).All (Value.KnownTo past) ∧
      x.plain m = .ok m.heap.cells.size { m with heap := (m.heap.allocate (.frame frame)).2 })
    (second : ∀ frame, Follows o past good (f frame)) : Follows o past good (x >>= f) := by
  intro m code known
  obtain ⟨frame, traced, holds, same⟩ := opens m
  rw [silent.heard_bind, Told.plain_bind, bind_eq, same]
  dsimp only
  have none : past ++ [] = past := List.append_nil past
  have rest := second m.heap.cells.size { m with heap := (m.heap.allocate (.frame frame)).2 }
    (code.allocate traced) (known.allocate holds)
  rw [← none] at rest
  exact .from_passed (.nil (.allocate m.heap _)) rest

/-- Once an act is noted, the acts behind it follow. -/
theorem Reached.noted {tell : Machine → Note} {m : Machine} (act : Act)
    (told : (tell m).act? = some act) (start : m.heap.Later act.machine.heap)
    (founded : act.Founded o past)
    (rest : Reached o (past ++ [act]) fine act.made (x.heard Note.act? m) (x.plain m)) :
    Reached o past fine m.heap ((Told.note tell >>= fun _ => x).heard Note.act? m)
      ((Told.note tell >>= fun _ => x).plain m) := by
  have first : [tell m].filterMap Note.act? = [act] := by
    rw [List.filterMap_cons, told]
    rfl
  rw [Told.heard_bind, Told.heard_note, first]
  exact .from_passed (.cons start founded (.nil (.refl _))) rest

end

/-! ## Methods that are bound -/

/-- The heap gains the receiver only, and the bound method itself is known from then on. -/
theorem follows_bindMethod (method : Method) {i : Instance} (receiver : MadeIn past i) :
    Follows o past (fun acts f => BoundIn acts f) (Traced.bindMethod method i) := by
  intro m _ known
  have made : (m.heap.bindMethod method i).2.KnownTo past := known.bindMethod method receiver
  let act : Act := .binds method i m
  have later : m.heap.Later act.machine.heap := .refl m.heap
  refine ⟨.cons later receiver (.nil (.refl _)), made.append _, method, i, m, ?_, rfl⟩
  exact List.mem_append_right past List.mem_cons_self

theorem follows_bound (method? : Option Method) {i : Instance} (receiver : MadeIn past i)
    (property : String) (line : Nat) :
    Follows o past Value.KnownTo (Traced.bound method? i property line) := by
  cases method? with
  | none => exact (steady_fail _ line).idle.follows
  | some method =>
    exact (follows_bindMethod method receiver).followed fun more f bound =>
      idle_pure fun _ => bound

theorem follows_property {object : Value} (receiver : object.KnownTo past) (name : Name) :
    Follows o past Value.KnownTo (Traced.property object name) := by
  cases object with
  | «instance» i =>
    refine Follows.after_note (fun m code known => ?_) fun _ => rfl
    unfold Told.heard Told.told Told.plain
    rcases Traced.member_cases i name m with ⟨value, found, same⟩ | ⟨-, same⟩
    · have read : Idle past (Value.KnownTo past) (Told.lift (pure value)) :=
        (steady_pure (known.field? found)).idle
      rw [same]
      exact read.follows m code known
    · rw [same]
      exact follows_bound (i.of.method? name.lexeme) receiver name.lexeme name.line m code known
  | nil | bool | number | string | native | closure | «class» =>
    exact (steady_fail .readsPropertyOfNonInstance name.line).idle.follows

theorem follows_superMethod (id : NodeId) (line : Nat) (method : String) :
    Follows o past Value.KnownTo (Traced.superMethod id line method) := by
  intro m code known
  unfold Told.heard Told.told Told.plain
  rcases Traced.superMethod_cases id line method m with
    ⟨distance, parent, i, -, -, found, same⟩ | ⟨cause, same⟩
  · rw [same]
    exact follows_bound (parent.method? method) (known.getAt? found) method line m code known
  · have failed : Follows o past Value.KnownTo (Told.lift (fail cause line)) :=
      (steady_fail cause line).idle.follows
    rw [same]
    exact failed m code known

end Eval

end Lox
