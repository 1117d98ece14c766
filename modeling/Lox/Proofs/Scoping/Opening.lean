import Lox.Proofs.Scoping.Declaring

/-!
# Frames that are opened

Blocks, calls and the binding of methods open frames. A block and a call then run code in the frame
that they have opened, and what this code declares is declared there, so that it grows no frame that
was there before.
-/

set_option autoImplicit false

namespace Lox

open Heap (nowhere)
open Resolver (receiverScope)

variable {uses : Use → Prop} {recorded : Use → Distances → Prop} {sites : List Site} {a : Address}
  {r : Resolver}

/-! ## Methods -/

/-- A method that is bound is a function around which lies the frame of its receiver. -/
theorem keeps_bindMethod (method : Method) (i : Instance) :
    Keeps uses recorded nowhere (Traced.bindMethod method i)
      (fun s => method.declaration.KnownMethod uses s.scene method.frame ∧
        i.of.Known uses s.scene)
      fun f s => f.declaration = method.declaration ∧ f.declaration.Known uses s.scene f.frame := by
  rintro s sound ⟨⟨sites, r, context, scopes, receiver, layout, inside, formed, silent⟩, known⟩
  have cell : (Cell.frame ⟨Bindings.empty.set "this" (.instance i), some method.frame⟩).Known
      uses s.scene := Bindings.forall_single known
  obtain ⟨leads₁, sound₁⟩ := sound.allocate _ cell
  obtain ⟨leads₂, sound₂⟩ := sound₁.allocate .identity trivial
  have first := Heap.frame?_allocateFrame s.machine.heap (some method.frame)
    (Bindings.empty.set "this" (.instance i))
  have found := (Heap.frame?_allocate _ .identity _ (Heap.lt_size_of_frame? first)).trans first
  obtain ⟨leads₃, sound₃⟩ := sound₂.opened (.receiver method.declaration)
    s.machine.heap.cells.size method.frame ⟨i, Heap.read?_single found⟩
  have leads := (leads₁.trans leads₂).trans leads₃
  refine ⟨leads, sound₃, rfl, .receiver method.declaration :: sites, r, context, ?_, inside, formed,
    silent⟩
  rw [receiver]
  refine .inside List.mem_cons_self found (fun name declared => ?_) (layout.mono leads.scene)
  rw [Bindings.binds_set]
  unfold receiverScope Scope.declares Scope.ready? at declared
  rw [List.lookup_cons] at declared
  cases same : name == "this" with
  | true => rfl
  | false =>
    rw [same] at declared
    cases declared

theorem keeps_bound (method? : Option Method) (i : Instance) (property : String) (line : Nat) :
    Keeps uses recorded nowhere (Traced.bound method? i property line)
      (fun s => (∀ method, method? = some method →
        method.declaration.KnownMethod uses s.scene method.frame) ∧ i.of.Known uses s.scene)
      fun value s => value.Known uses s.scene := by
  cases method? with
  | none => exact keeps_fail _ _
  | some method =>
    refine Keeps.bind ((keeps_bindMethod method i).given fun s known =>
      ⟨known.1 method rfl, known.2⟩) fun f => ?_
    exact keeps_pure fun s known => known.2

theorem keeps_member (i : Instance) (name : Name) :
    Keeps uses recorded nowhere (Traced.member i name)
      (fun s => (Value.instance i).Known uses s.scene) fun value s => value.Known uses s.scene := by
  intro s sound known
  rcases Traced.member_cases i name s.machine with ⟨value, field, same⟩ | ⟨-, same⟩
  · rw [Traced.observed_congr same]
    exact ⟨.refl nowhere s, sound, sound.field? field⟩
  · rw [Traced.observed_congr same]
    exact keeps_bound _ i _ _ s sound ⟨fun method => Class.Known.method? i.of known, known⟩

theorem keeps_property (object : Value) (name : Name) :
    Keeps uses recorded nowhere (Traced.property object name)
      (fun s => object.Known uses s.scene) fun value s => value.Known uses s.scene := by
  cases object with
  | «instance» i =>
    exact (keeps_member i name).congr (Traced.observed_note_bind (fun _ => rfl) _)
  | nil | bool | number | string | native | closure | «class» => exact keeps_fail _ _

theorem read?_of_getAt? {h : Heap} {b : Address} {d : Nat} {name : String} {value : Value}
    (found : h.getAt? b d name = some value) : ∃ frame, h.read? frame name = some value := by
  unfold Heap.getAt? at found
  obtain ⟨frame, -, holds⟩ := Option.bind_eq_some_iff.mp found
  exact ⟨frame, holds⟩

theorem keeps_superMethod (id : NodeId) (line : Nat) (method : String) {pre : Observed → Prop} :
    Keeps uses recorded nowhere (Traced.superMethod id line method) pre
      fun value s => value.Known uses s.scene := by
  intro s sound _
  rcases Traced.superMethod_cases id line method s.machine with
    ⟨distance, parent, i, -, above, receiver, same⟩ | ⟨cause, same⟩
  · obtain ⟨_, superAt⟩ := read?_of_getAt? above
    obtain ⟨_, thisAt⟩ := read?_of_getAt? receiver
    rw [Traced.observed_congr same]
    exact keeps_bound _ i _ _ s sound
      ⟨fun _ => Class.Known.method? parent (sound.read? superAt), sound.read? thisAt⟩
  · rw [Traced.observed_congr same]
    exact ⟨.refl nowhere s, sound⟩

/-! ## Running code in a frame -/

/-- A computation that opens a frame where there was none. -/
def Opens (uses : Use → Prop) (recorded : Use → Distances → Prop) (x : Traced Address)
    (pre : Observed → Prop) (post : Address → Observed → Prop) : Prop :=
  ∀ s, s.Sound uses recorded → pre s → ∃ frame s', Traced.observed x s = .ok frame s' ∧
    s.Leads nowhere s' ∧ s'.Sound uses recorded ∧ s.machine.heap.frame? frame = none ∧
    post frame s'

/-- What is declared in a frame that was just opened grows no earlier frame. -/
theorem Opens.bind {β : Type} {x : Traced Address} {f : Address → Traced β}
    {pre : Observed → Prop} {mid : Address → Observed → Prop} {post : β → Observed → Prop}
    (opens : Opens uses recorded x pre mid)
    (rest : ∀ frame, Keeps uses recorded (· = frame) (f frame) (mid frame) post) :
    Keeps uses recorded nowhere (x >>= f) pre post := by
  intro s sound given
  obtain ⟨frame, s₁, ends, leads, sound₁, absent, holds⟩ := opens s sound given
  have there := rest frame s₁ sound₁ holds
  rw [Traced.observed_bind, ends]
  dsimp only
  have fresh : ∀ s₂, s₁.Leads (· = frame) s₂ → s.Leads nowhere s₂ := fun s₂ leads' =>
    ⟨leads.control.trans leads'.control, leads.scene.grows.fresh leads'.scene.grows absent,
      leads.scene.events.trans leads'.scene.events,
      leads'.scene.globals.trans leads.scene.globals⟩
  cases ends' : Traced.observed (f frame) s₁ with
  | error stop s₂ =>
    rw [ends'] at there
    exact ⟨fresh s₂ there.1, there.2⟩
  | ok b s₂ =>
    rw [ends'] at there
    exact ⟨fresh s₂ there.1, there.2⟩

theorem opens_openBlock (body : List Stmt) :
    Opens uses recorded (Traced.openBlock body) (At sites r.scopes none a)
      fun frame s => Placed s.scene none (.block body :: sites) r.enter.scopes frame := by
  rintro s sound ⟨rfl, placed⟩
  have cell : (Cell.frame ⟨Bindings.empty, some s.machine.current⟩).Known uses s.scene :=
    fun _ _ => nofun
  obtain ⟨leads₁, sound₁⟩ := sound.allocate _ cell
  obtain ⟨leads₂, sound₂⟩ := sound₁.opened (.block body) s.machine.heap.cells.size
    s.machine.current trivial
  have leads := leads₁.trans leads₂
  refine ⟨_, _, rfl, leads, sound₂, Heap.frame?_size _, ?_⟩
  exact .inside List.mem_cons_self (Heap.frame?_allocateFrame s.machine.heap _ _) (fun _ => rfl)
    (placed.layout.mono leads.scene)

/-- The parameters of a call are bound in its frame, and nothing else is. -/
theorem binds_parameters (params : List Name) (arguments : List Value)
    (length : params.length = arguments.length) (bindings : Bindings Value) (key : String) :
    ((params.zip arguments).foldl (fun bindings (param, argument) =>
      bindings.set param.lexeme argument) bindings).binds key
      = (params.any (key == ·.lexeme) || bindings.binds key) := by
  induction params generalizing arguments bindings with
  | nil => rfl
  | cons param params ih =>
    cases arguments with
    | nil => cases length
    | cons argument arguments =>
      have rest := ih arguments (Nat.succ.inj length) (bindings.set param.lexeme argument)
      rw [List.zip_cons_cons, List.foldl_cons, rest, Bindings.binds_set, List.any_cons,
        ← Bool.or_assoc, Bool.or_comm (params.any _)]

theorem opens_enterFunction (f : Closure) (arguments : List Value) (context : FunctionContext)
    (length : f.declaration.params.length = arguments.length) :
    Opens uses recorded (Traced.enterFunction f arguments)
      (fun s => Layout s.scene sites r.scopes f.frame ∧
        ∀ value ∈ arguments, value.Known uses s.scene)
      fun frame s => Placed s.scene none (.function f.declaration :: sites)
        (f.declaration.params.foldl Resolver.introduce
          { r with functionContext := context }.enter).scopes frame := by
  rintro s sound ⟨layout, known⟩
  have cell := Bindings.forall_parameters f.declaration.params arguments known .empty
    (fun _ _ => nofun)
  obtain ⟨leads₁, sound₁⟩ := sound.allocate (.frame ⟨_, some f.frame⟩) cell
  obtain ⟨leads₂, sound₂⟩ := sound₁.opened (.function f.declaration) s.machine.heap.cells.size
    f.frame trivial
  have leads := leads₁.trans leads₂
  refine ⟨_, _, rfl, leads, sound₂, Heap.frame?_size _, ?_⟩
  have entered : ({ r with functionContext := context }.enter).scopes = [] :: r.scopes := rfl
  obtain ⟨scope, scopes, declares⟩ :=
    Resolver.declares_introduceAll f.declaration.params entered
  rw [scopes]
  refine .inside List.mem_cons_self (Heap.frame?_allocateFrame s.machine.heap _ _) (fun key => ?_)
    (layout.mono leads.scene)
  rw [binds_parameters _ _ length, declares]
  simp [Bindings.binds]

section

variable {α : Type} {growing : Address → Prop} {x : Traced α} {pre : Observed → Prop}
  {post : α → Observed → Prop}

/-- Code runs in a frame as it runs where that frame is the current one. -/
theorem Keeps.inFrame {frame : Address} {scopes : List Scope}
    (keeps : Keeps uses recorded growing x (At sites scopes none frame) post)
    (free : ∀ b s current, post b s → post b ⟨{ s.machine with current := current }, s.events⟩) :
    Keeps uses recorded growing (Told.inFrame frame x)
      (fun s => Placed s.scene none sites scopes frame) post := by
  intro s sound placed
  have inside := keeps ⟨{ s.machine with current := frame }, s.events⟩
    (sound.elsewhere rfl rfl rfl) ⟨rfl, placed⟩
  have back : ∀ s₁, Observed.Leads growing ⟨{ s.machine with current := frame }, s.events⟩ s₁ →
      s.Leads growing ⟨{ s₁.machine with current := s.machine.current }, s₁.events⟩ :=
    fun s₁ leads =>
      ⟨⟨leads.control.globals, rfl, leads.control.distances, leads.control.depth,
        leads.control.maxDepth, leads.control.policy⟩, leads.scene⟩
  rw [Traced.observed_inFrame]
  cases ends : Traced.observed x ⟨{ s.machine with current := frame }, s.events⟩ with
  | error stop s₁ =>
    rw [ends] at inside
    obtain ⟨leads, sound₁⟩ := inside
    exact ⟨back s₁ leads, sound₁.elsewhere rfl rfl rfl⟩
  | ok b s₁ =>
    rw [ends] at inside
    obtain ⟨leads, sound₁, holds⟩ := inside
    exact ⟨back s₁ leads, sound₁.elsewhere rfl rfl rfl, free b s₁ _ holds⟩

theorem Keeps.deeper (keeps : Keeps uses recorded growing x pre post)
    (given : ∀ s depth, pre s → pre ⟨{ s.machine with depth := depth }, s.events⟩)
    (free : ∀ b s depth, post b s → post b ⟨{ s.machine with depth := depth }, s.events⟩) :
    Keeps uses recorded growing (Told.deeper x) pre post := by
  intro s sound assumed
  have inside := keeps ⟨{ s.machine with depth := s.machine.depth + 1 }, s.events⟩
    (sound.elsewhere rfl rfl rfl) (given s _ assumed)
  have back : ∀ s₁,
      Observed.Leads growing ⟨{ s.machine with depth := s.machine.depth + 1 }, s.events⟩ s₁ →
      s.Leads growing ⟨{ s₁.machine with depth := s.machine.depth }, s₁.events⟩ := fun s₁ leads =>
    ⟨⟨leads.control.globals, leads.control.current, leads.control.distances, rfl,
      leads.control.maxDepth, leads.control.policy⟩, leads.scene⟩
  rw [Traced.observed_deeper]
  cases ends : Traced.observed x ⟨{ s.machine with depth := s.machine.depth + 1 }, s.events⟩ with
  | error stop s₁ =>
    rw [ends] at inside
    obtain ⟨leads, sound₁⟩ := inside
    exact ⟨back s₁ leads, sound₁.elsewhere rfl rfl rfl⟩
  | ok b s₁ =>
    rw [ends] at inside
    obtain ⟨leads, sound₁, holds⟩ := inside
    exact ⟨back s₁ leads, sound₁.elsewhere rfl rfl rfl, free b s₁ _ holds⟩

theorem Keeps.inCall (declaration : FunctionDecl) (line : Nat)
    (keeps : Keeps uses recorded growing x pre post)
    (given : ∀ s depth, pre s → pre ⟨{ s.machine with depth := depth }, s.events⟩)
    (free : ∀ b s depth, post b s → post b ⟨{ s.machine with depth := depth }, s.events⟩) :
    Keeps uses recorded growing (Traced.inCall declaration line x) pre post := by
  intro s sound assumed
  by_cases full : s.machine.maxDepth ≤ s.machine.depth
  · rw [Traced.observed_congr (Traced.inCall_full declaration line x full)]
    exact ⟨.refl growing s, sound⟩
  · rw [Traced.observed_congr (Traced.inCall_room declaration line x full),
      Traced.observed_enclosed (fun _ => rfl) (fun _ _ => rfl)]
    exact keeps.deeper given free s sound assumed

end

end Lox
