import Lox.Proofs.Scoping.Keeping

/-!
# Declarations at run time

A declaration puts a name into the innermost scope before it is evaluated, and binds it in the frame
of that scope afterwards. In between the place is one where the name is being declared. Parameters
are bound all at once when a frame is opened, and so are `this` and `super`.
-/

set_option autoImplicit false

namespace Lox

open Heap (nowhere)
open Resolver (receiverScope superScope)

/-! ## Scopes -/

namespace Resolver

variable {r : Resolver} {scope : Scope} {outer : List Scope}

/-- Declaring adds a name to the innermost scope, whether or not it had the name already. -/
theorem declares_declare (name : Name) (inside : r.scopes = scope :: outer) :
    ∃ scope', (r.declare name).scopes = scope' :: outer ∧
      ∀ key, scope'.declares key = (key == name.lexeme || scope.declares key) := by
  unfold declare
  rw [inside]
  dsimp only
  split
  · next already =>
    refine ⟨scope, inside, fun key => ?_⟩
    by_cases same : key = name.lexeme
    · rw [same, already, Bool.or_true]
    · rw [beq_eq_false_iff_ne.mpr same, Bool.false_or]
  · refine ⟨scope.put name.lexeme false, ?_, fun key => Scope.declares_put _ _ _ _⟩
    rw [scopes_put, inside]

theorem declares_define {name : Name} (inside : r.scopes = scope :: outer)
    (declared : scope.declares name.lexeme = true) :
    ∃ scope', (r.define name).scopes = scope' :: outer ∧
      ∀ key, scope'.declares key = scope.declares key := by
  unfold define
  refine ⟨scope.put name.lexeme true, by rw [scopes_put, inside], fun key => ?_⟩
  rw [Scope.declares_put]
  by_cases same : key = name.lexeme
  · rw [same, declared, Bool.or_true]
  · rw [beq_eq_false_iff_ne.mpr same, Bool.false_or]

theorem declares_introduce (name : Name) (inside : r.scopes = scope :: outer) :
    ∃ scope', (r.introduce name).scopes = scope' :: outer ∧
      ∀ key, scope'.declares key = (key == name.lexeme || scope.declares key) := by
  obtain ⟨declared, around, declares⟩ := declares_declare name inside
  have here : declared.declares name.lexeme = true := by
    rw [declares, beq_self_eq_true, Bool.true_or]
  obtain ⟨defined, around', same⟩ := declares_define around here
  exact ⟨defined, around', fun key => (same key).trans (declares key)⟩

/-- The scope of a function declares its parameters. -/
theorem declares_introduceAll (params : List Name) (inside : r.scopes = scope :: outer) :
    ∃ scope', (params.foldl introduce r).scopes = scope' :: outer ∧
      ∀ key, scope'.declares key = (params.any (key == ·.lexeme) || scope.declares key) := by
  induction params generalizing r scope with
  | nil => exact ⟨scope, inside, fun _ => rfl⟩
  | cons name params ih =>
    obtain ⟨first, around, declares⟩ := declares_introduce name inside
    obtain ⟨last, around', declares'⟩ := ih around
    refine ⟨last, around', fun key => ?_⟩
    rw [declares', declares, List.any_cons, ← Bool.or_assoc, Bool.or_comm (params.any _)]

end Resolver

/-! ## Places -/

namespace Placed

variable {sc : Scene} {sites : List Site} {a : Address} {r : Resolver}

/-- A name that is new in its scope may be declared where it is not bound. -/
theorem declaring {name : String} {scopes scopes' : List Scope}
    (placed : Placed sc none sites scopes a)
    (added : ∀ scope outer, scopes = scope :: outer → scope.declares name = false ∧
      ∃ scope', scopes' = scope' :: outer ∧
        ∀ key, scope'.declares key = (key == name || scope.declares key))
    (none_ : scopes = [] → scopes' = []) : Placed sc (some name) sites scopes' a := by
  cases placed with
  | globals =>
    rw [none_ rfl]
    exact .globals
  | @inside _ _ scope _ _ _ _ opened found bound outer =>
    obtain ⟨new, scope', rfl, declares⟩ := added scope _ rfl
    refine .inside opened found (fun key => ?_) outer
    rw [bound, declares]
    by_cases same : key = name
    · subst same
      rw [new]
      simp
    · have other : (key == name) = false := beq_eq_false_iff_ne.mpr same
      have apart : (some name != some key) = true :=
        bne_iff_ne.mpr fun equal => same (Option.some.inj equal).symm
      rw [other, apart]
      simp

theorem declare {name : Name} (placed : Placed sc none sites r.scopes a)
    (silent : (r.declare name).errors = []) :
    Placed sc (some name.lexeme) sites (r.declare name).scopes a :=
  placed.declaring
    (fun _ _ inside => ⟨(Resolver.scopes_declare_cons inside silent).1,
      Resolver.declares_declare name inside⟩)
    (Resolver.scopes_declare_nil name)

theorem introduce {name : Name} (placed : Placed sc none sites r.scopes a)
    (silent : (r.introduce name).errors = []) :
    Placed sc (some name.lexeme) sites (r.introduce name).scopes a :=
  placed.declaring
    (fun _ _ inside => ⟨(Resolver.scopes_introduce_cons inside silent).1,
      Resolver.declares_introduce name inside⟩)
    (Resolver.scopes_introduce_nil name)

/-- Once it is bound the name is declared. -/
theorem bound {name : String} {scopes : List Scope} (placed : Placed sc (some name) sites scopes a)
    (declared : ∀ scope outer, scopes = scope :: outer → scope.declares name = true)
    (value : Value) :
    Placed ⟨sc.heap.define a name value, sc.events, sc.globals⟩ none sites scopes a := by
  have leads : sc.Leads (· = a) ⟨sc.heap.define a name value, sc.events, sc.globals⟩ :=
    ⟨.define sc.heap a name value, List.suffix_refl _, rfl⟩
  cases placed with
  | globals => exact .globals
  | @inside _ _ scope _ _ around bindings opened found binds outer =>
    have found' : (sc.heap.define a name value).frame? a
        = some ⟨bindings.set name value, some around⟩ := by
      rw [Heap.frame?_define, if_pos rfl, found]
      rfl
    refine .inside opened found' (fun key => ?_) (outer.mono leads)
    rw [Bindings.binds_set, binds]
    by_cases same : key = name
    · subst same
      rw [declared scope _ rfl]
      simp
    · have apart : (some name != some key) = true :=
        bne_iff_ne.mpr fun equal => same (Option.some.inj equal).symm
      rw [beq_eq_false_iff_ne.mpr same, apart]
      simp

/-- Scopes that declare the same are at the same place. -/
theorem congr {declaring : Option String} {scopes scopes' : List Scope}
    (placed : Placed sc declaring sites scopes a)
    (same : ∀ scope outer, scopes = scope :: outer →
      ∃ scope', scopes' = scope' :: outer ∧ ∀ key, scope'.declares key = scope.declares key)
    (none_ : scopes = [] → scopes' = []) : Placed sc declaring sites scopes' a := by
  cases placed with
  | globals =>
    rw [none_ rfl]
    exact .globals
  | @inside _ _ scope _ _ _ _ opened found bound outer =>
    obtain ⟨scope', rfl, declares⟩ := same scope _ rfl
    exact .inside opened found (fun key => by rw [declares, bound]) outer

/-- The name of a declaration that is complete is bound. -/
theorem defined {name : Name} (placed : Placed sc (some name.lexeme) sites (r.declare name).scopes a)
    (value : Value) :
    Placed ⟨sc.heap.define a name.lexeme value, sc.events, sc.globals⟩ none sites
      (r.introduce name).scopes a := by
  have declared : ∀ scope outer, (r.declare name).scopes = scope :: outer →
      scope.declares name.lexeme = true := by
    intro scope outer inside
    cases around : r.scopes with
    | nil =>
      rw [Resolver.scopes_declare_nil name around] at inside
      cases inside
    | cons before beyond =>
      obtain ⟨scope', inside', declares⟩ := Resolver.declares_declare name around
      obtain ⟨rfl, -⟩ := List.cons.inj (inside.symm.trans inside')
      rw [declares, beq_self_eq_true, Bool.true_or]
  refine (placed.bound declared value).congr
    (fun scope outer inside => Resolver.declares_define inside (declared scope outer inside))
    fun global => ?_
  unfold Resolver.introduce Resolver.define
  rw [Resolver.scopes_put, global]

theorem introduced {name : Name}
    (placed : Placed sc (some name.lexeme) sites (r.introduce name).scopes a) (value : Value) :
    Placed ⟨sc.heap.define a name.lexeme value, sc.events, sc.globals⟩ none sites
      (r.introduce name).scopes a := by
  refine placed.bound (fun scope outer inside => ?_) value
  cases around : r.scopes with
  | nil =>
    rw [Resolver.scopes_introduce_nil name around] at inside
    cases inside
  | cons before beyond =>
    obtain ⟨scope', inside', declares⟩ := Resolver.declares_introduce name around
    obtain ⟨rfl, -⟩ := List.cons.inj (inside.symm.trans inside')
    rw [declares, beq_self_eq_true, Bool.true_or]

end Placed

/-! ## Declarations -/

section

variable {uses : Use → Prop} {recorded : Use → Distances → Prop} {sites : List Site} {a : Address}
  {r : Resolver}

/-- A variable is bound once its initializer has a value. -/
theorem keeps_define (name : Name) (identifier : name.IsIdentifier) (value : Value) :
    Keeps uses recorded (· = a) (Told.lift (Eval.define name.lexeme value))
      (fun s => At sites (r.declare name).scopes (some name.lexeme) a s ∧
        value.Known uses s.scene)
      fun _ s => At sites (r.introduce name).scopes none a s := by
  rintro s sound ⟨⟨rfl, placed⟩, known⟩
  have grows := Heap.Grows.define s.machine.heap s.machine.current name.lexeme value
  have leads : s.scene.Leads (· = s.machine.current)
      ⟨s.machine.heap.define s.machine.current name.lexeme value, s.events, s.machine.globals⟩ :=
    ⟨grows, List.suffix_refl _, rfl⟩
  obtain ⟨leads', sound'⟩ := sound.define identifier.spared grows (known.mono leads fun _ => id)
  exact ⟨leads', sound', rfl, placed.defined value⟩

theorem FunctionDecl.Formed.identifier {f : FunctionDecl} (formed : f.Formed) :
    f.name.IsIdentifier := by
  cases f with
  | mk name params body => exact formed.1

/-- A function is known as soon as its own name is bound, which its code may use. -/
theorem keeps_declareFunction (f : FunctionDecl) (formed : f.Formed)
    (inside : ∀ u ∈ f.uses sites .function (r.introduce f.name), uses u)
    (silent : (Resolver.function f .function (r.introduce f.name)).errors = [])
    (named : (r.introduce f.name).errors = []) :
    Keeps uses recorded (· = a) (Traced.declareFunction f)
      (At sites r.scopes none a) fun _ s => At sites (r.introduce f.name).scopes none a s := by
  rintro s sound ⟨rfl, placed⟩
  obtain ⟨leads₁, sound₁⟩ := sound.allocate .identity trivial
  have placed₁ := (placed.introduce named).mono leads₁.scene
  have placed₂ := placed₁.introduced
    (.closure ⟨s.machine.heap.cells.size, f, s.machine.current, false⟩)
  have grows := Heap.Grows.define (s.machine.heap.allocate .identity).2 s.machine.current
    f.name.lexeme (.closure ⟨s.machine.heap.cells.size, f, s.machine.current, false⟩)
  obtain ⟨leads₂, sound₂⟩ := sound₁.define formed.identifier.spared grows
    ⟨sites, r.introduce f.name, .function, placed₂.layout, inside, formed, silent⟩
  exact ⟨leads₁.anywhere.trans leads₂, sound₂, rfl, placed₂⟩

/-- The value of a variable is known. -/
theorem keeps_lookUp {growing : Address → Prop} {pre : Observed → Prop} (id : NodeId)
    (name : String) (line : Nat) :
    Keeps uses recorded growing (Told.lift (Eval.lookUp id name line)) pre
      fun value s => value.Known uses s.scene := by
  refine keeps_reading fun s sound _ => ?_
  rcases Eval.lookUp_cases id name line s.machine with ⟨frame, value, _, found, same⟩ | same
  · exact .inl ⟨value, same, sound.read? found⟩
  · exact .inr ⟨_, same⟩

/-! ### Classes -/

/-- What is known of a superclass: it is there if one is written, and then it is a known class. -/
def SuperclassKnown (uses : Use → Prop) (parent : Option Superclass) (above : Option Class)
    (s : Observed) : Prop :=
  above.isSome = parent.isSome ∧ ∀ c, above = some c → c.Known uses s.scene

theorem stable_superclassKnown (parent : Option Superclass) (above : Option Class) :
    Stable (SuperclassKnown uses parent above) :=
  fun _ _ leads known => ⟨known.1, fun c same =>
    Class.Known.mono c (known.2 c same) leads.scene fun _ => id⟩

/-- What was noted last of a superclass: that it was looked up, and was the class that it is. -/
def SuperclassNoted (parent : Option Superclass) (above : Option Class) (s : Observed) : Prop :=
  ∀ p c, parent = some p → above = some c → ∃ m before,
    s.events = .used p.access m :: before ∧ Eval.superclass? (some p) m = .ok (some c) m

theorem keeps_superclass? (parent : Option Superclass) {scopes : List Scope}
    {declaring : Option String}
    (known : ∀ p, parent = some p → uses ⟨p.access, sites, scopes, declaring⟩) :
    Keeps uses recorded nowhere (Traced.superclass? parent) (At sites scopes declaring a)
      fun above s => SuperclassKnown uses parent above s ∧ SuperclassNoted parent above s := by
  cases parent with
  | none => exact keeps_pure fun _ _ => ⟨⟨rfl, fun _ => nofun⟩, fun _ _ => nofun⟩
  | some parent =>
    refine (keeps_used (known parent rfl)).bind fun _ => keeps_reading fun s sound noted => ?_
    obtain ⟨before, noted⟩ := noted
    rcases Eval.superclass?_cases parent s.machine with ⟨frame, c, _, found, same⟩ | ⟨cause, same⟩
    · refine .inl ⟨some c, same, ⟨rfl, fun other equal => ?_⟩, ?_⟩
      · have known := sound.read? found
        exact Option.some.inj equal ▸ known
      · intro p other equal equal'
        cases equal
        cases equal'
        exact ⟨s.machine, before, noted, same⟩
    · exact .inr ⟨_, same⟩

/-- The frame around the methods of a class that is defined in the frame `a`: this frame itself, or
one that binds `super`. -/
def MethodsFrame (name : Name) (parent : Option Superclass) (methods : List FunctionDecl)
    (a frame : Address) (s : Observed) : Prop :=
  match parent with
  | none => frame = a
  | some parent => .opened (.superclass name parent methods) frame a ∈ s.events ∧
      ∃ bindings, s.machine.heap.frame? frame = some ⟨bindings, some a⟩ ∧
        bindings.binds "super" = true

theorem keeps_methodFrame (name : Name) (parent : Option Superclass) (methods : List FunctionDecl)
    (above : Option Class) {scopes : List Scope} {declaring : Option String} :
    Keeps uses recorded nowhere (Traced.methodFrame name parent methods above)
      (fun s => At sites scopes declaring a s ∧ SuperclassKnown uses parent above s ∧
        SuperclassNoted parent above s)
      (MethodsFrame name parent methods a) := by
  rintro s sound ⟨⟨rfl, placed⟩, ⟨agree, known⟩, noted⟩
  cases parent with
  | none =>
    obtain rfl : above = none := Option.isSome_eq_false_iff.mp agree |> Option.isNone_iff_eq_none.mp
    exact ⟨.refl nowhere s, sound, rfl⟩
  | some parent =>
    obtain ⟨c, rfl⟩ := Option.isSome_iff_exists.mp agree
    have cell : (Cell.frame ⟨Bindings.empty.set "super" (.class c), some s.machine.current⟩).Known
        uses s.scene := Bindings.forall_single (known c rfl)
    obtain ⟨leads₁, sound₁⟩ := sound.allocate _ cell
    have found := Heap.frame?_allocateFrame s.machine.heap (some s.machine.current)
      (Bindings.empty.set "super" (.class c))
    obtain ⟨m, before, last, evaluated⟩ := noted parent c rfl rfl
    obtain ⟨leads₂, sound₂⟩ := sound₁.opened (.superclass name parent methods)
      s.machine.heap.cells.size s.machine.current
      ⟨m, c, before, last ▸ List.suffix_refl _, evaluated, Heap.read?_single found⟩
    refine ⟨leads₁.trans leads₂, sound₂, List.mem_cons_self, _, found, ?_⟩
    rw [Bindings.binds_set]
    rfl

/-- The layout around the methods of a class, once its name is bound. -/
theorem MethodsFrame.layout {name : Name} {parent : Option Superclass}
    {methods : List FunctionDecl} {frame : Address} {s : Observed} {sc : Scene}
    {growing : Address → Prop} (around : MethodsFrame name parent methods a frame s)
    (leads : s.scene.Leads growing sc) (placed : Placed sc none sites (r.introduce name).scopes a) :
    ∃ sites' scopes, (r.enterClass name parent).scopes = receiverScope :: scopes ∧
      Layout sc sites' scopes frame ∧
      sites' = match parent with
        | some parent => .superclass name parent methods :: sites
        | none => sites := by
  have scopes := Resolver.scopes_enterClass name parent r
  cases parent with
  | none =>
    obtain rfl : frame = a := around
    exact ⟨sites, _, scopes, placed.layout, rfl⟩
  | some parent =>
    obtain ⟨opened, bindings, found, binds⟩ := around
    obtain ⟨⟨bindings', around'⟩, found', link, kept, -⟩ := leads.grows _ _ found
    obtain rfl : around' = some a := link
    refine ⟨_, _, scopes, .inside (leads.events.subset opened) found' ?_ placed.layout, rfl⟩
    intro key declared
    have same : key = "super" := by
      unfold superScope Scope.declares Scope.ready? at declared
      rw [List.lookup_cons] at declared
      cases equal : key == "super" with
      | true => exact beq_iff_eq.mp equal
      | false =>
        rw [equal] at declared
        cases declared
    exact same ▸ kept "super" binds

/-- All methods of a class are known. -/
theorem knownMethods {sc : Scene} {scopes : List Scope} {frame : Address} {inside : Resolver}
    (around : inside.scopes = receiverScope :: scopes) (layout : Layout sc sites scopes frame)
    (fs : List FunctionDecl) (formed : FunctionDecl.AllFormed fs)
    (known : ∀ u ∈ FunctionDecl.usesOfMethods sites fs inside, uses u)
    (silent : (Resolver.methods fs inside).errors = []) :
    ∀ f ∈ fs, f.KnownMethod uses sc frame := by
  induction fs generalizing inside with
  | nil => exact fun _ member => absurd member List.not_mem_nil
  | cons f fs ih =>
    intro g member
    rcases List.mem_cons.mp member with rfl | later
    · refine ⟨sites, inside, _, scopes, around, layout,
        fun u used => known u (List.mem_append_left _ used), formed.1, ?_⟩
      exact (Resolver.walks_methods [] fs formed.2 _).silent silent
    · refine ih ?_ formed.2 (fun u used => known u (List.mem_append_right _ used)) silent g later
      rw [Resolver.scopes_function f formed.1]
      exact around

/-- A class is known as soon as its own name is bound, which its methods may use. -/
theorem keeps_newClass (name : Name) (parent : Option Superclass) (methods : List FunctionDecl)
    (above : Option Class) (frame : Address) (formed : (Stmt.class name parent methods).Formed)
    (inside : ∀ u ∈ Stmt.uses sites (.class name parent methods) r, uses u)
    (silent : (Resolver.methods methods (r.enterClass name parent)).errors = []) :
    Keeps uses recorded (· = a)
      (do
        let c ← Told.telling (Eval.create (·.newClass name.lexeme above frame methods)) fun c =>
          Note.creates (.class c)
        Told.lift (Eval.define name.lexeme (.class c)))
      (fun s => (At sites (r.introduce name).scopes (some name.lexeme) a s ∧
        SuperclassKnown uses parent above s) ∧ MethodsFrame name parent methods a frame s)
      fun _ s => At sites (r.introduce name).scopes none a s := by
  rintro s sound ⟨⟨⟨rfl, placed⟩, known⟩, around⟩
  let c : Class := ⟨s.machine.heap.cells.size, name.lexeme, above, frame, methods⟩
  obtain ⟨leads₁, sound₁⟩ := sound.allocate .identity trivial
  have grows := Heap.Grows.define (s.machine.heap.allocate .identity).2 s.machine.current
    name.lexeme (.class c)
  have leads : s.scene.Leads (· = s.machine.current)
      ⟨(s.machine.heap.allocate .identity).2.define s.machine.current name.lexeme (.class c),
        s.events, s.machine.globals⟩ :=
    (leads₁.scene.weaken fun _ => False.elim).trans ⟨grows, List.suffix_refl _, rfl⟩
  have placed₂ := (placed.mono leads₁.scene).introduced (.class c)
  have each : ∀ f ∈ methods, f.KnownMethod uses
      ⟨(s.machine.heap.allocate .identity).2.define s.machine.current name.lexeme (.class c),
        s.events, s.machine.globals⟩ frame := by
    -- The frame of the methods was opened for the scopes in which the analysis meets them.
    obtain ⟨sites', scopes, entered, layout, same⟩ := around.layout leads placed₂
    refine knownMethods entered layout methods formed.2 (fun u used => inside u ?_) silent
    subst same
    cases parent with
    | none => exact used
    | some parent => exact List.mem_cons_of_mem _ used
  have classKnown : c.Known uses
      ⟨(s.machine.heap.allocate .identity).2.define s.machine.current name.lexeme (.class c),
        s.events, s.machine.globals⟩ := by
    refine Class.known_of each fun other same => ?_
    exact Class.Known.mono other (known.2 other same) leads fun _ => id
  obtain ⟨leads₂, sound₂⟩ := sound₁.define formed.1.spared grows classKnown
  exact ⟨leads₁.anywhere.trans leads₂, sound₂, rfl, placed₂⟩

theorem keeps_declareClass (name : Name) (parent : Option Superclass)
    (methods : List FunctionDecl) (formed : (Stmt.class name parent methods).Formed)
    (inside : ∀ u ∈ Stmt.uses sites (.class name parent methods) r, uses u)
    (silent : (Resolver.statement (.class name parent methods) r).errors = []) :
    Keeps uses recorded (· = a) (Traced.declareClass name parent methods)
      (At sites r.scopes none a) fun _ s => At sites (r.introduce name).scopes none a s := by
  have walked := Resolver.silent_class silent
  have named := Resolver.silent_enterClass
    ((Resolver.walks_methods [] methods formed.2 _).silent walked)
  have ready : ∀ s, At sites r.scopes none a s →
      At sites (r.introduce name).scopes (some name.lexeme) a s := by
    rintro s ⟨here, placed⟩
    refine ⟨here, ?_⟩
    have announced := Placed.introduce (r := { r with classContext := .base }) placed named
    rwa [Resolver.scopes_introduce_base] at announced
  have used : ∀ p, parent = some p →
      uses ⟨p.access, sites, (r.introduce name).scopes, some name.lexeme⟩ := by
    rintro p rfl
    have first := inside _ List.mem_cons_self
    rwa [Resolver.scopes_introduce_base] at first
  refine Keeps.given ?_ ready
  refine (keeps_superclass? parent used).then (stable_at _ _ _ _) fun above => ?_
  refine (keeps_methodFrame name parent methods above).bind_carry
    ((stable_at _ _ _ _).and (stable_superclassKnown parent above))
    (fun s given => ⟨given.1, given.2.1⟩) fun frame => ?_
  exact keeps_newClass name parent methods above frame formed inside walked

end

end Lox
