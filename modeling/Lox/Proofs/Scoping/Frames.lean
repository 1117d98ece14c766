import Lox.Proofs.Growth
import Lox.Proofs.Restoration
import Lox.Proofs.Trace
import Lox.Proofs.Scoping.Walk

/-!
# Scopes and frames

At run time every scope around a piece of code has a frame: the one that was opened when the part of
the program that opens the scope was entered. `Layout` says this of the code of a function, which
keeps the frames around it after they have been left: each frame was opened for its site inside the
next one, the outermost inside the globals, and binds at least the names that its scope declares.
`Placed` says it of code that is running: its innermost frame binds exactly these names, but for the
one that is just being declared.

Frames only grow, so a layout stays one, and so does everything that is said here of values.
-/

set_option autoImplicit false

namespace Lox

open Resolver (receiverScope superScope)

/-- What addresses mean: the heap, what was noted of the run, and the address of the globals. -/
structure Scene where
  heap : Heap
  events : List Event
  globals : Address

/-- One scene leads to another, and only frames in `growing` take new names. -/
structure Scene.Leads (growing : Address → Prop) (sc sc' : Scene) : Prop where
  grows : sc.heap.Grows growing sc'.heap
  events : sc.events <:+ sc'.events
  globals : sc'.globals = sc.globals

namespace Scene.Leads

variable {growing other : Address → Prop} {sc sc₁ sc₂ : Scene}

theorem refl (growing : Address → Prop) (sc : Scene) : sc.Leads growing sc :=
  ⟨.refl growing sc.heap, List.suffix_refl _, rfl⟩

theorem trans (first : sc.Leads growing sc₁) (second : sc₁.Leads growing sc₂) :
    sc.Leads growing sc₂ :=
  ⟨first.grows.trans second.grows, first.events.trans second.events,
    second.globals.trans first.globals⟩

theorem weaken (leads : sc.Leads growing sc₁) (more : ∀ a, growing a → other a) :
    sc.Leads other sc₁ :=
  ⟨leads.grows.weaken more, leads.events, leads.globals⟩

/-- What is noted changes no frame. -/
theorem note (growing : Address → Prop) (sc : Scene) (event : Event) :
    sc.Leads growing { sc with events := event :: sc.events } :=
  ⟨.refl growing sc.heap, List.suffix_cons _ _, rfl⟩

end Scene.Leads

/-! ## Layouts -/

/-- From a frame outwards, the frames that were opened for the sites. -/
inductive Layout (sc : Scene) : List Site → List Scope → Address → Prop
  | globals : Layout sc [] [] sc.globals
  | inside {site : Site} {sites : List Site} {scope : Scope} {scopes : List Scope}
      {frame around : Address} {bindings : Bindings Value}
      (opened : .opened site frame around ∈ sc.events)
      (found : sc.heap.frame? frame = some ⟨bindings, some around⟩)
      (bound : ∀ name, scope.declares name = true → bindings.binds name = true)
      (outer : Layout sc sites scopes around) : Layout sc (site :: sites) (scope :: scopes) frame

/-- From the frame of running code outwards, the frames that were opened for the sites. A name that
is just being declared is not bound yet. -/
inductive Placed (sc : Scene) (declaring : Option String) :
    List Site → List Scope → Address → Prop
  | globals : Placed sc declaring [] [] sc.globals
  | inside {site : Site} {sites : List Site} {scope : Scope} {scopes : List Scope}
      {frame around : Address} {bindings : Bindings Value}
      (opened : .opened site frame around ∈ sc.events)
      (found : sc.heap.frame? frame = some ⟨bindings, some around⟩)
      (bound : ∀ name, bindings.binds name = (scope.declares name && declaring != some name))
      (outer : Layout sc sites scopes around) :
      Placed sc declaring (site :: sites) (scope :: scopes) frame

namespace Layout

variable {sc sc' : Scene} {growing : Address → Prop} {sites : List Site} {scopes : List Scope}
  {a : Address}

/-- A layout stays one. -/
theorem mono (layout : Layout sc sites scopes a) (leads : sc.Leads growing sc') :
    Layout sc' sites scopes a := by
  induction layout with
  | globals => exact leads.globals ▸ .globals
  | inside opened found bound _ ih =>
    obtain ⟨⟨bindings', around'⟩, found', link, kept, -⟩ := leads.grows _ _ found
    obtain rfl : around' = some _ := link
    exact .inside (leads.events.subset opened) found' (fun name declared =>
      kept name (bound name declared)) ih

theorem length_eq (layout : Layout sc sites scopes a) : sites.length = scopes.length := by
  induction layout with
  | globals => rfl
  | inside _ _ _ _ ih => exact congrArg (· + 1) ih

/-- As many links out as there are scopes are the globals. -/
theorem outer?_globals (layout : Layout sc sites scopes a) :
    sc.heap.outer? a scopes.length = some sc.globals := by
  induction layout with
  | globals => rfl
  | inside _ found _ _ ih =>
    rw [List.length_cons, Heap.outer?, Heap.enclosing?, found]
    exact ih

/-- The frames that many links out were opened for the site, one inside the next. -/
theorem outer? (layout : Layout sc sites scopes a) {i : Nat} {site : Site}
    (at_ : sites[i]? = some site) :
    ∃ frame around, sc.heap.outer? a i = some frame ∧ sc.heap.outer? a (i + 1) = some around ∧
      .opened site frame around ∈ sc.events := by
  induction layout generalizing i with
  | globals => cases at_
  | @inside _ _ _ _ frame around _ opened found _ _ ih =>
    have link : sc.heap.enclosing? frame = some around := by rw [Heap.enclosing?, found]; rfl
    cases i with
    | zero =>
      obtain rfl := Option.some.inj at_
      refine ⟨frame, around, rfl, ?_, opened⟩
      rw [Heap.outer?, link]
      rfl
    | succ i =>
      obtain ⟨inner, outer, here, there, opened⟩ := ih at_
      refine ⟨inner, outer, ?_, ?_, opened⟩
      · rw [Heap.outer?, link]
        exact here
      · rw [Heap.outer?, link]
        exact there

/-- A frame binds what its scope declares. -/
theorem binds_outer? (layout : Layout sc sites scopes a) {i : Nat} {scope : Scope} {name : String}
    (at_ : scopes[i]? = some scope) (declared : scope.declares name = true) :
    ∃ frame, sc.heap.outer? a i = some frame ∧ sc.heap.binds frame name = true := by
  induction layout generalizing i with
  | globals => cases at_
  | @inside _ _ _ _ frame around _ _ found bound _ ih =>
    cases i with
    | zero =>
      obtain rfl := Option.some.inj at_
      exact ⟨frame, rfl, Heap.binds_eq_true.mpr ⟨_, found, bound name declared⟩⟩
    | succ i =>
      obtain ⟨inner, here, binds⟩ := ih at_
      refine ⟨inner, ?_, binds⟩
      rw [Heap.outer?, Heap.enclosing?, found]
      exact here

end Layout

namespace Placed

variable {sc sc' : Scene} {declaring : Option String} {sites : List Site} {scopes : List Scope}
  {a : Address}

/-- Code outside all scopes is placed at the globals. -/
theorem eq_globals (placed : Placed sc declaring sites [] a) : a = sc.globals := by
  cases placed
  rfl

/-- Where no name is being declared, code is placed as the functions that it declares will be. -/
theorem layout (placed : Placed sc none sites scopes a) : Layout sc sites scopes a := by
  cases placed with
  | globals => exact .globals
  | inside opened found bound outer =>
    refine .inside opened found (fun name declared => ?_) outer
    rw [bound, declared]
    rfl

/-- The layout around a place, whether or not a name is being declared there. -/
theorem links (placed : Placed sc declaring sites scopes a) :
    ∃ scopes', scopes'.length = scopes.length ∧ Layout sc sites scopes' a := by
  cases placed with
  | globals => exact ⟨[], rfl, .globals⟩
  | @inside _ _ scope scopes _ _ _ opened found _ outer =>
    exact ⟨[] :: scopes, rfl, .inside opened found (fun _ => nofun) outer⟩

/-- Placed code stays where it is while no frame takes new names. -/
theorem mono (placed : Placed sc declaring sites scopes a) (leads : sc.Leads Heap.nowhere sc') :
    Placed sc' declaring sites scopes a := by
  cases placed with
  | globals => exact leads.globals ▸ .globals
  | inside opened found bound outer =>
    obtain ⟨⟨bindings', around'⟩, found', link, -, same⟩ := leads.grows _ _ found
    obtain rfl : around' = some _ := link
    exact .inside (leads.events.subset opened) found'
      (fun name => (same id name).trans (bound name)) (outer.mono leads)

/-- The frame in which the scopes declare a name binds it, unless it is just being declared. -/
theorem binds_outer? (placed : Placed sc declaring sites scopes a) {d : Nat} {name : String}
    (declared : scopes.findIdx? (fun scope => scope.declares name) = some d)
    (pending : declaring = some name → d = 0) :
    ∃ frame, sc.heap.outer? a d = some frame ∧
      sc.heap.binds frame name = (declaring != some name) := by
  cases placed with
  | globals => cases declared
  | @inside _ _ scope scopes _ around bindings opened found bound outer =>
    have here : sc.heap.binds a name = bindings.binds name := by
      unfold Heap.binds
      rw [found]
    rw [List.findIdx?_cons] at declared
    split at declared
    · next found =>
      obtain rfl := Option.some.inj declared
      refine ⟨a, rfl, ?_⟩
      rw [here, bound, found, Bool.true_and]
    · cases further : scopes.findIdx? (fun scope => scope.declares name) with
      | none =>
        rw [further] at declared
        cases declared
      | some i =>
        rw [further] at declared
        obtain rfl : i + 1 = d := Option.some.inj declared
        obtain ⟨inside, declares, -⟩ := List.findIdx?_eq_some_iff_getElem.mp further
        obtain ⟨owner, reached, binds⟩ :=
          outer.binds_outer? (List.getElem?_eq_getElem inside) declares
        refine ⟨owner, ?_, ?_⟩
        · rw [Heap.outer?, Heap.enclosing?, found]
          exact reached
        · have elsewhere : declaring ≠ some name := fun same => absurd (pending same) (by omega)
          rw [binds, bne_iff_ne.mpr elsewhere]

end Placed

/-! ## Code that is known

A set of uses is given. Code is known if all its uses are among them, in the surroundings that they
have in the code. -/

section

variable (uses : Use → Prop)

/-- A function whose uses are known and around which lie the frames of their surroundings. -/
def FunctionDecl.Known (sc : Scene) (f : FunctionDecl) (frame : Address) : Prop :=
  ∃ sites r context, Layout sc sites r.scopes frame ∧ (∀ u ∈ f.uses sites context r, uses u) ∧
    f.Formed ∧ (Resolver.function f context r).errors = []

/-- A method, around which a receiver will lie inside the frames of the class. -/
def FunctionDecl.KnownMethod (sc : Scene) (f : FunctionDecl) (frame : Address) : Prop :=
  ∃ sites r context scopes, r.scopes = receiverScope :: scopes ∧ Layout sc sites scopes frame ∧
    (∀ u ∈ f.uses (.receiver f :: sites) context r, uses u) ∧ f.Formed ∧
    (Resolver.function f context r).errors = []

/-- A class whose methods are known, and likewise the classes above it. -/
def Class.Known (sc : Scene) : Class → Prop
  | ⟨_, _, parent, frame, methods⟩ =>
    (∀ f ∈ methods, f.KnownMethod uses sc frame) ∧
      match parent with
      | some above => above.Known sc
      | none => True

/-- A value all of whose code is known. -/
def Value.Known (sc : Scene) : Value → Prop
  | .closure f => f.declaration.Known uses sc f.frame
  | .class c => c.Known uses sc
  | .instance i => i.of.Known uses sc
  | .nil | .bool _ | .number _ | .string _ | .native _ => True

/-- A cell that holds known values. -/
def Cell.Known (sc : Scene) : Cell → Prop
  | .frame f => ∀ name value, f.bindings.find? name = some value → value.Known uses sc
  | .fields b => ∀ name value, b.find? name = some value → value.Known uses sc
  | .identity => True

end

section

variable {uses more : Use → Prop} {sc sc' : Scene} {growing : Address → Prop}

theorem FunctionDecl.Known.mono {f : FunctionDecl} {frame : Address} (known : f.Known uses sc frame)
    (leads : sc.Leads growing sc') (all : ∀ u, uses u → more u) : f.Known more sc' frame := by
  obtain ⟨sites, r, context, layout, inside, formed, silent⟩ := known
  exact ⟨sites, r, context, layout.mono leads, fun u member => all u (inside u member), formed,
    silent⟩

theorem FunctionDecl.KnownMethod.mono {f : FunctionDecl} {frame : Address}
    (known : f.KnownMethod uses sc frame) (leads : sc.Leads growing sc')
    (all : ∀ u, uses u → more u) : f.KnownMethod more sc' frame := by
  obtain ⟨sites, r, context, scopes, receiver, layout, inside, formed, silent⟩ := known
  exact ⟨sites, r, context, scopes, receiver, layout.mono leads,
    fun u member => all u (inside u member), formed, silent⟩

theorem Class.known_of {c : Class} (methods : ∀ f ∈ c.methods, f.KnownMethod uses sc c.frame)
    (parent : ∀ above, c.parent = some above → above.Known uses sc) : c.Known uses sc := by
  match c, methods, parent with
  | ⟨_, _, some above, _, _⟩, methods, parent => exact ⟨methods, parent above rfl⟩
  | ⟨_, _, none, _, _⟩, methods, parent => exact ⟨methods, trivial⟩

theorem Class.Known.methods {c : Class} (known : c.Known uses sc) :
    ∀ f ∈ c.methods, f.KnownMethod uses sc c.frame := by
  match c, known with
  | ⟨_, _, some _, _, _⟩, known | ⟨_, _, none, _, _⟩, known => exact known.1

theorem Class.Known.mono (c : Class) (known : c.Known uses sc) (leads : sc.Leads growing sc')
    (all : ∀ u, uses u → more u) : c.Known more sc' := by
  have inside : ∀ f ∈ c.methods, f.KnownMethod more sc' c.frame :=
    fun f member => (known.methods f member).mono leads all
  match c, known, inside with
  | ⟨_, _, some above, _, _⟩, known, inside => exact ⟨inside, mono above known.2 leads all⟩
  | ⟨_, _, none, _, _⟩, known, inside => exact ⟨inside, trivial⟩

theorem Value.Known.mono {value : Value} (known : value.Known uses sc)
    (leads : sc.Leads growing sc') (all : ∀ u, uses u → more u) : value.Known more sc' := by
  cases value with
  | closure f => exact FunctionDecl.Known.mono known leads all
  | «class» c => exact Class.Known.mono c known leads all
  | «instance» i => exact Class.Known.mono i.of known leads all
  | nil | bool | number | string | native => trivial

theorem Cell.Known.mono {cell : Cell} (known : cell.Known uses sc)
    (leads : sc.Leads growing sc') (all : ∀ u, uses u → more u) : cell.Known more sc' := by
  cases cell with
  | frame f => exact fun name value found => (known name value found).mono leads all
  | fields b => exact fun name value found => (known name value found).mono leads all
  | identity => trivial

theorem Class.Known.parent {c above : Class} (known : c.Known uses sc)
    (inherits : c.parent = some above) : above.Known uses sc := by
  match c, known, inherits with
  | ⟨_, _, some _, _, _⟩, known, rfl => exact known.2

/-- A method that a class finds is known, in whichever class above it stands. -/
theorem Class.Known.method? (c : Class) (known : c.Known uses sc) {name : String} {method : Method}
    (found : c.method? name = some method) :
    method.declaration.KnownMethod uses sc method.frame := by
  obtain ⟨owner, known, member, frame⟩ :=
    Class.method?_mem (fun _ _ known => Class.Known.parent known) c known found
  exact frame ▸ known.methods _ member

end

end Lox
