import Lox.Proofs.Scoping.Opening

/-!
# Scopes and frames stay aligned

The evaluator keeps states sound: wherever it meets a use, the frames around the place are those
that were opened for the scopes around the use. The proof is by induction on the bound of the
evaluation, with one fact for each of its functions: expressions declare nothing, and a statement
that ends normally has declared what the analysis says of it (`Resolver.scopesAfter`).
-/

set_option autoImplicit false

namespace Lox

open Heap (nowhere)

variable {uses : Use → Prop} {recorded : Use → Distances → Prop}

/-- A completion with a known value, if it has one. -/
def Completion.Known (uses : Use → Prop) (sc : Scene) : Completion → Prop
  | .normal => True
  | .returned value => value.Known uses sc

/-! ## Operations without effect on places -/

/-- A place that a use finds binds its name. -/
theorem Machine.binds_place? {m : Machine} {id : NodeId} {name : String} {frame : Address}
    (found : m.place? id name = some frame) : m.heap.binds frame name = true := by
  unfold Machine.place? at found
  split at found
  · exact Heap.binds_ownerAt? found
  · exact Heap.binds_owner? found

theorem keeps_assign (id : NodeId) (name : Name) (spared : Spared name.lexeme) (value : Value) :
    Keeps uses recorded nowhere (Told.lift (Eval.assign id name value))
      (fun s => value.Known uses s.scene) fun _ _ => True := by
  intro s sound known
  unfold Traced.observed Told.lift
  rcases Eval.assign_cases id name value s.machine with ⟨frame, place, same⟩ | ⟨_, same⟩
  · rw [same]
    have grows := Heap.Grows.assign (Machine.binds_place? place) value
    have leads : s.scene.Leads nowhere
        ⟨s.machine.heap.define frame name.lexeme value, s.events, s.machine.globals⟩ :=
      ⟨grows, List.suffix_refl _, rfl⟩
    obtain ⟨leads', sound'⟩ := sound.define spared grows (known.mono leads fun _ used => used)
    exact ⟨leads', sound', trivial⟩
  · rw [same]
    exact ⟨.refl nowhere s, sound⟩

theorem keeps_setField (i : Instance) (name : String) (value : Value) :
    Keeps uses recorded nowhere (Told.lift (Eval.setField i name value))
      (fun s => value.Known uses s.scene) fun _ _ => True := by
  intro s sound known
  obtain ⟨leads, sound'⟩ := sound.setField i name known
  exact ⟨leads, sound', trivial⟩

theorem keeps_newInstance (c : Class) :
    Keeps uses recorded nowhere (Traced.newInstance c)
      (fun s => c.Known uses s.scene) fun i s =>
        i.of = c ∧ (Value.instance i).Known uses s.scene := by
  intro s sound known
  have cell : (Cell.fields .empty).Known uses s.scene := fun _ _ => nofun
  obtain ⟨leads, sound'⟩ := sound.allocate _ cell
  exact ⟨leads, sound', rfl, Class.Known.mono c known leads.scene fun _ => id⟩

/-- Output changes the sink and nothing else. -/
theorem leaves_writeAll (line : Nat) (texts : List String) (m : Machine) :
    ∃ sink, (Eval.writeAll line texts).leaves m = { m with sink := sink } := by
  induction texts generalizing m with
  | nil => exact ⟨m.sink, rfl⟩
  | cons text texts ih =>
    unfold Eval.writeAll
    rw [Eval.leaves_bind]
    unfold Eval.write
    rcases m.sink.write text with ⟨refusal, sink⟩
    cases refusal with
    | none => exact ih { m with sink := sink }
    | some reason => exact ⟨sink, rfl⟩

theorem keeps_print (value : Value) (line : Nat) :
    Keeps uses recorded nowhere (Told.lift (Eval.print value line)) (fun _ => True)
      fun _ _ => True := by
  intro s sound _
  obtain ⟨sink, same⟩ := leaves_writeAll line (value.parts ++ ["\n"]) s.machine
  have kept := Eval.restores_writeAll line (value.parts ++ ["\n"]) s.machine
  rw [same] at kept
  have written : s.Leads nowhere ⟨{ s.machine with sink := sink }, s.events⟩ :=
    ⟨kept, .refl nowhere s.scene⟩
  unfold Eval.leaves at same
  unfold Traced.observed Told.lift Eval.print
  cases ends : Eval.writeAll line (value.parts ++ ["\n"]) s.machine with
  | ok _ m =>
    rw [ends] at same
    obtain rfl : m = { s.machine with sink := sink } := same
    exact ⟨written, sound.elsewhere rfl rfl rfl, trivial⟩
  | error stop m =>
    rw [ends] at same
    obtain rfl : m = { s.machine with sink := sink } := same
    exact ⟨written, sound.elsewhere rfl rfl rfl⟩

theorem keeps_checkCall (callee : Value) (count line : Nat) (pre : Observed → Prop) :
    Keeps uses recorded nowhere (Told.lift (Eval.checkCall callee count line)) pre
      fun _ _ => callee.arity? = some count := by
  unfold Eval.checkCall
  cases callee.arity? with
  | none => exact keeps_fail _ _
  | some arity =>
    show Keeps uses recorded nowhere (Told.lift (if count = arity then pure () else
      Eval.fail (.wrongArity arity count) line)) pre _
    by_cases same : count = arity
    · rw [if_pos same]
      exact keeps_reading fun s _ _ => .inl ⟨(), rfl, by rw [same]⟩
    · rw [if_neg same]
      exact keeps_fail _ _

theorem keeps_result (f : Closure) (line : Nat) (completion : Completion)
    {growing : Address → Prop} :
    Keeps uses recorded growing (Told.lift (Eval.result f line completion))
      (fun s => completion.Known uses s.scene) fun value s => value.Known uses s.scene := by
  refine keeps_reading fun s sound known => ?_
  rcases Eval.result_cases f line completion s.machine with
    ⟨value, _, found, same⟩ | ⟨_, _, same⟩ | ⟨value, _, rfl, same⟩ | ⟨_, _, same⟩
  · exact .inl ⟨value, same, sound.read? found⟩
  · exact .inr ⟨_, same⟩
  · exact .inl ⟨value, same, known⟩
  · exact .inl ⟨.nil, same, trivial⟩

/-- What holds no code is known wherever it is. -/
theorem Value.known_of_isData {value : Value} (data : value.IsData) (sc : Scene) :
    value.Known uses sc := by
  cases value with
  | nil | bool | number | string | native => trivial
  | closure | «class» | «instance» => cases data

/-- A function of the host gives no code but what it is given. -/
theorem keeps_callNative (f : Native) (arguments : List Value) (line : Nat) :
    Keeps uses recorded nowhere (Told.lift (Eval.callNative f arguments line))
      (fun s => ∀ value ∈ arguments, value.Known uses s.scene)
      fun value s => value.Known uses s.scene := by
  intro s sound known
  let looked : Observed := ⟨{ s.machine with clock := s.machine.clock.after f }, s.events⟩
  have leads : s.Leads nowhere looked := ⟨⟨rfl, rfl, rfl, rfl, rfl, rfl⟩, .refl nowhere s.scene⟩
  have sound' : looked.Sound uses recorded := sound.elsewhere rfl rfl rfl
  unfold Traced.observed Told.lift Eval.callNative
  rw [Eval.bind_eq]
  unfold Eval.readClock
  dsimp only
  cases ok : f.call s.machine.clock.reading arguments with
  | ok value =>
    refine ⟨leads, sound', ?_⟩
    rcases Native.call_cases ok with data | argument
    · exact Value.known_of_isData data s.scene
    · exact known value argument
  | error cause => exact ⟨leads, sound'⟩

/-! ## The evaluator -/

variable (uses recorded) in
/-- All functions of the evaluator keep states sound within a bound. -/
structure Aligned (bound : Nat) : Prop where
  evaluate {sites : List Site} {scopes : List Scope} {declaring : Option String} {a : Address}
    (e : Expr) (known : ∀ x ∈ e.accesses, uses ⟨x, sites, scopes, declaring⟩) :
    Keeps uses recorded nowhere (Traced.evaluate bound e) (At sites scopes declaring a)
      fun value s => value.Known uses s.scene
  evaluateAll {sites : List Site} {scopes : List Scope} {declaring : Option String} {a : Address}
    (es : List Expr) (known : ∀ x ∈ Expr.accessesOfAll es, uses ⟨x, sites, scopes, declaring⟩) :
    Keeps uses recorded nowhere (Traced.evaluateAll bound es) (At sites scopes declaring a)
      fun values s => ∀ value ∈ values, value.Known uses s.scene
  call (site : CallSite) (callee : Value) (arguments : List Value)
    (arity : callee.arity? = some arguments.length) :
    Keeps uses recorded nowhere (Traced.call bound site callee arguments)
      (fun s => callee.Known uses s.scene ∧ ∀ value ∈ arguments, value.Known uses s.scene)
      fun value s => value.Known uses s.scene
  invoke (site : CallSite) (callee : Value) (f : Closure) (arguments : List Value)
    (arity : f.declaration.params.length = arguments.length) :
    Keeps uses recorded nowhere (Traced.invoke bound site callee f arguments)
      (fun s => f.declaration.Known uses s.scene f.frame ∧
        ∀ value ∈ arguments, value.Known uses s.scene)
      fun value s => value.Known uses s.scene
  execute {sites : List Site} {r : Resolver} {a : Address} (s : Stmt) (formed : s.Formed)
    (known : ∀ u ∈ s.uses sites r, uses u) (silent : (Resolver.statement s r).errors = []) :
    Keeps uses recorded (· = a) (Traced.execute bound s) (At sites r.scopes none a)
      fun completion st => completion.Known uses st.scene ∧
        (completion = .normal → At sites (Resolver.scopesAfter s r) none a st)
  executeWhile {sites : List Site} {r : Resolver} {a : Address} (condition : Expr) (body : Stmt)
    (test : ∀ x ∈ condition.accesses, uses ⟨x, sites, r.scopes, none⟩) (formed : body.Formed)
    (plain : body.isPlain = true) (known : ∀ u ∈ body.uses sites r, uses u)
    (silent : (Resolver.statement body r).errors = []) :
    Keeps uses recorded (· = a) (Traced.executeWhile bound condition body)
      (At sites r.scopes none a)
      fun completion st => completion.Known uses st.scene ∧
        (completion = .normal → At sites r.scopes none a st)
  executeAll {sites : List Site} {r : Resolver} {a : Address} (ss : List Stmt)
    (formed : Stmt.AllFormed ss) (known : ∀ u ∈ Stmt.usesOfAll sites ss r, uses u)
    (silent : (Resolver.statements ss r).errors = []) :
    Keeps uses recorded (· = a) (Traced.executeAll bound ss) (At sites r.scopes none a)
      fun completion st => completion.Known uses st.scene

namespace Aligned

variable {n : Nat}

theorem zero : Aligned uses recorded 0 := by
  constructor <;> intros <;>
    first | exact keeps_throw _ | exact (keeps_throw _).after_note fun _ => rfl

theorem evaluate_succ (inner : Aligned uses recorded n) {sites : List Site} {scopes : List Scope}
    {declaring : Option String} {a : Address} (e : Expr)
    (known : ∀ x ∈ e.accesses, uses ⟨x, sites, scopes, declaring⟩) :
    Keeps uses recorded nowhere (Traced.evaluate (n + 1) e) (At sites scopes declaring a)
      fun value s => value.Known uses s.scene := by
  -- Expressions declare nothing, so the place stays the same from one operand to the next.
  have stays := stable_at sites scopes declaring a
  refine Keeps.enclosed ?_ (fun _ => rfl) fun _ _ => rfl
  cases e with
  | literal value =>
    exact keeps_pure fun s _ => Value.known_of_isData (Value.isData_ofLiteral value) s.scene
  | grouping e => exact inner.evaluate e known
  | unary op right line =>
    refine (inner.evaluate right known).bind fun value => ?_
    exact (keeps_orFail line _ fun result ok s _ =>
      Value.known_of_isData (UnaryOp.isData_apply ok) s.scene)
  | binary left op right line =>
    have first : ∀ x ∈ left.accesses, uses ⟨x, sites, scopes, declaring⟩ :=
      fun x member => known x (List.mem_append_left _ member)
    have second : ∀ x ∈ right.accesses, uses ⟨x, sites, scopes, declaring⟩ :=
      fun x member => known x (List.mem_append_right _ member)
    refine (inner.evaluate left first).then stays fun value => ?_
    refine Keeps.bind ((inner.evaluate right second).given fun _ given => given.1) fun other => ?_
    exact keeps_orFail line _ fun result ok s _ =>
      Value.known_of_isData (BinaryOp.isData_apply ok) s.scene
  | logical left op right =>
    have first : ∀ x ∈ left.accesses, uses ⟨x, sites, scopes, declaring⟩ :=
      fun x member => known x (List.mem_append_left _ member)
    have second : ∀ x ∈ right.accesses, uses ⟨x, sites, scopes, declaring⟩ :=
      fun x member => known x (List.mem_append_right _ member)
    refine (inner.evaluate left first).then stays fun value => ?_
    cases op.stopsAt value with
    | true => exact keeps_pure fun _ given => given.2
    | false => exact (inner.evaluate right second).given fun _ given => given.1
  | «variable» id name =>
    exact (keeps_used (known _ List.mem_cons_self)).bind fun _ => keeps_lookUp _ _ _
  | assign id name value =>
    have inside : ∀ x ∈ value.accesses, uses ⟨x, sites, scopes, declaring⟩ :=
      fun x member => known x (List.mem_append_left _ member)
    have used : uses ⟨.assign id name, sites, scopes, declaring⟩ :=
      known _ (List.mem_append_right _ List.mem_cons_self)
    intro s sound place
    -- The name is neither `this` nor `super`, so what methods are bound to is not assigned.
    have spared : Spared name.lexeme := sound.spared _ used rfl
    refine (inner.evaluate value inside).then stays (fun result => ?_) s sound place
    refine Keeps.then (stays.and (stable_known result))
      ((keeps_used used).given fun _ given => given.1) fun _ => ?_
    refine ((keeps_assign id name spared result).given fun _ given => given.1.2).bind_carry
      (stable_known result) (fun _ given => given.1.2) fun _ => ?_
    exact keeps_pure fun _ given => given.1
  | call callee arguments line =>
    have first : ∀ x ∈ callee.accesses, uses ⟨x, sites, scopes, declaring⟩ :=
      fun x member => known x (List.mem_append_left _ member)
    have second : ∀ x ∈ Expr.accessesOfAll arguments, uses ⟨x, sites, scopes, declaring⟩ :=
      fun x member => known x (List.mem_append_right _ member)
    refine (inner.evaluate callee first).then stays fun f => ?_
    refine Keeps.then (stays.and (stable_known f))
      ((inner.evaluateAll arguments second).given fun _ given => given.1) fun values => ?_
    refine Keeps.then ((stays.and (stable_known f)).and (stable_allKnown values))
      (keeps_checkCall f values.length line _) fun _ => ?_
    intro s sound given
    exact inner.call _ f values given.2 s sound ⟨given.1.1.2, given.1.2⟩
  | get object name =>
    exact (inner.evaluate object known).bind fun value => keeps_property value name
  | set object name value =>
    have first : ∀ x ∈ object.accesses, uses ⟨x, sites, scopes, declaring⟩ :=
      fun x member => known x (List.mem_append_right _ member)
    have second : ∀ x ∈ value.accesses, uses ⟨x, sites, scopes, declaring⟩ :=
      fun x member => known x (List.mem_append_left _ member)
    refine (inner.evaluate object first).then stays fun receiver => ?_
    cases receiver with
    | «instance» i =>
      refine Keeps.bind ((inner.evaluate value second).given fun _ given => given.1)
        fun result => ?_
      refine Keeps.after_note ?_ fun _ => rfl
      refine Keeps.then (stable_known result) (keeps_setField i name.lexeme result) fun _ => ?_
      exact keeps_pure fun _ given => given.1
    | nil | bool | number | string | native | closure | «class» => exact keeps_fail _ _
  | this id line =>
    exact (keeps_used (known _ List.mem_cons_self)).bind fun _ => keeps_lookUp _ _ _
  | super id line method =>
    exact (keeps_used (known _ List.mem_cons_self)).bind fun _ => keeps_superMethod _ _ _

theorem evaluateAll_succ (inner : Aligned uses recorded n) {sites : List Site}
    {scopes : List Scope} {declaring : Option String} {a : Address} (es : List Expr)
    (known : ∀ x ∈ Expr.accessesOfAll es, uses ⟨x, sites, scopes, declaring⟩) :
    Keeps uses recorded nowhere (Traced.evaluateAll (n + 1) es) (At sites scopes declaring a)
      fun values s => ∀ value ∈ values, value.Known uses s.scene := by
  have stays := stable_at sites scopes declaring a
  cases es with
  | nil => exact keeps_pure fun _ _ _ member => absurd member List.not_mem_nil
  | cons e es =>
    have first : ∀ x ∈ e.accesses, uses ⟨x, sites, scopes, declaring⟩ :=
      fun x member => known x (List.mem_append_left _ member)
    have second : ∀ x ∈ Expr.accessesOfAll es, uses ⟨x, sites, scopes, declaring⟩ :=
      fun x member => known x (List.mem_append_right _ member)
    refine (inner.evaluate e first).then stays fun value => ?_
    refine Keeps.then (stays.and (stable_known value))
      ((inner.evaluateAll es second).given fun _ given => given.1) fun values => ?_
    refine keeps_pure fun s given other member => ?_
    rcases List.mem_cons.mp member with rfl | later
    · exact given.1.2
    · exact given.2 other later

theorem call_succ (inner : Aligned uses recorded n) (site : CallSite) (callee : Value)
    (arguments : List Value) (arity : callee.arity? = some arguments.length) :
    Keeps uses recorded nowhere (Traced.call (n + 1) site callee arguments)
      (fun s => callee.Known uses s.scene ∧ ∀ value ∈ arguments, value.Known uses s.scene)
      fun value s => value.Known uses s.scene := by
  cases callee with
  | native f =>
    refine Keeps.after_note ?_ fun _ => rfl
    exact (keeps_callNative f arguments site.line).given fun _ known => known.2
  | closure f => exact inner.invoke site _ f arguments (Option.some.inj arity)
  | «class» c =>
    have both : Stable fun s => (Value.class c).Known uses s.scene ∧
        ∀ value ∈ arguments, value.Known uses s.scene :=
      (stable_known _).and (stable_allKnown arguments)
    refine Keeps.after_note ?_ fun _ => rfl
    refine Keeps.then both ((keeps_newInstance c).given fun _ known => known.1) fun i => ?_
    have length : c.arity = arguments.length := Option.some.inj arity
    unfold Class.arity at length
    cases found : c.method? initializerName with
    | none =>
      refine Keeps.after_note ?_ fun _ => rfl
      exact keeps_pure fun _ known => known.2.2
    | some method =>
      rw [found] at length
      intro s sound known
      obtain ⟨given, same, instance_⟩ := known
      -- The instance is what the call gives, so it is carried past the initializer.
      have alive : Stable fun s => (Value.instance i).Known uses s.scene := stable_known _
      have stays : Stable fun s => (Value.instance i).Known uses s.scene ∧
          ∀ value ∈ arguments, value.Known uses s.scene := alive.and (stable_allKnown arguments)
      have binding : Keeps uses recorded nowhere (Traced.bindMethod method i)
          (fun s => (Value.instance i).Known uses s.scene ∧
            ∀ value ∈ arguments, value.Known uses s.scene)
          fun f s => f.declaration = method.declaration ∧
            f.declaration.Known uses s.scene f.frame :=
        (keeps_bindMethod method i).given fun s known =>
          ⟨Class.Known.method? i.of known.1 (same ▸ found), known.1⟩
      refine Keeps.then stays binding (fun init => ?_) s sound ⟨instance_, given.2⟩
      intro s sound known
      have params : init.declaration.params.length = arguments.length :=
        (congrArg (·.params.length) known.2.1).trans length
      have invoking := (inner.invoke site (.class c) init arguments params).carry alive
      refine Keeps.bind invoking (fun _ => ?_) s sound ⟨known.1.1, known.2.2, known.1.2⟩
      exact keeps_pure fun _ known => known.1
  | nil | bool | number | string | «instance» => cases arity

/-- A body runs in the frame of its parameters, and its value does not depend on the place. -/
theorem keeps_body (inner : Aligned uses recorded n) {sites : List Site} {r : Resolver}
    {frame : Address} (site : CallSite) (callee : Value) (declaration : FunctionDecl)
    (body : List Stmt) (formed : Stmt.AllFormed body)
    (known : ∀ u ∈ Stmt.usesOfAll sites body r, uses u)
    (silent : (Resolver.statements body r).errors = []) :
    Keeps uses recorded (· = frame)
      (Traced.carryOut site callee declaration
        (Told.inFrame frame (Traced.executeAll n body)))
      (fun s => Placed s.scene none sites r.scopes frame)
      fun completion s => completion.Known uses s.scene := by
  have inside : Keeps uses recorded (· = frame) (Told.inFrame frame (Traced.executeAll n body))
      (fun s => Placed s.scene none sites r.scopes frame)
      fun completion s => completion.Known uses s.scene :=
    (inner.executeAll body formed known silent).inFrame fun _ _ _ known => known
  exact (inside.inCall declaration site.line (fun _ _ placed => placed)
    fun _ _ _ known => known).after_note fun _ => rfl

theorem invoke_succ (inner : Aligned uses recorded n) (site : CallSite) (callee : Value)
    (f : Closure) (arguments : List Value)
    (arity : f.declaration.params.length = arguments.length) :
    Keeps uses recorded nowhere (Traced.invoke (n + 1) site callee f arguments)
      (fun s => f.declaration.Known uses s.scene f.frame ∧
        ∀ value ∈ arguments, value.Known uses s.scene)
      fun value s => value.Known uses s.scene := by
  rintro s sound ⟨⟨sites, r, context, layout, inside, formed, silent⟩, known⟩
  have opens : Opens uses recorded (Traced.enterFunction f arguments)
      (fun s => Layout s.scene sites r.scopes f.frame ∧
        ∀ value ∈ arguments, value.Known uses s.scene) _ :=
    opens_enterFunction f arguments context arity
  refine Keeps.after_note (opens.bind fun frame => ?_) (fun _ => rfl) s sound ⟨layout, known⟩
  obtain ⟨id, declaration, around, isInitializer⟩ := f
  cases declaration with
  | mk name params body =>
    exact (inner.keeps_body site callee _ body formed.2.2 inside silent).bind fun completion =>
      keeps_result _ site.line completion

/-- A variable is bound where its name was being declared, and then the place has the name. -/
theorem keeps_defined {sites : List Site} {r : Resolver} {a : Address} (name : Name)
    (identifier : name.IsIdentifier) (value : Value) :
    Keeps uses recorded (· = a)
      (do Told.lift (Eval.define name.lexeme value); return Completion.normal)
      (fun st => At sites (r.declare name).scopes (some name.lexeme) a st ∧
        value.Known uses st.scene)
      fun completion st => completion.Known uses st.scene ∧
        (completion = .normal → At sites (r.introduce name).scopes none a st) :=
  (keeps_define name identifier value).bind fun _ =>
    keeps_pure fun _ place => ⟨trivial, fun _ => place⟩

/-- A branch is no declaration, so the place is as before. -/
theorem keeps_branches (inner : Aligned uses recorded n) {sites : List Site} {r : Resolver}
    {a : Address} (value : Value) (condition : Expr) (thenBranch : Stmt)
    (elseBranch : Option Stmt) :
    (Stmt.if condition thenBranch elseBranch).Formed →
    (∀ u ∈ (Stmt.if condition thenBranch elseBranch).uses sites r, uses u) →
    (Resolver.statement (.if condition thenBranch elseBranch) r).errors = [] →
    Keeps uses recorded (· = a)
      (if value.isTruthy then Traced.execute n thenBranch
        else match elseBranch with
          | some s => Traced.execute n s
          | none => return .normal)
      (At sites r.scopes none a)
      fun completion st => completion.Known uses st.scene ∧
        (completion = .normal → At sites r.scopes none a st) := by
  intro formed known silent
  cases value.isTruthy with
  | true =>
    have walked := (Resolver.walks_statement? [] elseBranch formed.2 _).silent silent
    have inside := inner.execute thenBranch formed.1.1 (fun u member =>
      known u (List.mem_append_left _ (List.mem_append_right _ member))) walked (a := a)
    rw [Resolver.scopes_expression, Resolver.scopesAfter_of_plain formed.1.2,
      Resolver.scopes_expression] at inside
    exact inside
  | false =>
    cases elseBranch with
    | none => exact keeps_pure fun _ place => ⟨trivial, fun _ => place⟩
    | some other =>
      have inside := inner.execute other formed.2.1
        (fun u member => known u (List.mem_append_right _ member)) silent (a := a)
      rw [Resolver.scopesAfter_of_plain formed.2.2, Resolver.scopes_statement _ formed.1.1,
        Resolver.scopesAfter_of_plain formed.1.2, Resolver.scopes_expression] at inside
      exact inside

theorem execute_succ (inner : Aligned uses recorded n) {sites : List Site} {r : Resolver}
    {a : Address} (s : Stmt) (formed : s.Formed) (known : ∀ u ∈ s.uses sites r, uses u)
    (silent : (Resolver.statement s r).errors = []) :
    Keeps uses recorded (· = a) (Traced.execute (n + 1) s) (At sites r.scopes none a)
      fun completion st => completion.Known uses st.scene ∧
        (completion = .normal → At sites (Resolver.scopesAfter s r) none a st) := by
  have stays := stable_at sites r.scopes none a
  refine Keeps.enclosed ?_ (fun _ => rfl) fun _ _ => rfl
  cases s with
  | expression e =>
    have inside : ∀ x ∈ e.accesses, uses ⟨x, sites, r.scopes, none⟩ :=
      fun x member => known _ (List.mem_map_of_mem member)
    refine (inner.evaluate e inside).then stays fun value => ?_
    exact keeps_pure fun _ given => ⟨trivial, fun _ => given.1⟩
  | print e =>
    have inside : ∀ x ∈ e.accesses, uses ⟨x, sites, r.scopes, none⟩ :=
      fun x member => known _ (List.mem_map_of_mem member)
    refine (inner.evaluate e inside).then stays fun value => ?_
    refine Keeps.then (stays.and (stable_known value))
      ((keeps_print value e.line).given fun _ _ => trivial) fun _ => ?_
    exact keeps_pure fun _ given => ⟨trivial, fun _ => given.1.1⟩
  | var name initializer =>
    have declared : (r.declare name).errors = [] := by
      have walk := (Resolver.Walks.define
        (Resolver.expression? initializer (r.declare name)) name).silent silent
      exact List.suffix_nil.mp (walk ▸ (Resolver.passes_expression? initializer _).errors)
    -- While the initializer runs, the scope has the name and the frame does not bind it yet.
    have ready : ∀ st, At sites r.scopes none a st →
        At sites (r.declare name).scopes (some name.lexeme) a st :=
      fun st place => ⟨place.1, place.2.declare declared⟩
    cases initializer with
    | none => exact (keeps_defined name formed .nil).given fun st place => ⟨ready st place, trivial⟩
    | some e =>
      have inside : ∀ x ∈ e.accesses, uses ⟨x, sites, (r.declare name).scopes, some name.lexeme⟩ :=
        fun x member => known _ (List.mem_map_of_mem member)
      refine Keeps.given ?_ ready
      exact (inner.evaluate e inside).then (stable_at _ _ _ _) fun value =>
        keeps_defined name formed value
  | block body =>
    -- What the body declares it declares in a frame of its own, so the place around is as before.
    have ran : Keeps uses recorded nowhere
        (do
          let frame ← Traced.openBlock body
          Told.inFrame frame (Traced.executeAll n body))
        (At sites r.scopes none a) fun completion st => completion.Known uses st.scene :=
      (opens_openBlock body).bind fun frame =>
        (inner.executeAll body formed known silent).inFrame fun _ _ _ known => known
    exact (ran.carry stays).weaken (fun _ => False.elim) (fun _ place => ⟨place, place⟩)
      fun _ _ given => ⟨given.2, fun _ => given.1⟩
  | «if» condition thenBranch elseBranch =>
    have test : ∀ x ∈ condition.accesses, uses ⟨x, sites, r.scopes, none⟩ := fun x member =>
      known _ (List.mem_append_left _ (List.mem_append_left _ (List.mem_map_of_mem member)))
    exact (inner.evaluate condition test).then stays fun value =>
      (inner.keeps_branches value condition thenBranch elseBranch formed known silent).given
        fun _ given => given.1
  | «while» condition body =>
    have test : ∀ x ∈ condition.accesses, uses ⟨x, sites, r.scopes, none⟩ := fun x member =>
      known _ (List.mem_append_left _ (List.mem_map_of_mem member))
    have looped := inner.executeWhile (a := a) (r := Resolver.expression condition r)
      condition body (by rwa [Resolver.scopes_expression]) formed.1 formed.2
      (fun u member => known u (List.mem_append_right _ member)) silent
    rw [Resolver.scopes_expression] at looped
    exact looped
  | function declaration =>
    have named := (Resolver.walks_function [] .function declaration formed _).silent silent
    exact (keeps_declareFunction declaration formed known silent named).bind fun _ =>
      keeps_pure fun _ place => ⟨trivial, fun _ => place⟩
  | «return» line value =>
    cases value with
    | none => exact keeps_pure fun _ _ => ⟨trivial, nofun⟩
    | some e =>
      have inside : ∀ x ∈ e.accesses, uses ⟨x, sites, r.scopes, none⟩ :=
        fun x member => known _ (List.mem_map_of_mem member)
      refine (inner.evaluate e inside).then stays fun value => ?_
      exact keeps_pure fun _ given => ⟨given.2, nofun⟩
  | «class» name parent methods =>
    exact (keeps_declareClass name parent methods formed known silent).bind fun _ =>
      keeps_pure fun _ place => ⟨trivial, fun _ => place⟩

theorem executeWhile_succ (inner : Aligned uses recorded n) {sites : List Site} {r : Resolver}
    {a : Address} (condition : Expr) (body : Stmt)
    (test : ∀ x ∈ condition.accesses, uses ⟨x, sites, r.scopes, none⟩) (formed : body.Formed)
    (plain : body.isPlain = true) (known : ∀ u ∈ body.uses sites r, uses u)
    (silent : (Resolver.statement body r).errors = []) :
    Keeps uses recorded (· = a) (Traced.executeWhile (n + 1) condition body)
      (At sites r.scopes none a)
      fun completion st => completion.Known uses st.scene ∧
        (completion = .normal → At sites r.scopes none a st) := by
  refine (inner.evaluate condition test).then (stable_at _ _ _ _) fun value => ?_
  cases value.isTruthy with
  | false => exact keeps_pure fun _ given => ⟨trivial, fun _ => given.1⟩
  | true =>
    have once := inner.execute body formed known silent (a := a)
    rw [Resolver.scopesAfter_of_plain plain] at once
    refine Keeps.bind (once.given fun _ given => given.1) fun completion => ?_
    cases completion with
    | normal =>
      exact (inner.executeWhile condition body test formed plain known silent).given
        fun _ given => given.2 rfl
    | returned value => exact keeps_pure fun _ given => ⟨given.1, nofun⟩

theorem executeAll_succ (inner : Aligned uses recorded n) {sites : List Site} {r : Resolver}
    {a : Address} (ss : List Stmt) (formed : Stmt.AllFormed ss)
    (known : ∀ u ∈ Stmt.usesOfAll sites ss r, uses u)
    (silent : (Resolver.statements ss r).errors = []) :
    Keeps uses recorded (· = a) (Traced.executeAll (n + 1) ss) (At sites r.scopes none a)
      fun completion st => completion.Known uses st.scene := by
  cases ss with
  | nil => exact keeps_pure fun _ _ => trivial
  | cons s ss =>
    have walked := (Resolver.walks_statements [] ss formed.2 _).silent silent
    refine (inner.execute s formed.1 (fun u member => known u (List.mem_append_left _ member))
      walked).bind fun completion => ?_
    cases completion with
    | normal =>
      have rest := inner.executeAll ss formed.2
        (fun u member => known u (List.mem_append_right _ member)) silent (a := a)
      rw [Resolver.scopes_statement s formed.1] at rest
      exact rest.given fun _ given => given.2 rfl
    | returned value => exact keeps_pure fun _ given => given.1

end Aligned

variable (uses recorded) in
/-- **Scopes and frames stay aligned**, within any bound. -/
theorem aligned (bound : Nat) : Aligned uses recorded bound := by
  induction bound with
  | zero => exact .zero
  | succ n ih =>
    exact ⟨ih.evaluate_succ, ih.evaluateAll_succ, ih.call_succ, ih.invoke_succ, ih.execute_succ,
      ih.executeWhile_succ, ih.executeAll_succ⟩

end Lox
