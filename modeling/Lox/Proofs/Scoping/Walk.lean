import Lox.Proofs.Scoping.Uses

/-!
# What the static analysis finds

The analysis of a tree is followed through its state. Three facts hold of every part of a program
that ends without a violation:

* only the innermost scope around it can be different afterwards, and an expression changes none;
* each of its uses is entered with the distance at which the scopes around it declare the name, and
  no other entry changes (`Resolver.Walks.records`, `Resolver.Walks.others`);
* a use that does not assign is never a use of the name that is just being declared
  (`Resolver.Walks.bound`). Assignments are not checked, so nothing of the kind holds for them.

The entries come out right because every use has an id of its own: a later use of the same id would
replace an earlier entry.
-/

set_option autoImplicit false

namespace Lox

namespace Scope

@[simp]
theorem declares_nil (name : String) : declares [] name = false := rfl

theorem declares_put (scope : Scope) (name key : String) (ready : Bool) :
    (scope.put name ready).declares key = (key == name || scope.declares key) := by
  unfold declares ready? put
  rw [List.lookup_cons]
  cases key == name <;> rfl

theorem ready?_put_self (scope : Scope) (name : String) (ready : Bool) :
    (scope.put name ready).ready? name = some ready := by
  unfold ready? put
  rw [List.lookup_cons_self]

end Scope

namespace Resolver

/-- The distance at which the scopes of a state declare a name. -/
def distance? (r : Resolver) (name : String) : Option Nat :=
  r.scopes.findIdx? fun scope => scope.declares name

/-! ## The steps of the analysis -/

theorem scopes_reportIf (condition : Bool) (cause : ScopeError.Cause) (line : Nat) (r : Resolver) :
    (r.reportIf condition cause line).scopes = r.scopes := by
  cases condition <;> rfl

theorem distances_reportIf (condition : Bool) (cause : ScopeError.Cause) (line : Nat)
    (r : Resolver) : (r.reportIf condition cause line).distances = r.distances := by
  cases condition <;> rfl

theorem errors_reportIf (condition : Bool) (cause : ScopeError.Cause) (line : Nat) (r : Resolver) :
    r.errors <:+ (r.reportIf condition cause line).errors := by
  cases condition with
  | true => exact List.suffix_cons _ _
  | false => exact List.suffix_refl _

/-- Where nothing was reported, the condition of the report does not hold. -/
theorem eq_false_of_reportIf {condition : Bool} {cause : ScopeError.Cause} {line : Nat}
    {r : Resolver} (silent : (r.reportIf condition cause line).errors = []) :
    condition = false := by
  cases condition with
  | true => exact absurd silent (List.cons_ne_nil _ _)
  | false => rfl

theorem scopes_bind (r : Resolver) (id : NodeId) (name : String) :
    (r.bind id name).scopes = r.scopes := by
  unfold bind
  split <;> rfl

theorem errors_bind (r : Resolver) (id : NodeId) (name : String) :
    (r.bind id name).errors = r.errors := by
  unfold bind
  split <;> rfl

theorem distances_bind_of_ne (r : Resolver) {id other : NodeId} (name : String)
    (different : other ≠ id) : (r.bind id name).distances[other]? = r.distances[other]? := by
  unfold bind
  split
  · exact Distances.getElem?_insert_of_ne _ _ different
  · rfl

theorem distances_bind_self (r : Resolver) (id : NodeId) (name : String)
    (unused : r.distances[id]? = none) : (r.bind id name).distances[id]? = r.distance? name := by
  unfold bind distance?
  split
  · next distance found =>
    rw [found, Std.TreeMap.getElem?_insert_self]
  · next missing => rw [missing, unused]

theorem scopes_put (r : Resolver) (name : String) (ready : Bool) :
    (r.put name ready).scopes =
      match r.scopes with
      | [] => []
      | scope :: outer => scope.put name ready :: outer := by
  unfold put
  split <;> simp [*]

theorem errors_put (r : Resolver) (name : String) (ready : Bool) :
    (r.put name ready).errors = r.errors := by
  unfold put
  split <;> rfl

theorem distances_put (r : Resolver) (name : String) (ready : Bool) :
    (r.put name ready).distances = r.distances := by
  unfold put
  split <;> rfl

theorem errors_declare (r : Resolver) (name : Name) : r.errors <:+ (r.declare name).errors := by
  unfold declare
  split
  · exact List.suffix_refl _
  · split
    · exact List.suffix_cons _ _
    · exact (errors_put _ _ _).symm ▸ List.suffix_refl _

theorem distances_declare (r : Resolver) (name : Name) :
    (r.declare name).distances = r.distances := by
  unfold declare
  split
  · rfl
  · split
    · rfl
    · exact distances_put _ _ _

theorem scopes_declare_nil {r : Resolver} (name : Name) (global : r.scopes = []) :
    (r.declare name).scopes = [] := by
  unfold declare
  rw [global]
  exact global

/-- A declaration that is no violation adds a name that its scope did not have. -/
theorem scopes_declare_cons {r : Resolver} {name : Name} {scope : Scope} {outer : List Scope}
    (inside : r.scopes = scope :: outer) (silent : (r.declare name).errors = []) :
    scope.declares name.lexeme = false ∧
      (r.declare name).scopes = scope.put name.lexeme false :: outer := by
  unfold declare at silent ⊢
  simp only [inside] at silent ⊢
  cases already : scope.declares name.lexeme with
  | true =>
    rw [already, if_pos rfl] at silent
    exact absurd silent (List.cons_ne_nil _ _)
  | false =>
    refine ⟨rfl, ?_⟩
    rw [if_neg Bool.false_ne_true, scopes_put, inside]

/-- A declaration is felt in the innermost scope only. -/
theorem tail_scopes_declare (r : Resolver) (name : Name) :
    (r.declare name).scopes.tail = r.scopes.tail := by
  unfold declare
  split
  · rfl
  · next scope outer inside =>
    split
    · rfl
    · rw [scopes_put, inside]
      rfl

theorem length_scopes_declare (r : Resolver) (name : Name) :
    (r.declare name).scopes.length = r.scopes.length := by
  unfold declare
  split
  · rfl
  · next scope outer inside =>
    split
    · rfl
    · rw [scopes_put, inside]
      rfl

theorem tail_scopes_define (r : Resolver) (name : Name) :
    (r.define name).scopes.tail = r.scopes.tail := by
  unfold define
  rw [scopes_put]
  cases r.scopes <;> rfl

theorem length_scopes_define (r : Resolver) (name : Name) :
    (r.define name).scopes.length = r.scopes.length := by
  unfold define
  rw [scopes_put]
  cases r.scopes <;> rfl

/-- A name that was introduced is declared in the innermost scope, beside those that were before. -/
theorem scopes_introduce_cons {r : Resolver} {name : Name} {scope : Scope} {outer : List Scope}
    (inside : r.scopes = scope :: outer) (silent : (r.introduce name).errors = []) :
    scope.declares name.lexeme = false ∧
      (r.introduce name).scopes = (scope.put name.lexeme false).put name.lexeme true :: outer := by
  unfold introduce define at silent ⊢
  rw [errors_put] at silent
  obtain ⟨fresh, scopes⟩ := scopes_declare_cons inside silent
  refine ⟨fresh, ?_⟩
  rw [scopes_put, scopes]

theorem scopes_introduce_nil {r : Resolver} (name : Name) (global : r.scopes = []) :
    (r.introduce name).scopes = [] := by
  unfold introduce define
  rw [scopes_put, scopes_declare_nil name global]

theorem distances_introduce (r : Resolver) (name : Name) :
    (r.introduce name).distances = r.distances := by
  unfold introduce define
  rw [distances_put, distances_declare]

/-! ## Expressions -/

/-- The analysis passes uses that stand in the scopes of the state `r`, and ends in `r'`. -/
structure Passes (r : Resolver) (accesses : List Access) (r' : Resolver) : Prop where
  scopes : r'.scopes = r.scopes
  errors : r.errors <:+ r'.errors
  others : ∀ id, id ∉ accesses.map Access.id → r'.distances[id]? = r.distances[id]?
  records : r'.errors = [] → (accesses.map Access.id).Nodup →
    (∀ a ∈ accesses, r.distances[a.id]? = none) →
    ∀ a ∈ accesses, r'.distances[a.id]? = r.distance? a.name
  ready : r'.errors = [] → ∀ id name, .read id name ∈ accesses → r.isPending name.lexeme = false

namespace Passes

variable {r r₁ r₂ : Resolver} {as bs : List Access}

theorem nil (r : Resolver) : r.Passes [] r where
  scopes := rfl
  errors := List.suffix_refl _
  others _ _ := rfl
  records _ _ _ _ member := absurd member List.not_mem_nil
  ready _ _ _ member := absurd member List.not_mem_nil

/-- Uses that are passed first keep their entries, for those passed later have other ids. -/
theorem append (first : r.Passes as r₁) (second : r₁.Passes bs r₂) : r.Passes (as ++ bs) r₂ where
  scopes := second.scopes.trans first.scopes
  errors := first.errors.trans second.errors
  others id absent := by
    rw [List.map_append, List.mem_append, not_or] at absent
    rw [second.others id absent.2, first.others id absent.1]
  records silent distinct unused a member := by
    rw [List.map_append] at distinct
    have silent₁ : r₁.errors = [] := List.suffix_nil.mp (silent ▸ second.errors)
    obtain ⟨distinctAs, distinctBs, apart⟩ := List.nodup_append.mp distinct
    rcases List.mem_append.mp member with early | late
    · have later : a.id ∉ bs.map Access.id := by
        intro again
        exact apart _ (List.mem_map_of_mem early) _ again rfl
      rw [second.others _ later]
      exact first.records silent₁ distinctAs
        (fun b mem => unused b (List.mem_append_left _ mem)) a early
    · have unused₁ : ∀ b ∈ bs, r₁.distances[b.id]? = none := by
        intro b mem
        have earlier : b.id ∉ as.map Access.id := by
          intro again
          exact apart _ again _ (List.mem_map_of_mem mem) rfl
        rw [first.others _ earlier]
        exact unused b (List.mem_append_right _ mem)
      have entered := second.records silent distinctBs unused₁ a late
      unfold distance? at entered ⊢
      rwa [first.scopes] at entered
  ready silent id name member := by
    have silent₁ : r₁.errors = [] := List.suffix_nil.mp (silent ▸ second.errors)
    rcases List.mem_append.mp member with early | late
    · exact first.ready silent₁ id name early
    · have same := second.ready silent id name late
      unfold isPending at same ⊢
      rwa [first.scopes] at same

/-- A single use whose name is looked up in the scopes. -/
theorem bind (r : Resolver) (a : Access) (assigns : ∀ id name, a ≠ .read id name) :
    r.Passes [a] (r.bind a.id a.name) where
  scopes := scopes_bind r a.id a.name
  errors := by
    exact (errors_bind r a.id a.name).symm ▸ List.suffix_refl _
  others id absent := distances_bind_of_ne r a.name (fun same => absent (by simp [same]))
  records _ _ unused b member := by
    have same : b = a := List.mem_singleton.mp member
    subst same
    exact distances_bind_self r b.id b.name (unused b member)
  ready _ id name member := absurd (List.mem_singleton.mp member).symm (assigns id name)

theorem use (r : Resolver) (id : NodeId) (name : Name) :
    r.Passes [.read id name] (r.use id name) where
  scopes := by
    unfold Resolver.use
    rw [scopes_bind, scopes_reportIf]
  errors := by
    unfold Resolver.use
    rw [errors_bind]
    exact errors_reportIf _ _ _ r
  others other absent := by
    unfold Resolver.use
    rw [distances_bind_of_ne _ _ (fun same => absent (by simp [same, Access.id])),
      distances_reportIf]
  records _ _ unused b member := by
    have same : b = .read id name := List.mem_singleton.mp member
    subst same
    have free : r.distances[id]? = none := unused _ member
    unfold Resolver.use
    show (Resolver.bind _ id name.lexeme).distances[id]? = r.distance? name.lexeme
    rw [distances_bind_self _ _ _ (by rw [distances_reportIf]; exact free)]
    unfold distance?
    rw [scopes_reportIf]
  ready silent id' name' member := by
    obtain ⟨rfl, rfl⟩ : id' = id ∧ name' = name := by simpa using member
    unfold Resolver.use at silent
    rw [errors_bind] at silent
    exact eq_false_of_reportIf silent

/-- A use that is refused is a violation, so nothing is promised about its entry. -/
theorem report (r : Resolver) (accesses : List Access) (cause : ScopeError.Cause) (line : Nat) :
    r.Passes accesses (r.report cause line) where
  scopes := rfl
  errors := List.suffix_cons _ _
  others _ _ := rfl
  records silent := absurd silent (List.cons_ne_nil _ _)
  ready silent := absurd silent (List.cons_ne_nil _ _)

theorem useThis (r : Resolver) (id : NodeId) (line : Nat) :
    r.Passes [.this id line] (r.useThis id line) := by
  unfold Resolver.useThis
  cases r.classContext with
  | outside => exact report r _ _ _
  | base | derived => exact bind r (.this id line) (fun _ _ => nofun)

theorem useSuper (r : Resolver) (id : NodeId) (line : Nat) :
    r.Passes [.super id line] (r.useSuper id line) := by
  unfold Resolver.useSuper
  cases r.classContext with
  | outside | base => exact report r _ _ _
  | derived => exact bind r (.super id line) (fun _ _ => nofun)

end Passes

mutual

/-- The analysis of an expression passes its uses. -/
theorem passes_expression (e : Expr) (r : Resolver) : r.Passes e.accesses (expression e r) := by
  match e with
  | .literal _ => exact .nil r
  | .grouping inner => exact passes_expression inner r
  | .unary _ right _ => exact passes_expression right r
  | .binary left _ right _ | .logical left _ right =>
    exact (passes_expression left r).append (passes_expression right _)
  | .variable id name => exact .use r id name
  | .assign id name value =>
    exact (passes_expression value r).append (.bind _ (.assign id name) (fun _ _ => nofun))
  | .call callee arguments _ =>
    exact (passes_expression callee r).append (passes_expressions arguments _)
  | .get object _ => exact passes_expression object r
  | .set object _ value => exact (passes_expression value r).append (passes_expression object _)
  | .this id line => exact .useThis r id line
  | .super id line _ => exact .useSuper r id line

theorem passes_expressions (es : List Expr) (r : Resolver) :
    r.Passes (Expr.accessesOfAll es) (expressions es r) := by
  match es with
  | [] => exact .nil r
  | e :: es => exact (passes_expression e r).append (passes_expressions es _)

end

theorem passes_expression? (e : Option Expr) (r : Resolver) :
    r.Passes (Expr.accessesOf? e) (expression? e r) := by
  cases e with
  | none => exact .nil r
  | some e => exact passes_expression e r

theorem scopes_expression (e : Expr) (r : Resolver) : (expression e r).scopes = r.scopes :=
  (passes_expression e r).scopes

/-! ## Statements -/

/-- The analysis goes from the state `r` to `r'` past the given uses. -/
structure Walks (r : Resolver) (uses : List Use) (r' : Resolver) : Prop where
  outer : r'.scopes.tail = r.scopes.tail
  depth : r'.scopes.length = r.scopes.length
  errors : r.errors <:+ r'.errors
  others : ∀ id, id ∉ uses.map (·.access.id) → r'.distances[id]? = r.distances[id]?
  records : r'.errors = [] → (uses.map (·.access.id)).Nodup →
    (∀ u ∈ uses, r.distances[u.access.id]? = none) →
    ∀ u ∈ uses, r'.distances[u.access.id]? = u.distance
  bound : r'.errors = [] → ∀ u ∈ uses, u.around.scopes ≠ [] → u.access.assigns = false →
    u.around.declaring ≠ some u.access.name
  pending : ∀ u ∈ uses, u.around.scopes ≠ [] → u.around.declaring = some u.access.name →
    u.distance = some 0

namespace Walks

variable {r r₁ r₂ : Resolver} {us vs : List Use}

theorem silent (walk : r.Walks us r₁) (end_ : r₁.errors = []) : r.errors = [] :=
  List.suffix_nil.mp (end_ ▸ walk.errors)

/-- A step that meets no use and leaves the entries. -/
theorem step (outer : r₁.scopes.tail = r.scopes.tail) (depth : r₁.scopes.length = r.scopes.length)
    (errors : r.errors <:+ r₁.errors) (distances : r₁.distances = r.distances) :
    r.Walks [] r₁ where
  outer := outer
  depth := depth
  errors := errors
  others id _ := by rw [distances]
  records _ _ _ _ member := absurd member List.not_mem_nil
  bound _ _ member := absurd member List.not_mem_nil
  pending _ member := absurd member List.not_mem_nil

theorem refl (r : Resolver) : r.Walks [] r :=
  step rfl rfl (List.suffix_refl _) rfl

theorem append (first : r.Walks us r₁) (second : r₁.Walks vs r₂) : r.Walks (us ++ vs) r₂ where
  outer := second.outer.trans first.outer
  depth := second.depth.trans first.depth
  errors := first.errors.trans second.errors
  others id absent := by
    rw [List.map_append, List.mem_append, not_or] at absent
    rw [second.others id absent.2, first.others id absent.1]
  records ends distinct unused u member := by
    rw [List.map_append] at distinct
    obtain ⟨distinctUs, distinctVs, apart⟩ := List.nodup_append.mp distinct
    rcases List.mem_append.mp member with early | late
    · have later : u.access.id ∉ vs.map (·.access.id) := by
        intro again
        exact apart _ (List.mem_map_of_mem early) _ again rfl
      rw [second.others _ later]
      exact first.records (second.silent ends) distinctUs
        (fun v mem => unused v (List.mem_append_left _ mem)) u early
    · have unused₁ : ∀ v ∈ vs, r₁.distances[v.access.id]? = none := by
        intro v mem
        have earlier : v.access.id ∉ us.map (·.access.id) := by
          intro again
          exact apart _ again _ (List.mem_map_of_mem mem) rfl
        rw [first.others _ earlier]
        exact unused v (List.mem_append_right _ mem)
      exact second.records ends distinctVs unused₁ u late
  bound ends u member := by
    rcases List.mem_append.mp member with early | late
    · exact first.bound (second.silent ends) u early
    · exact second.bound ends u late
  pending u member := (List.mem_append.mp member).elim (first.pending u) (second.pending u)

theorem ids_map (around : Surroundings) (accesses : List Access) :
    (accesses.map (⟨·, around⟩ : Access → Use)).map (·.access.id) = accesses.map Access.id := by
  rw [List.map_map]
  rfl

/-- The uses of an expression in the scopes of the state. -/
theorem of_passes {accesses : List Access} (pass : r.Passes accesses r₁) (sites : List Site)
    (declaring : Option String)
    (apart : r₁.errors = [] → r.scopes ≠ [] → ∀ a ∈ accesses, a.assigns = false →
      declaring ≠ some a.name)
    (inner : r.scopes ≠ [] → ∀ name, declaring = some name → r.distance? name = some 0) :
    r.Walks (accesses.map (⟨·, sites, r.scopes, declaring⟩)) r₁ where
  outer := by rw [pass.scopes]
  depth := by rw [pass.scopes]
  errors := pass.errors
  others id absent := pass.others id (by rwa [ids_map] at absent)
  records ends distinct unused u member := by
    rw [ids_map] at distinct
    obtain ⟨a, mem, rfl⟩ := List.mem_map.mp member
    exact pass.records ends distinct (fun b mem => unused _ (List.mem_map_of_mem mem)) a mem
  bound ends u member inside reads := by
    obtain ⟨a, mem, rfl⟩ := List.mem_map.mp member
    exact apart ends inside a mem reads
  pending u member inside same := by
    obtain ⟨a, mem, rfl⟩ := List.mem_map.mp member
    exact inner inside a.name same

theorem of_expression (sites : List Site) (e : Expr) (r : Resolver) :
    r.Walks (e.accesses.map (⟨·, sites, r.scopes, none⟩)) (expression e r) :=
  of_passes (passes_expression e r) sites none (fun _ _ _ _ _ => nofun) (fun _ _ => nofun)

/-- What is walked inside a scope that is opened and closed. -/
theorem enclosed {inner : Resolver} (walk : inner.Walks us r₁) (around : inner.scopes.tail = r.scopes)
    (errors : r.errors <:+ inner.errors) (distances : inner.distances = r.distances) :
    r.Walks us r₁.leave where
  outer := by
    show r₁.scopes.tail.tail = r.scopes.tail
    rw [walk.outer, around]
  depth := by
    show r₁.scopes.tail.length = r.scopes.length
    rw [walk.outer, around]
  errors := errors.trans walk.errors
  others id absent := (walk.others id absent).trans (by rw [distances])
  records ends distinct unused u member :=
    walk.records ends distinct (fun v mem => by rw [distances]; exact unused v mem) u member
  bound ends u member := walk.bound ends u member
  pending := walk.pending

/-- What surrounds the place, functions and classes, plays no part. -/
theorem recontext (walk : r.Walks us r₁) (f : FunctionContext) (c : ClassContext) :
    r.Walks us { r₁ with functionContext := f, classContext := c } :=
  ⟨walk.outer, walk.depth, walk.errors, walk.others, walk.records, walk.bound, walk.pending⟩

theorem reportIf (condition : Bool) (cause : ScopeError.Cause) (line : Nat) (r : Resolver) :
    r.Walks [] (r.reportIf condition cause line) :=
  step (by rw [scopes_reportIf]) (by rw [scopes_reportIf]) (errors_reportIf _ _ _ r)
    (distances_reportIf _ _ _ r)

theorem declare (r : Resolver) (name : Name) : r.Walks [] (r.declare name) :=
  step (tail_scopes_declare r name) (length_scopes_declare r name) (errors_declare r name)
    (distances_declare r name)

theorem define (r : Resolver) (name : Name) : r.Walks [] (r.define name) :=
  step (tail_scopes_define r name) (length_scopes_define r name)
    ((errors_put r _ _).symm ▸ List.suffix_refl _) (distances_put r _ _)

theorem introduce (r : Resolver) (name : Name) : r.Walks [] (r.introduce name) :=
  (declare r name).append (define _ name)

theorem introduceAll (names : List Name) (r : Resolver) :
    r.Walks [] (names.foldl Resolver.introduce r) := by
  induction names generalizing r with
  | nil => exact refl r
  | cons name names ih => exact (introduce r name).append (ih _)

end Walks

/-- While a local variable is declared its name is not ready. -/
theorem isPending_declare {r : Resolver} {name : Name} (inside : (r.declare name).scopes ≠ [])
    (silent : (r.declare name).errors = []) : (r.declare name).isPending name.lexeme = true := by
  cases around : r.scopes with
  | nil => exact absurd (scopes_declare_nil name around) inside
  | cons scope outer =>
    unfold isPending
    rw [(scopes_declare_cons around silent).2]
    simp only [Scope.ready?_put_self]
    rfl

theorem distance?_of_declares {r : Resolver} {scope : Scope} {outer : List Scope} {name : String}
    (inside : r.scopes = scope :: outer) (declared : scope.declares name = true) :
    r.distance? name = some 0 := by
  unfold distance?
  rw [inside, List.findIdx?_cons, declared, if_pos rfl]

/-- A name that was declared, even for the second time, stands in the innermost scope. -/
theorem distance?_declare {r : Resolver} {name : Name} (inside : (r.declare name).scopes ≠ []) :
    (r.declare name).distance? name.lexeme = some 0 := by
  unfold declare at inside ⊢
  split at inside
  · next global => exact absurd global inside
  · next scope outer around =>
    split
    · next already => exact distance?_of_declares around already
    · have now : (r.put name.lexeme false).scopes = scope.put name.lexeme false :: outer := by
        rw [scopes_put, around]
      refine distance?_of_declares now ?_
      rw [Scope.declares_put, beq_self_eq_true, Bool.true_or]

theorem distance?_introduce {r : Resolver} {name : Name} (inside : (r.introduce name).scopes ≠ []) :
    (r.introduce name).distance? name.lexeme = some 0 := by
  unfold introduce define at inside ⊢
  rw [scopes_put] at inside
  cases around : (r.declare name).scopes with
  | nil =>
    rw [around] at inside
    exact absurd rfl inside
  | cons scope outer =>
    have scopes := scopes_put (r.declare name) name.lexeme true
    rw [around] at scopes
    exact distance?_of_declares scopes (by rw [Scope.declares_put, beq_self_eq_true, Bool.true_or])

/-- The initializer of a variable, which must not read the variable. -/
theorem walks_var (sites : List Site) (name : Name) (identifier : name.IsIdentifier)
    (initializer : Option Expr) (r : Resolver) :
    r.Walks (Stmt.uses sites (.var name initializer) r)
      (statement (.var name initializer) r) := by
  have pass := passes_expression? initializer (r.declare name)
  have inside : (r.declare name).Walks (Stmt.uses sites (.var name initializer) r)
      (expression? initializer (r.declare name)) := by
    refine .of_passes pass sites (some name.lexeme) ?_ (fun inside other same =>
      Option.some.inj same ▸ distance?_declare inside)
    intro ends nonempty a member reads same
    have silent : (r.declare name).errors = [] := List.suffix_nil.mp (ends ▸ pass.errors)
    have waits := isPending_declare nonempty silent
    have named : name.lexeme = a.name := Option.some.inj same
    cases a with
    | read id other =>
      have ready := pass.ready ends id other member
      rw [show other.lexeme = name.lexeme from named.symm, waits] at ready
      cases ready
    | assign id other => cases reads
    | this id line => exact identifier.ne_this named
    | super id line => exact identifier.ne_super named
  have walk := ((Walks.declare r name).append inside).append (.define _ name)
  rw [List.nil_append, List.append_nil] at walk
  exact walk

theorem walks_return (sites : List Site) (line : Nat) (value : Option Expr) (r : Resolver) :
    r.Walks (Stmt.uses sites (.return line value) r) (statement (.return line value) r) := by
  have outside := Walks.reportIf (r.functionContext == .outside) .returnAtTopLevel line r
  cases value with
  | none => exact outside
  | some e =>
    have refused := outside.append (Walks.reportIf
      ((r.reportIf (r.functionContext == .outside) .returnAtTopLevel line).functionContext
        == .initializer) .valueFromInitializer line _)
    have walk := refused.append (Walks.of_expression sites e _)
    rw [scopes_reportIf, scopes_reportIf] at walk
    exact walk

/-- The name of a superclass is not that of the class. -/
theorem walks_superclass (sites : List Site) (name : Name) (parent : Superclass) (r : Resolver)
    (declared : r.scopes ≠ [] → r.distance? name.lexeme = some 0) :
    r.Walks [⟨parent.access, sites, r.scopes, some name.lexeme⟩]
      ({ r.reportIf (parent.name.lexeme == name.lexeme) .inheritsFromItself parent.name.line with
          classContext := .derived }.use parent.id parent.name) := by
  have other := Walks.reportIf (parent.name.lexeme == name.lexeme) .inheritsFromItself
    parent.name.line r
  have pass := Passes.use
    { r.reportIf (parent.name.lexeme == name.lexeme) .inheritsFromItself parent.name.line with
      classContext := .derived } parent.id parent.name
  have used := (other.recontext
      (r.reportIf (parent.name.lexeme == name.lexeme) .inheritsFromItself parent.name.line
        |>.functionContext) .derived).append
    (.of_passes pass sites (some name.lexeme) (by
      intro ends _ a member _ same
      have silent := List.suffix_nil.mp (ends ▸ pass.errors)
      have different := eq_false_of_reportIf silent
      rw [List.mem_singleton.mp member] at same
      have clash : name.lexeme = parent.name.lexeme := Option.some.inj same
      rw [clash, beq_self_eq_true] at different
      cases different) (by
      intro inside other same
      obtain rfl : name.lexeme = other := Option.some.inj same
      unfold distance? at declared ⊢
      rw [scopes_reportIf] at inside ⊢
      exact declared inside))
  have around : ({ r.reportIf (parent.name.lexeme == name.lexeme) .inheritsFromItself
      parent.name.line with classContext := .derived } : Resolver).scopes = r.scopes :=
    scopes_reportIf _ _ _ _
  rw [around] at used
  exact used

mutual

/-- **The analysis of a statement walks past its uses.** -/
theorem walks_statement (sites : List Site) (s : Stmt) (formed : s.Formed) (r : Resolver) :
    r.Walks (s.uses sites r) (statement s r) := by
  match s with
  | .expression e | .print e => exact .of_expression sites e r
  | .var name initializer => exact walks_var sites name formed initializer r
  | .block body =>
    exact (walks_statements (.block body :: sites) body formed r.enter).enclosed rfl
      (List.suffix_refl _) rfl
  | .if condition thenBranch elseBranch =>
    exact ((Walks.of_expression sites condition r).append
      (walks_statement sites thenBranch formed.1.1 _)).append
        (walks_statement? sites elseBranch formed.2 _)
  | .while condition body =>
    exact (Walks.of_expression sites condition r).append (walks_statement sites body formed.1 _)
  | .function declaration =>
    exact (Walks.introduce r declaration.name).append
      (walks_function sites .function declaration formed _)
  | .return line value => exact walks_return sites line value r
  | .class name parent methodDecls =>
    -- The class is introduced and its superclass used, before any scope is opened for the methods.
    have named : r.Walks [] ({ r with classContext := .base }.introduce name) :=
      have walk := Walks.introduce { r with classContext := .base } name
      .step walk.outer walk.depth walk.errors (distances_introduce _ name)
    cases parent with
    | none =>
      have walk := walks_methods sites methodDecls formed.2 (r.enterClass name none)
      exact (named.append (walk.enclosed rfl (List.suffix_refl _) rfl)).recontext _ _
    | some above =>
      have walk := walks_methods (.superclass name above methodDecls :: sites) methodDecls formed.2
        (r.enterClass name (some above))
      have inherited := walks_superclass sites name above
        ({ r with classContext := .base }.introduce name) distance?_introduce
      have methods := (walk.enclosed rfl (List.suffix_refl _) rfl).enclosed rfl
        (List.suffix_refl _) rfl
      exact ((named.append inherited).append methods).recontext _ _

theorem walks_statements (sites : List Site) (ss : List Stmt) (formed : Stmt.AllFormed ss)
    (r : Resolver) : r.Walks (Stmt.usesOfAll sites ss r) (statements ss r) := by
  match ss with
  | [] => exact .refl r
  | s :: ss =>
    exact (walks_statement sites s formed.1 r).append (walks_statements sites ss formed.2 _)

theorem walks_statement? (sites : List Site) (s : Option Stmt) (formed : Stmt.Formed? s)
    (r : Resolver) : r.Walks (Stmt.usesOf? sites s r) (statement? s r) := by
  match s with
  | none => exact .refl r
  | some s => exact walks_statement sites s formed.1 r

theorem walks_function (sites : List Site) (context : FunctionContext) (f : FunctionDecl)
    (formed : f.Formed) (r : Resolver) : r.Walks (f.uses sites context r) (function f context r) := by
  match f with
  | .mk name params body =>
    have opened := Walks.introduceAll params { r with functionContext := context }.enter
    have walk := walks_statements (.function (.mk name params body) :: sites) body formed.2.2
      (params.foldl introduce { r with functionContext := context }.enter)
    have inner := (opened.append walk).enclosed rfl (List.suffix_refl _) rfl (r := r)
    exact inner.recontext r.functionContext _

theorem walks_methods (sites : List Site) (fs : List FunctionDecl)
    (formed : FunctionDecl.AllFormed fs) (r : Resolver) :
    r.Walks (FunctionDecl.usesOfMethods sites fs r) (methods fs r) := by
  match fs with
  | [] => exact .refl r
  | f :: fs =>
    exact (walks_function (.receiver f :: sites) _ f formed.1 r).append
      (walks_methods sites fs formed.2 _)

end

/-! ## What a statement declares

A statement changes the scopes around it by the name that it declares, and by nothing else. -/

theorem scopes_define_congr {r r' : Resolver} (same : r.scopes = r'.scopes) (name : Name) :
    (r.define name).scopes = (r'.define name).scopes := by
  unfold define
  rw [scopes_put, scopes_put, same]

theorem scopes_declare_congr {r r' : Resolver} (same : r.scopes = r'.scopes) (name : Name) :
    (r.declare name).scopes = (r'.declare name).scopes := by
  unfold declare
  rw [← same]
  cases around : r.scopes with
  | nil => exact around.symm.trans same ▸ around
  | cons scope outer =>
    dsimp only
    split
    · exact same
    · rw [scopes_put, scopes_put, same]

theorem scopes_introduce_congr {r r' : Resolver} (same : r.scopes = r'.scopes) (name : Name) :
    (r.introduce name).scopes = (r'.introduce name).scopes :=
  scopes_define_congr (scopes_declare_congr same name) name

theorem scopes_expression? (e : Option Expr) (r : Resolver) :
    (expression? e r).scopes = r.scopes :=
  (passes_expression? e r).scopes

theorem scopes_returned (line : Nat) (value : Option Expr) (r : Resolver) :
    (returned line value r).scopes = r.scopes := by
  cases value with
  | none => exact scopes_reportIf _ _ _ r
  | some e =>
    exact (scopes_expression e _).trans ((scopes_reportIf _ _ _ _).trans (scopes_reportIf _ _ _ r))

/-- What is walked in a scope of its own leaves the scopes around it. -/
theorem scopes_function (f : FunctionDecl) (formed : f.Formed) (context : FunctionContext)
    (r : Resolver) : (function f context r).scopes = r.scopes := by
  cases f with
  | mk name params body =>
    have opened := Walks.introduceAll params { r with functionContext := context }.enter
    have walk := walks_statements [] body formed.2.2
      (params.foldl introduce { r with functionContext := context }.enter)
    exact walk.outer.trans opened.outer

theorem scopes_methods (fs : List FunctionDecl) (formed : FunctionDecl.AllFormed fs)
    (r : Resolver) : (methods fs r).scopes = r.scopes := by
  induction fs generalizing r with
  | nil => rfl
  | cons f fs ih => exact (ih formed.2 _).trans (scopes_function f formed.1 _ r)

/-- The scope around a method, in which `this` is declared. -/
def receiverScope : Scope := [("this", true)]

/-- The scope around the methods of a class with a superclass, in which `super` is declared. -/
def superScope : Scope := [("super", true)]

theorem scopes_introduce_base (name : Name) (r : Resolver) :
    ({ r with classContext := .base }.introduce name).scopes = (r.introduce name).scopes := by
  have same : ({ r with classContext := .base } : Resolver).scopes = r.scopes := rfl
  exact scopes_introduce_congr same name

theorem scopes_enterClass (name : Name) (parent : Option Superclass) (r : Resolver) :
    (r.enterClass name parent).scopes = receiverScope ::
      match parent with
      | some _ => superScope :: (r.introduce name).scopes
      | none => (r.introduce name).scopes := by
  cases parent with
  | none => exact congrArg (receiverScope :: ·) (scopes_introduce_base name r)
  | some above =>
    refine congrArg (receiverScope :: superScope :: ·) (Eq.trans ?_ (scopes_introduce_base name r))
    show (Resolver.use _ above.id above.name).scopes = _
    rw [(Passes.use _ above.id above.name).scopes]
    exact scopes_reportIf _ _ _ _

theorem scopes_class (name : Name) (parent : Option Superclass) (methodDecls : List FunctionDecl)
    (formed : FunctionDecl.AllFormed methodDecls) (r : Resolver) :
    (statement (.class name parent methodDecls) r).scopes = (r.introduce name).scopes := by
  have inside := scopes_methods methodDecls formed (r.enterClass name parent)
  rw [scopes_enterClass] at inside
  cases parent with
  | none =>
    show (methods methodDecls (r.enterClass name none)).scopes.tail = _
    rw [inside]
    rfl
  | some above =>
    show (methods methodDecls (r.enterClass name (some above))).scopes.tail.tail = _
    rw [inside]
    rfl

/-- What is reported about the head of a class is reported before its methods are walked. -/
theorem silent_enterClass {name : Name} {parent : Option Superclass} {r : Resolver}
    (silent : (r.enterClass name parent).errors = []) :
    ({ r with classContext := .base }.introduce name).errors = [] := by
  unfold enterClass enter at silent
  rw [errors_put] at silent
  cases parent with
  | none => exact silent
  | some above =>
    dsimp only at silent
    rw [errors_put] at silent
    exact (walks_superclass [] name above _ distance?_introduce).silent silent

theorem silent_class {name : Name} {parent : Option Superclass} {methodDecls : List FunctionDecl}
    {r : Resolver} (silent : (statement (.class name parent methodDecls) r).errors = []) :
    (methods methodDecls (r.enterClass name parent)).errors = [] := by
  cases parent <;> exact silent

/-- The scopes after a statement. -/
def scopesAfter (s : Stmt) (r : Resolver) : List Scope :=
  match s.declared? with
  | some name => (r.introduce name).scopes
  | none => r.scopes

theorem scopesAfter_of_plain {s : Stmt} (plain : s.isPlain = true) (r : Resolver) :
    scopesAfter s r = r.scopes := by
  unfold scopesAfter
  rw [Option.isNone_iff_eq_none.mp plain]

theorem scopes_statement (s : Stmt) (formed : s.Formed) (r : Resolver) :
    (statement s r).scopes = scopesAfter s r := by
  match s with
  | .expression e | .print e => exact scopes_expression e r
  | .var name initializer =>
    exact scopes_define_congr (scopes_expression? initializer (r.declare name)) name
  | .block body => exact (walks_statements [] body formed r.enter).outer
  | .if condition thenBranch none =>
    refine (scopes_statement thenBranch formed.1.1 _).trans ?_
    rw [scopesAfter_of_plain formed.1.2]
    exact scopes_expression condition r
  | .if condition thenBranch (some elseBranch) =>
    refine (scopes_statement elseBranch formed.2.1 _).trans ?_
    rw [scopesAfter_of_plain formed.2.2]
    refine (scopes_statement thenBranch formed.1.1 _).trans ?_
    rw [scopesAfter_of_plain formed.1.2]
    exact scopes_expression condition r
  | .while condition body =>
    refine (scopes_statement body formed.1 _).trans ?_
    rw [scopesAfter_of_plain formed.2]
    exact scopes_expression condition r
  | .function declaration => exact scopes_function declaration formed _ _
  | .return line value => exact scopes_returned line value r
  | .class name parent methodDecls => exact scopes_class name parent methodDecls formed.2 r

/-- Outside all scopes a statement leaves no scope open. -/
theorem scopes_statement_nil {s : Stmt} (formed : s.Formed) {r : Resolver}
    (outside : r.scopes = []) : (statement s r).scopes = [] := by
  rw [scopes_statement s formed]
  unfold scopesAfter
  split
  · exact scopes_introduce_nil _ outside
  · exact outside

end Resolver

end Lox
