import Lox.Resolution
import Lox.Proofs.Renaming.Trees

/-!
# The analysis of renamed trees

The static analysis of a renamed tree goes through the scopes of the tree with the names renamed in
those that are marked. A name that is looked up is found at the same distance: no scope on the way
declares it, since the new name is declared in marked scopes only, and there the old one is not.

A use is renamed by what the whole table says of its id. When ids run out an entry may be replaced
later on, and then the use itself was found elsewhere. So the two tables are compared only where an
entry is already the one that stays (`Resolver.Renamed.distances`): the use that makes such an entry
is renamed by it.
-/

set_option autoImplicit false

namespace Lox

/-- The scope `s'` is `s` with the old name renamed if the scope is marked. What the old name is
called in scopes that are marked otherwise is not declared. -/
structure Scope.Renamed (ρ : Renaming) (marked : Bool) (s s' : Scope) : Prop where
  ready : ∀ name, name ≠ ρ.new → s'.ready? (ρ.apply marked name) = s.ready? name
  absent : s'.ready? (ρ.apply (!marked) ρ.old) = none

namespace Scope.Renamed

variable {ρ : Renaming} {marked : Bool} {s s' : Scope} {name : String}

theorem empty (ρ : Renaming) (marked : Bool) : Scope.Renamed ρ marked [] [] :=
  ⟨fun _ _ => rfl, rfl⟩

theorem declares (same : s.Renamed ρ marked s') (fresh : name ≠ ρ.new) :
    s'.declares (ρ.apply marked name) = s.declares name :=
  congrArg Option.isSome (same.ready name fresh)

/-- Under the name that it has by any mark, a name is what it was or is not declared. -/
theorem ready?_cases (same : s.Renamed ρ marked s') (fresh : name ≠ ρ.new) (marked' : Bool) :
    s'.ready? (ρ.apply marked' name) = s.ready? name ∨
      s'.ready? (ρ.apply marked' name) = none := by
  by_cases here : marked' = marked
  · exact .inl (here ▸ same.ready name fresh)
  · obtain rfl : marked' = !marked := Bool.eq_not_of_ne here
    by_cases old : name = ρ.old
    · exact .inr (old ▸ same.absent)
    · have ready := same.ready name fresh
      rw [Renaming.apply_of_ne _ old] at ready ⊢
      exact .inl ready

theorem ready?_of_none (same : s.Renamed ρ marked s') (fresh : name ≠ ρ.new)
    (undeclared : s.ready? name = none) (marked' : Bool) :
    s'.ready? (ρ.apply marked' name) = none :=
  (same.ready?_cases fresh marked').elim (·.trans undeclared) id

theorem put (same : s.Renamed ρ marked s') (fresh : name ≠ ρ.new) (ready : Bool) :
    (s.put name ready).Renamed ρ marked (s'.put (ρ.apply marked name) ready) := by
  constructor
  · intro key fresh'
    unfold Scope.put Scope.ready?
    rw [List.lookup_cons, List.lookup_cons, Renaming.apply_beq marked fresh fresh']
    cases key == name with
    | true => rfl
    | false => exact same.ready key fresh'
  · unfold Scope.put Scope.ready?
    rw [List.lookup_cons, beq_eq_false_iff_ne.mpr (Renaming.apply_not_old_ne marked fresh)]
    exact same.absent

end Scope.Renamed

/-- Scopes and what becomes of them, each by its mark. -/
inductive Scope.AllRenamed (ρ : Renaming) : List Bool → List Scope → List Scope → Prop
  | nil : Scope.AllRenamed ρ [] [] []
  | cons {marked : Bool} {marks : List Bool} {s s' : Scope} {ss ss' : List Scope}
    (first : s.Renamed ρ marked s') (rest : Scope.AllRenamed ρ marks ss ss') :
    Scope.AllRenamed ρ (marked :: marks) (s :: ss) (s' :: ss')

theorem Scope.AllRenamed.tail {ρ : Renaming} {marked : Bool} {marks : List Bool}
    {ss ss' : List Scope} (same : Scope.AllRenamed ρ (marked :: marks) ss ss') :
    Scope.AllRenamed ρ marks ss.tail ss'.tail := by
  cases same with
  | cons _ rest => exact rest

/-- **A renamed use is found where the use is.** -/
theorem Scope.AllRenamed.findIdx? {ρ : Renaming} {marks : List Bool} {ss ss' : List Scope}
    (same : Scope.AllRenamed ρ marks ss ss') {name : String} (fresh : name ≠ ρ.new) (marked : Bool)
    (leads : ∀ distance, ss.findIdx? (·.declares name) = some distance →
      marks.getD distance false = marked) :
    ss'.findIdx? (·.declares (ρ.apply marked name)) = ss.findIdx? (·.declares name) := by
  induction same with
  | nil => rfl
  | @cons mark marks s s' ss ss' first rest ih =>
    rw [List.findIdx?_cons] at leads
    rw [List.findIdx?_cons, List.findIdx?_cons]
    cases here : s.declares name with
    | true =>
      rw [here] at leads
      obtain rfl : mark = marked := leads 0 rfl
      rw [first.declares fresh, here, if_pos rfl, if_pos rfl]
    | false =>
      have undeclared : s.ready? name = none := Option.isNone_iff_eq_none.mp (by
        rw [← Option.not_isSome, show (s.ready? name).isSome = false from here]
        rfl)
      have missing : s'.declares (ρ.apply marked name) = false :=
        congrArg Option.isSome (first.ready?_of_none fresh undeclared marked)
      rw [here] at leads
      rw [missing]
      refine congrArg (Option.map (· + 1)) (ih fun distance found => ?_)
      exact leads (distance + 1) (by rw [if_neg Bool.false_ne_true, found]; rfl)

namespace Resolver

/-- The state `r'` has what `r` has, with the scopes renamed by their marks. It has no violations if
`r` has none, and wherever `r` has the entry of the table, so has `r'`. -/
structure Renamed (ρ : Renaming) (marks : List Bool) (r r' : Resolver) : Prop where
  scopes : Scope.AllRenamed ρ marks r.scopes r'.scopes
  functionContext : r'.functionContext = r.functionContext
  classContext : r'.classContext = r.classContext
  distances : ∀ id : NodeId, r.distances[id]? = ρ.table[id]? → r'.distances[id]? = ρ.table[id]?
  errors : r.errors = [] → r'.errors = []

namespace Renamed

variable {ρ : Renaming} {marks : List Bool} {r r' : Resolver}

/-! ## Steps -/

theorem initial (ρ : Renaming) : Renamed ρ [] Resolver.initial .initial :=
  ⟨.nil, rfl, rfl, fun _ => id, id⟩

/-- After a violation nothing more is said of violations. -/
theorem report (same : Renamed ρ marks r r') (cause : ScopeError.Cause) (line : Nat) :
    Renamed ρ marks (r.report cause line) (r'.report cause line) :=
  ⟨same.scopes, same.functionContext, same.classContext, same.distances,
    fun silent => absurd silent (List.cons_ne_nil _ _)⟩

theorem reportIf (same : Renamed ρ marks r r') {condition condition' : Bool}
    (weaker : condition' = true → condition = true) (cause : ScopeError.Cause) (line : Nat) :
    Renamed ρ marks (r.reportIf condition cause line) (r'.reportIf condition' cause line) := by
  cases condition with
  | true =>
    cases condition' with
    | true => exact same.report cause line
    | false =>
      exact ⟨same.scopes, same.functionContext, same.classContext, same.distances,
        fun silent => absurd silent (List.cons_ne_nil _ _)⟩
  | false =>
    obtain rfl : condition' = false := Bool.eq_false_iff.mpr fun holds =>
      absurd (weaker holds) Bool.false_ne_true
    exact same

theorem withFunction (same : Renamed ρ marks r r') (f : FunctionContext) :
    Renamed ρ marks { r with functionContext := f } { r' with functionContext := f } :=
  ⟨same.scopes, rfl, same.classContext, same.distances, same.errors⟩

theorem withClass (same : Renamed ρ marks r r') (c : ClassContext) :
    Renamed ρ marks { r with classContext := c } { r' with classContext := c } :=
  ⟨same.scopes, same.functionContext, rfl, same.distances, same.errors⟩

theorem enter (same : Renamed ρ marks r r') (marked : Bool) :
    Renamed ρ (marked :: marks) r.enter r'.enter :=
  ⟨.cons (.empty ρ marked) same.scopes, same.functionContext, same.classContext, same.distances,
    same.errors⟩

theorem leave {marked : Bool} (same : Renamed ρ (marked :: marks) r r') :
    Renamed ρ marks r.leave r'.leave :=
  ⟨same.scopes.tail, same.functionContext, same.classContext, same.distances, same.errors⟩

theorem put (same : Renamed ρ marks r r') {name : String} (fresh : name ≠ ρ.new) (ready : Bool) :
    Renamed ρ marks (r.put name ready) (r'.put (ρ.apply (marks.headD false) name) ready) := by
  obtain ⟨scopes, functionContext, classContext, distances, errors⟩ := r
  obtain ⟨scopes', functionContext', classContext', distances', errors'⟩ := r'
  have around : Scope.AllRenamed ρ marks scopes scopes' := same.scopes
  cases around with
  | nil => exact same
  | cons first rest =>
    exact ⟨.cons (first.put fresh ready) rest, same.functionContext, same.classContext,
      same.distances, same.errors⟩

theorem declare (same : Renamed ρ marks r r') {name : Name} (fresh : name.lexeme ≠ ρ.new) :
    Renamed ρ marks (r.declare name) (r'.declare (name.rename ρ (marks.headD false))) := by
  have put := same.put fresh false
  have report := same.report .redeclared name.line
  obtain ⟨scopes, functionContext, classContext, distances, errors⟩ := r
  obtain ⟨scopes', functionContext', classContext', distances', errors'⟩ := r'
  have around : Scope.AllRenamed ρ marks scopes scopes' := same.scopes
  unfold Resolver.declare
  dsimp only
  cases around with
  | nil => exact same
  | @cons marked marks s s' _ _ first rest =>
    have declared : s'.declares (name.rename ρ ((marked :: marks).headD false)).lexeme
        = s.declares name.lexeme := first.declares fresh
    dsimp only
    by_cases already : s.declares name.lexeme = true
    · rw [if_pos already, if_pos (declared.trans already)]
      exact report
    · rw [if_neg already, if_neg (declared ▸ already)]
      exact put

theorem define (same : Renamed ρ marks r r') {name : Name} (fresh : name.lexeme ≠ ρ.new) :
    Renamed ρ marks (r.define name) (r'.define (name.rename ρ (marks.headD false))) :=
  same.put fresh true

theorem introduce (same : Renamed ρ marks r r') {name : Name} (fresh : name.lexeme ≠ ρ.new) :
    Renamed ρ marks (r.introduce name) (r'.introduce (name.rename ρ (marks.headD false))) :=
  (same.declare fresh).define fresh

/-- A name that is kept in the scope in which it is declared. -/
theorem introduce_kept (same : Renamed ρ marks r r') {name : Name} (fresh : name.lexeme ≠ ρ.new)
    (kept : ρ.apply (marks.headD false) name.lexeme = name.lexeme) :
    Renamed ρ marks (r.introduce name) (r'.introduce name) := by
  have introduced := same.introduce fresh
  unfold Name.rename at introduced
  rwa [kept] at introduced

theorem introduceAll {marked : Bool} (names : List Name)
    (fresh : ∀ name ∈ names, name.lexeme ≠ ρ.new)
    (same : Renamed ρ (marked :: marks) r r') :
    Renamed ρ (marked :: marks) (names.foldl Resolver.introduce r)
      ((names.map (Name.rename ρ marked)).foldl Resolver.introduce r') := by
  induction names generalizing r r' with
  | nil => exact same
  | cons name names ih =>
    obtain ⟨first, rest⟩ := List.forall_mem_cons.mp fresh
    exact ih rest (same.introduce first)

/-! ## Uses -/

/-- An entry for one id, which the other state has to have only if it stays. -/
theorem enter_distance (same : Renamed ρ marks r r') {id : NodeId} {distance : Nat}
    {later : Distances} (others : ∀ key, key ≠ id → later[key]? = r'.distances[key]?)
    (own : ρ.table[id]? = some distance → later[id]? = some distance) :
    Renamed ρ marks { r with distances := r.distances.insert id distance }
      { r' with distances := later } := by
  refine ⟨same.scopes, same.functionContext, same.classContext, fun key entry => ?_, same.errors⟩
  dsimp only at entry ⊢
  by_cases here : key = id
  · rw [here, Std.TreeMap.getElem?_insert_self] at entry
    rw [here, ← entry]
    exact own entry.symm
  · rw [Distances.getElem?_insert_of_ne _ _ here] at entry
    rw [others key here]
    exact same.distances key entry

theorem bind (same : Renamed ρ marks r r') (id : NodeId) {name : String} (fresh : name ≠ ρ.new) :
    Renamed ρ marks (r.bind id name) (r'.bind id (ρ.apply (ρ.reaches marks id) name)) := by
  unfold Resolver.bind
  cases found : r.scopes.findIdx? fun scope => scope.declares name with
  | none =>
    have missing := same.scopes.findIdx? fresh (ρ.reaches marks id) fun distance led =>
      absurd (led.symm.trans found) (Option.some_ne_none distance)
    rw [missing, found]
    exact same
  | some distance =>
    -- An entry that stays leads to the scope that is found, so the use has the mark of that scope.
    have stays (entry : ρ.table[id]? = some distance) :
        r'.scopes.findIdx? (·.declares (ρ.apply (ρ.reaches marks id) name)) = some distance := by
      refine (same.scopes.findIdx? fresh _ fun distance' led => ?_).trans found
      obtain rfl : distance' = distance := Option.some.inj (led.symm.trans found)
      unfold Renaming.reaches
      rw [entry]
    cases found' : r'.scopes.findIdx? (·.declares (ρ.apply (ρ.reaches marks id) name)) with
    | none =>
      exact same.enter_distance (fun _ _ => rfl) fun entry =>
        absurd ((stays entry).symm.trans found') (Option.some_ne_none distance)
    | some distance' =>
      refine same.enter_distance (fun _ => Distances.getElem?_insert_of_ne _ _) fun entry => ?_
      rw [Std.TreeMap.getElem?_insert_self, ← found']
      exact stays entry

/-- A name that is pending is so under the old name. -/
theorem isPending (same : Renamed ρ marks r r') {name : String} (fresh : name ≠ ρ.new)
    (marked : Bool) (pending : r'.isPending (ρ.apply marked name) = true) :
    r.isPending name = true := by
  have around := same.scopes
  unfold Resolver.isPending at pending ⊢
  generalize r.scopes = scopes, r'.scopes = scopes' at around pending
  cases around with
  | nil => cases pending
  | cons first rest =>
    dsimp only at pending ⊢
    rcases first.ready?_cases fresh marked with same | none
    · rwa [same] at pending
    · rw [none] at pending
      cases pending

theorem use (same : Renamed ρ marks r r') (id : NodeId) {name : Name}
    (fresh : name.lexeme ≠ ρ.new) :
    Renamed ρ marks (r.use id name) (r'.use id (name.rename ρ (ρ.reaches marks id))) :=
  (same.reportIf (same.isPending fresh _) .ownInitializer name.line).bind id fresh

theorem useThis (same : Renamed ρ marks r r') (id : NodeId) (line : Nat) :
    Renamed ρ marks (r.useThis id line) (r'.useThis id line) := by
  have bound := same.bind id Renaming.this_ne_new
  rw [Renaming.apply_this] at bound
  unfold Resolver.useThis
  rw [same.classContext]
  cases r.classContext with
  | outside => exact same.report _ _
  | base | derived => exact bound

theorem useSuper (same : Renamed ρ marks r r') (id : NodeId) (line : Nat) :
    Renamed ρ marks (r.useSuper id line) (r'.useSuper id line) := by
  have bound := same.bind id Renaming.super_ne_new
  rw [Renaming.apply_super] at bound
  unfold Resolver.useSuper
  rw [same.classContext]
  cases r.classContext with
  | outside | base => exact same.report _ _
  | derived => exact bound

/-! ## Expressions -/

mutual

theorem expression (e : Expr) {r r' : Resolver} (same : Renamed ρ marks r r')
    (fresh : ∀ a ∈ e.accesses, a.name ≠ ρ.new) :
    Renamed ρ marks (Resolver.expression e r) (Resolver.expression (e.rename ρ marks) r') := by
  match e with
  | .literal _ => exact same
  | .grouping inner => exact expression inner same fresh
  | .unary _ right _ => exact expression right same fresh
  | .binary left _ right _ | .logical left _ right =>
    obtain ⟨freshL, freshR⟩ := List.forall_mem_append.mp fresh
    exact expression right (expression left same freshL) freshR
  | .variable id name => exact same.use id (fresh _ List.mem_cons_self)
  | .assign id name value =>
    obtain ⟨freshV, freshA⟩ := List.forall_mem_append.mp fresh
    exact (expression value same freshV).bind id (freshA _ List.mem_cons_self)
  | .call callee arguments _ =>
    obtain ⟨freshC, freshA⟩ := List.forall_mem_append.mp fresh
    exact expressions arguments (expression callee same freshC) freshA
  | .get object _ => exact expression object same fresh
  | .set object _ value =>
    obtain ⟨freshV, freshO⟩ := List.forall_mem_append.mp fresh
    exact expression object (expression value same freshV) freshO
  | .this id line => exact same.useThis id line
  | .super id line _ => exact same.useSuper id line

theorem expressions (es : List Expr) {r r' : Resolver} (same : Renamed ρ marks r r')
    (fresh : ∀ a ∈ Expr.accessesOfAll es, a.name ≠ ρ.new) :
    Renamed ρ marks (Resolver.expressions es r)
      (Resolver.expressions (Expr.renameAll ρ marks es) r') := by
  match es with
  | [] => exact same
  | e :: es =>
    obtain ⟨freshE, freshR⟩ := List.forall_mem_append.mp fresh
    exact expressions es (expression e same freshE) freshR

end

theorem expression? (e : Option Expr) (same : Renamed ρ marks r r')
    (fresh : ∀ a ∈ Expr.accessesOf? e, a.name ≠ ρ.new) :
    Renamed ρ marks (Resolver.expression? e r)
      (Resolver.expression? (Expr.rename? ρ marks e) r') := by
  cases e with
  | none => exact same
  | some e => exact expression e same fresh

/-! ## Statements -/

theorem returned (line : Nat) (value : Option Expr) (same : Renamed ρ marks r r')
    (fresh : ∀ a ∈ Expr.accessesOf? value, a.name ≠ ρ.new) :
    Renamed ρ marks (Resolver.returned line value r)
      (Resolver.returned line (Expr.rename? ρ marks value) r') := by
  have outside : Renamed ρ marks
      (r.reportIf (r.functionContext == .outside) .returnAtTopLevel line)
      (r'.reportIf (r.functionContext == .outside) .returnAtTopLevel line) :=
    same.reportIf id _ _
  unfold Resolver.returned
  dsimp only
  rw [same.functionContext]
  cases value with
  | none => exact outside
  | some e =>
    rw [Expr.rename?, Option.map_some, outside.functionContext]
    exact expression e (outside.reportIf id _ _) fresh

/-- A class does not inherit from itself by the renaming, which makes no name that of the class. -/
theorem inherits_beq {name above : String} (fresh : name ≠ ρ.new) (marked : Bool)
    (itself : (ρ.apply marked above == name) = true) : (above == name) = true := by
  rcases Renaming.apply_cases (ρ := ρ) marked above with same | ⟨-, -, became⟩
  · rwa [same] at itself
  · rw [became] at itself
    exact absurd (eq_of_beq itself).symm fresh

theorem enterClass {name : Name} {parent : Option Superclass} (same : Renamed ρ marks r r')
    (fresh : name.lexeme ≠ ρ.new) (kept : ρ.apply (marks.headD false) name.lexeme = name.lexeme)
    (others : ∀ a ∈ Superclass.accessesOf? parent, a.name ≠ ρ.new) :
    Renamed ρ (false :: classMarks parent marks) (r.enterClass name parent)
      (r'.enterClass name (parent.map (Superclass.rename ρ marks))) := by
  have this_ {marks : List Bool} {r r' : Resolver} (same : Renamed ρ marks r r') :
      Renamed ρ (false :: marks) (r.enter.put "this" true) (r'.enter.put "this" true) :=
    (same.enter false).put Renaming.this_ne_new true
  have super_ {marks : List Bool} {r r' : Resolver} (same : Renamed ρ marks r r') :
      Renamed ρ (false :: marks) (r.enter.put "super" true) (r'.enter.put "super" true) :=
    (same.enter false).put Renaming.super_ne_new true
  have named := (same.withClass .base).introduce_kept fresh kept
  cases parent with
  | none => exact this_ named
  | some above =>
    have itself := @inherits_beq ρ name.lexeme above.name.lexeme fresh (ρ.reaches marks above.id)
    have checked := (named.reportIf itself .inheritsFromItself above.name.line).withClass .derived
    exact this_ (super_ (checked.use above.id (others _ List.mem_cons_self)))

theorem leaveClass (parent : Option Superclass) (around : ClassContext)
    (same : Renamed ρ (false :: classMarks parent marks) r r') :
    Renamed ρ marks (r.leaveClass parent around)
      (r'.leaveClass (parent.map (Superclass.rename ρ marks)) around) := by
  cases parent with
  | none => exact same.leave.withClass around
  | some above => exact same.leave.leave.withClass around

mutual

/-- **The analysis of a renamed statement is that of the statement**, whichever scopes are marked. -/
theorem statement (s : Stmt) {s' : Stmt} {marks : List Bool} (code : s.Renamed ρ marks s')
    {r r' : Resolver} (same : Renamed ρ marks r r') :
    Renamed ρ marks (Resolver.statement s r) (Resolver.statement s' r') := by
  match s with
  | .expression e | .print e =>
    cases code with
    | _ fresh => exact expression e same fresh
  | .var name initializer =>
    cases code with
    | var other fresh => exact (expression? initializer (same.declare other) fresh).define other
  | .block body =>
    cases code with
    | block marked inside => exact (statements body inside (same.enter marked)).leave
  | .if condition thenBranch elseBranch =>
    cases code with
    | «if» fresh first second =>
      have checked := expression condition same fresh
      exact statement? elseBranch second (statement thenBranch first checked)
  | .while condition body =>
    cases code with
    | «while» fresh inside => exact statement body inside (expression condition same fresh)
  | .function declaration =>
    cases code with
    | function other kept code =>
      refine function declaration code .function ?_
      rw [code.name]
      exact same.introduce_kept other kept
  | .return line value =>
    cases code with
    | «return» fresh => exact returned line value same fresh
  | .class name parent methodDecls =>
    cases code with
    | «class» other kept fresh code =>
      rw [Resolver.statement, Resolver.statement, same.classContext]
      exact leaveClass parent r.classContext
        (methods methodDecls code (same.enterClass other kept fresh))

theorem statements (ss : List Stmt) {ss' : List Stmt} {marks : List Bool}
    (code : Stmt.AllRenamed ρ marks ss ss') {r r' : Resolver} (same : Renamed ρ marks r r') :
    Renamed ρ marks (Resolver.statements ss r) (Resolver.statements ss' r') := by
  match ss with
  | [] =>
    cases code with
    | nil => exact same
  | s :: ss =>
    cases code with
    | cons first rest => exact statements ss rest (statement s first same)

theorem statement? (s : Option Stmt) {s' : Option Stmt} {marks : List Bool}
    (code : Stmt.Renamed? ρ marks s s') {r r' : Resolver} (same : Renamed ρ marks r r') :
    Renamed ρ marks (Resolver.statement? s r) (Resolver.statement? s' r') := by
  match s with
  | none =>
    cases code with
    | none => exact same
  | some s =>
    cases code with
    | some branch => exact statement s branch same

theorem function (f : FunctionDecl) {f' : FunctionDecl} {marks : List Bool}
    (code : f.Renamed ρ marks f') (context : FunctionContext) {r r' : Resolver}
    (same : Renamed ρ marks r r') :
    Renamed ρ marks (Resolver.function f context r) (Resolver.function f' context r') := by
  match f with
  | .mk name params body =>
    cases code with
    | mk marked others inside =>
      have opened := introduceAll params others ((same.withFunction context).enter marked)
      rw [Resolver.function, Resolver.function, same.functionContext]
      exact (statements body inside opened).leave.withFunction r.functionContext

theorem methods (fs : List FunctionDecl) {fs' : List FunctionDecl} {marks : List Bool}
    (code : FunctionDecl.AllRenamed ρ marks fs fs') {r r' : Resolver}
    (same : Renamed ρ marks r r') :
    Renamed ρ marks (Resolver.methods fs r) (Resolver.methods fs' r') := by
  match fs with
  | [] =>
    cases code with
    | nil => exact same
  | f :: fs =>
    cases code with
    | cons first rest =>
      refine methods fs rest ?_
      rw [first.name]
      exact function f first _ same

end

end Renamed

end Resolver

/-- **The analysis of a renamed program finds what it finds for the program**, if that has no
violations and the renaming has its table. -/
theorem resolve_renamed {ρ : Renaming} {program renamed : List Stmt}
    (code : Stmt.AllRenamed ρ [] program renamed) (silent : (resolve program).errors = [])
    (table : ρ.table = (resolve program).distances) :
    (resolve renamed).errors = [] ∧
      ∀ id : NodeId, (resolve renamed).distances[id]? = (resolve program).distances[id]? := by
  have same := Resolver.Renamed.statements program code (.initial ρ)
  rw [← table]
  refine ⟨?_, fun id => same.distances id (by rw [table]; rfl)⟩
  exact List.reverse_eq_nil_iff.mpr (same.errors (List.reverse_eq_nil_iff.mp silent))

end Lox
