import Lox.Proofs.Scoping.Declaring
import Lox.Proofs.Renaming.Trees

/-!
# Choosing what is renamed

A block or a function opens a scope, and it is given by the way that leads to it in the tree. What
is renamed is settled by a choice of such scopes: a declaration of a local variable or a parameter
is renamed by the choice of the one scope in which it stands.

A program without violations declares no name twice in one scope. So where the old name is a
variable or a parameter in each chosen scope, it is no function and no class there.
-/

set_option autoImplicit false

namespace Lox

/-! ## Choosing scopes -/

/-- Some of the scopes in a tree. A way to a scope is the list of the numbers of the parts that lead
to the block or the function by which it is opened; it is empty for one that is itself the tree. -/
abbrev Choice := List Nat → Bool

namespace Choice

/-- The scope at the end of a way. -/
def single (way : List Nat) : Choice := (· == way)

/-- What is chosen in a part of the tree. -/
def part (chosen : Choice) (i : Nat) : Choice := fun way => chosen (i :: way)

/-- What is chosen in a list of trees without the first of them. -/
def rest (chosen : Choice) : Choice
  | [] => false
  | i :: way => chosen ((i + 1) :: way)

end Choice

section

variable (ρ : Renaming)

mutual

/-- A statement with the old name renamed in the chosen scopes, and in those around it by their
marks. -/
def Stmt.rename (s : Stmt) (chosen : Choice) (marks : List Bool) : Stmt :=
  match s with
  | .expression e => .expression (e.rename ρ marks)
  | .print e => .print (e.rename ρ marks)
  | .var name initializer =>
    .var (name.rename ρ (marks.headD false)) (Expr.rename? ρ marks initializer)
  | .block body => .block (Stmt.renameAll body chosen (chosen [] :: marks))
  | .if condition thenBranch elseBranch =>
    .if (condition.rename ρ marks) (thenBranch.rename (chosen.part 0) marks)
      (Stmt.rename? elseBranch (chosen.part 1) marks)
  | .while condition body => .while (condition.rename ρ marks) (body.rename (chosen.part 0) marks)
  | .function declaration => .function (declaration.rename chosen marks)
  | .return line value => .return line (Expr.rename? ρ marks value)
  | .class name parent methods =>
    .class name (parent.map (Superclass.rename ρ marks))
      (FunctionDecl.renameAll methods chosen (false :: classMarks parent marks))

def Stmt.renameAll (ss : List Stmt) (chosen : Choice) (marks : List Bool) : List Stmt :=
  match ss with
  | [] => []
  | s :: ss => s.rename (chosen.part 0) marks :: Stmt.renameAll ss chosen.rest marks

def Stmt.rename? (s : Option Stmt) (chosen : Choice) (marks : List Bool) : Option Stmt :=
  match s with
  | none => none
  | some s => some (s.rename chosen marks)

def FunctionDecl.rename (f : FunctionDecl) (chosen : Choice) (marks : List Bool) : FunctionDecl :=
  match f with
  | .mk name params body =>
    .mk name (params.map (Name.rename ρ (chosen [])))
      (Stmt.renameAll body chosen (chosen [] :: marks))

def FunctionDecl.renameAll (fs : List FunctionDecl) (chosen : Choice) (marks : List Bool) :
    List FunctionDecl :=
  match fs with
  | [] => []
  | f :: fs => f.rename (chosen.part 0) marks :: FunctionDecl.renameAll fs chosen.rest marks

end

end

/-! ## The names in a program -/

mutual

/-- The names that a statement declares and uses. -/
def Stmt.names : Stmt → List String
  | .expression e | .print e => e.accesses.map Access.name
  | .var name initializer => name.lexeme :: (Expr.accessesOf? initializer).map Access.name
  | .block body => Stmt.namesOfAll body
  | .if condition thenBranch elseBranch =>
    condition.accesses.map Access.name ++ thenBranch.names ++ Stmt.namesOf? elseBranch
  | .while condition body => condition.accesses.map Access.name ++ body.names
  | .function declaration => declaration.names
  | .return _ value => (Expr.accessesOf? value).map Access.name
  | .class name parent methods =>
    name.lexeme :: (Superclass.accessesOf? parent).map Access.name
      ++ FunctionDecl.namesOfAll methods

def Stmt.namesOfAll : List Stmt → List String
  | [] => []
  | s :: ss => s.names ++ Stmt.namesOfAll ss

def Stmt.namesOf? : Option Stmt → List String
  | none => []
  | some s => s.names

def FunctionDecl.names : FunctionDecl → List String
  | .mk name params body => name.lexeme :: params.map Name.lexeme ++ Stmt.namesOfAll body

def FunctionDecl.namesOfAll : List FunctionDecl → List String
  | [] => []
  | f :: fs => f.names ++ FunctionDecl.namesOfAll fs

end

/-- The variable that a statement declares in the scope in which it stands. -/
def Stmt.variable? : Stmt → Option String
  | .var name _ => some name.lexeme
  | .expression _ | .print _ | .block _ | .if _ _ _ | .while _ _ | .function _ | .return _ _
  | .class _ _ _ => none

mutual

/-- Whether each chosen scope declares the name as a variable or as a parameter. -/
def Stmt.Declares (name : String) (s : Stmt) (chosen : Choice) : Prop :=
  match s with
  | .expression _ | .print _ | .var _ _ | .return _ _ => True
  | .block body =>
    (chosen [] = true → name ∈ body.filterMap Stmt.variable?) ∧ Stmt.AllDeclare name body chosen
  | .if _ thenBranch elseBranch =>
    thenBranch.Declares name (chosen.part 0) ∧ Stmt.Declares? name elseBranch (chosen.part 1)
  | .while _ body => body.Declares name (chosen.part 0)
  | .function f => f.Declares name chosen
  | .class _ _ methods => FunctionDecl.AllDeclare name methods chosen

def Stmt.AllDeclare (name : String) (ss : List Stmt) (chosen : Choice) : Prop :=
  match ss with
  | [] => True
  | s :: ss => s.Declares name (chosen.part 0) ∧ Stmt.AllDeclare name ss chosen.rest

def Stmt.Declares? (name : String) (s : Option Stmt) (chosen : Choice) : Prop :=
  match s with
  | none => True
  | some s => s.Declares name chosen

def FunctionDecl.Declares (name : String) (f : FunctionDecl) (chosen : Choice) : Prop :=
  match f with
  | .mk _ params body =>
    (chosen [] = true →
        name ∈ params.map Name.lexeme ∨ name ∈ body.filterMap Stmt.variable?) ∧
      Stmt.AllDeclare name body chosen

def FunctionDecl.AllDeclare (name : String) (fs : List FunctionDecl) (chosen : Choice) : Prop :=
  match fs with
  | [] => True
  | f :: fs => f.Declares name (chosen.part 0) ∧ FunctionDecl.AllDeclare name fs chosen.rest

end

mutual

/-- Whether no function and no class has the name in a chosen scope, or in the scope of the
statement if that is marked. -/
def Stmt.Spares (name : String) (s : Stmt) (chosen : Choice) (marked : Bool) : Prop :=
  match s with
  | .expression _ | .print _ | .var _ _ | .return _ _ => True
  | .block body => Stmt.AllSpare name body chosen (chosen [])
  | .if _ thenBranch elseBranch =>
    thenBranch.Spares name (chosen.part 0) marked ∧
      Stmt.Spares? name elseBranch (chosen.part 1) marked
  | .while _ body => body.Spares name (chosen.part 0) marked
  | .function f => ¬(marked = true ∧ f.name.lexeme = name) ∧ f.Spares name chosen
  | .class own _ methods =>
    ¬(marked = true ∧ own.lexeme = name) ∧ FunctionDecl.AllSpare name methods chosen

def Stmt.AllSpare (name : String) (ss : List Stmt) (chosen : Choice) (marked : Bool) : Prop :=
  match ss with
  | [] => True
  | s :: ss => s.Spares name (chosen.part 0) marked ∧ Stmt.AllSpare name ss chosen.rest marked

def Stmt.Spares? (name : String) (s : Option Stmt) (chosen : Choice) (marked : Bool) : Prop :=
  match s with
  | none => True
  | some s => s.Spares name chosen marked

def FunctionDecl.Spares (name : String) (f : FunctionDecl) (chosen : Choice) : Prop :=
  match f with
  | .mk _ _ body => Stmt.AllSpare name body chosen (chosen [])

def FunctionDecl.AllSpare (name : String) (fs : List FunctionDecl) (chosen : Choice) : Prop :=
  match fs with
  | [] => True
  | f :: fs => f.Spares name (chosen.part 0) ∧ FunctionDecl.AllSpare name fs chosen.rest

end

section

variable {ρ : Renaming}

/-! ## What is renamed is related -/

/-- A name that is not the old one in a marked scope is kept. -/
theorem Renaming.apply_of_spared {marked : Bool} {name : String}
    (spared : ¬(marked = true ∧ name = ρ.old)) : ρ.apply marked name = name := by
  rcases apply_cases (ρ := ρ) marked name with kept | ⟨here, old, -⟩
  · exact kept
  · exact absurd ⟨here, old⟩ spared

theorem Access.others_of_map {accesses : List Access} {other : String}
    (fresh : ∀ name ∈ accesses.map Access.name, name ≠ other) : ∀ a ∈ accesses, a.name ≠ other :=
  fun _ member => fresh _ (List.mem_map_of_mem member)

theorem Name.others_of_map {names : List Name} {other : String}
    (fresh : ∀ name ∈ names.map Name.lexeme, name ≠ other) :
    ∀ name ∈ names, name.lexeme ≠ other :=
  fun _ member => fresh _ (List.mem_map_of_mem member)

mutual

/-- **A tree is related to what it is renamed to**, if the new name does not occur in it. -/
theorem Stmt.renamed_rename (s : Stmt) (chosen : Choice) (marks : List Bool)
    (fresh : ∀ name ∈ s.names, name ≠ ρ.new)
    (spared : s.Spares ρ.old chosen (marks.headD false)) :
    s.Renamed ρ marks (s.rename ρ chosen marks) := by
  match s with
  | .expression e => exact .expression (Access.others_of_map fresh)
  | .print e => exact .print (Access.others_of_map fresh)
  | .var name initializer =>
    obtain ⟨own, inside⟩ := List.forall_mem_cons.mp fresh
    exact .var own (Access.others_of_map inside)
  | .block body =>
    exact .block (chosen []) (Stmt.allRenamed_renameAll body chosen _ fresh spared)
  | .if condition thenBranch elseBranch =>
    obtain ⟨fresh, second⟩ := List.forall_mem_append.mp fresh
    obtain ⟨head, first⟩ := List.forall_mem_append.mp fresh
    exact .if (Access.others_of_map head) (thenBranch.renamed_rename _ marks first spared.1)
      (Stmt.renamed?_rename? elseBranch _ marks second spared.2)
  | .while condition body =>
    obtain ⟨head, inside⟩ := List.forall_mem_append.mp fresh
    exact .while (Access.others_of_map head) (body.renamed_rename _ marks inside spared)
  | .function declaration =>
    have own : declaration.name.lexeme ∈ declaration.names := by
      cases declaration
      exact List.mem_cons_self
    exact .function (fresh _ own) (Renaming.apply_of_spared spared.1)
      (declaration.renamed_rename chosen marks fresh spared.2)
  | .return line value => exact .return (Access.others_of_map fresh)
  | .class name parent methods =>
    obtain ⟨head, code⟩ := List.forall_mem_append.mp fresh
    obtain ⟨own, above⟩ := List.forall_mem_cons.mp head
    exact .class own (Renaming.apply_of_spared spared.1) (Access.others_of_map above)
      (FunctionDecl.allRenamed_renameAll methods chosen _ code spared.2)

theorem Stmt.allRenamed_renameAll (ss : List Stmt) (chosen : Choice) (marks : List Bool)
    (fresh : ∀ name ∈ Stmt.namesOfAll ss, name ≠ ρ.new)
    (spared : Stmt.AllSpare ρ.old ss chosen (marks.headD false)) :
    Stmt.AllRenamed ρ marks ss (Stmt.renameAll ρ ss chosen marks) := by
  match ss with
  | [] => exact .nil
  | s :: ss =>
    obtain ⟨first, rest⟩ := List.forall_mem_append.mp fresh
    exact .cons (s.renamed_rename _ marks first spared.1)
      (Stmt.allRenamed_renameAll ss _ marks rest spared.2)

theorem Stmt.renamed?_rename? (s : Option Stmt) (chosen : Choice) (marks : List Bool)
    (fresh : ∀ name ∈ Stmt.namesOf? s, name ≠ ρ.new)
    (spared : Stmt.Spares? ρ.old s chosen (marks.headD false)) :
    Stmt.Renamed? ρ marks s (Stmt.rename? ρ s chosen marks) := by
  match s with
  | none => exact .none
  | some s => exact .some (s.renamed_rename chosen marks fresh spared)

theorem FunctionDecl.renamed_rename (f : FunctionDecl) (chosen : Choice) (marks : List Bool)
    (fresh : ∀ name ∈ f.names, name ≠ ρ.new) (spared : f.Spares ρ.old chosen) :
    f.Renamed ρ marks (f.rename ρ chosen marks) := by
  match f with
  | .mk name params body =>
    obtain ⟨head, inside⟩ := List.forall_mem_append.mp fresh
    obtain ⟨-, others⟩ := List.forall_mem_cons.mp head
    exact .mk (chosen []) (Name.others_of_map others)
      (Stmt.allRenamed_renameAll body chosen _ inside spared)

theorem FunctionDecl.allRenamed_renameAll (fs : List FunctionDecl) (chosen : Choice)
    (marks : List Bool) (fresh : ∀ name ∈ FunctionDecl.namesOfAll fs, name ≠ ρ.new)
    (spared : FunctionDecl.AllSpare ρ.old fs chosen) :
    FunctionDecl.AllRenamed ρ marks fs (FunctionDecl.renameAll ρ fs chosen marks) := by
  match fs with
  | [] => exact .nil
  | f :: fs =>
    obtain ⟨first, rest⟩ := List.forall_mem_append.mp fresh
    exact .cons (f.renamed_rename _ marks first spared.1)
      (FunctionDecl.allRenamed_renameAll fs _ marks rest spared.2)

end

end

/-! ## Names are declared once -/

/-- The function or class that a statement declares. -/
def Stmt.callable? : Stmt → Option Name
  | .function declaration => some declaration.name
  | .class name _ _ => some name
  | .expression _ | .print _ | .var _ _ | .block _ | .if _ _ _ | .while _ _ | .return _ _ => none

theorem Stmt.declared?_of_callable? {s : Stmt} {name : Name} (callable : s.callable? = some name) :
    s.declared? = some name := by
  cases s with
  | function | «class» => exact callable
  | expression | print | var | block | «if» | «while» | «return» => cases callable

theorem Stmt.declared?_of_variable? {s : Stmt} {name : String}
    (variable_ : s.variable? = some name) : ∃ own, s.declared? = some own ∧ own.lexeme = name := by
  cases s with
  | var own initializer => exact ⟨own, rfl, Option.some.inj variable_⟩
  | function | «class» | expression | print | block | «if» | «while» | «return» => cases variable_

theorem Stmt.callable?_of_plain {s : Stmt} (plain : s.isPlain = true) : s.callable? = none := by
  cases callable : s.callable? with
  | none => rfl
  | some name =>
    unfold isPlain at plain
    rw [declared?_of_callable? callable] at plain
    cases plain

namespace Resolver

variable {r : Resolver} {scope : Scope} {outer : List Scope}

/-- A statement without violations declares a name that its scope did not have. -/
theorem not_declares_of_silent {s : Stmt} (formed : s.Formed) {name : Name}
    (declared : s.declared? = some name) (inside : r.scopes = scope :: outer)
    (silent : (statement s r).errors = []) : scope.declares name.lexeme = false := by
  cases s with
  | var own initializer =>
    obtain rfl : own = name := Option.some.inj declared
    have walked : (expression? initializer (r.declare own)).errors = [] :=
      (errors_put _ _ _).symm.trans silent
    have grown := (passes_expression? initializer (r.declare own)).errors
    rw [walked] at grown
    exact (scopes_declare_cons inside (List.suffix_nil.mp grown)).1
  | function f =>
    obtain rfl : f.name = name := Option.some.inj declared
    have before := (walks_function [] .function f formed _).silent silent
    exact (scopes_introduce_cons inside before).1
  | «class» own parent methodDecls =>
    obtain rfl : own = name := Option.some.inj declared
    have walked := (walks_methods [] methodDecls formed.2 _).silent (silent_class silent)
    exact (scopes_introduce_cons (r := { r with classContext := .base }) inside
      (silent_enterClass walked)).1
  | expression | print | block | «if» | «while» | «return» => cases declared

/-- After a statement the scope also declares the name that the statement declares. -/
theorem declares_statement {s : Stmt} (formed : s.Formed) (inside : r.scopes = scope :: outer) :
    ∃ scope', (statement s r).scopes = scope' :: outer ∧
      ∀ key, scope'.declares key = (s.declared?.any (key == ·.lexeme) || scope.declares key) := by
  rw [scopes_statement s formed]
  unfold scopesAfter
  cases s.declared? with
  | none => exact ⟨scope, inside, fun _ => rfl⟩
  | some name => exact declares_introduce name inside

/-- Statements without violations declare names that their scope did not have, and a function or a
class among them has the name of no variable. -/
theorem apart_of_silent (ss : List Stmt) (formed : Stmt.AllFormed ss)
    (inside : r.scopes = scope :: outer) (silent : (statements ss r).errors = []) :
    (∀ s ∈ ss, ∀ name, s.declared? = some name → scope.declares name.lexeme = false) ∧
      ∀ s ∈ ss, ∀ name, s.callable? = some name → ∀ t ∈ ss, t.variable? ≠ some name.lexeme := by
  induction ss generalizing r scope with
  | nil =>
    exact ⟨fun _ member => absurd member List.not_mem_nil,
      fun _ member => absurd member List.not_mem_nil⟩
  | cons s ss ih =>
    have walked := (walks_statements [] ss formed.2 _).silent silent
    obtain ⟨scope', around, declares⟩ := declares_statement formed.1 inside
    obtain ⟨fresh, apart⟩ := ih formed.2 around silent
    -- A name that is declared later is another one than that of the first statement.
    have later : ∀ t ∈ ss, ∀ name, t.declared? = some name →
        s.declared?.any (name.lexeme == ·.lexeme) = false ∧ scope.declares name.lexeme = false := by
      intro t member name declared
      have missing := fresh t member name declared
      rw [declares] at missing
      exact Bool.or_eq_false_iff.mp missing
    refine ⟨fun t member name declared => ?_, fun t member name callable u member' same => ?_⟩
    · rcases List.mem_cons.mp member with rfl | member
      · exact not_declares_of_silent formed.1 declared inside walked
      · exact (later t member name declared).2
    · have declared := Stmt.declared?_of_callable? callable
      obtain ⟨own, declared', named⟩ := Stmt.declared?_of_variable? same
      rcases List.mem_cons.mp member with rfl | rest <;>
        rcases List.mem_cons.mp member' with rfl | rest'
      · cases u with
        | var => cases callable
        | function | «class» | expression | print | block | «if» | «while» | «return» => cases same
      · have differ := (later u rest' own declared').1
        rw [declared, Option.any_some, named, beq_self_eq_true] at differ
        cases differ
      · have differ := (later t rest name declared).1
        rw [declared', Option.any_some, named, beq_self_eq_true] at differ
        cases differ
      · exact apart t rest name callable u rest' same

end Resolver

/-! ## What is chosen is spared -/

section

variable {name : String}

/-- A chosen scope that declares the name as a variable has no function or class of that name. -/
theorem Stmt.callable?_ne {body : List Stmt} (formed : Stmt.AllFormed body) {r : Resolver}
    {scope : Scope} {outer : List Scope} (inside : r.scopes = scope :: outer)
    (silent : (Resolver.statements body r).errors = [])
    (declared : scope.declares name = true ∨ name ∈ body.filterMap Stmt.variable?) :
    ∀ s ∈ body, ∀ own, s.callable? = some own → own.lexeme ≠ name := by
  obtain ⟨fresh, apart⟩ := Resolver.apart_of_silent body formed inside silent
  rintro s member own callable rfl
  rcases declared with before | variable_
  · rw [fresh s member own (Stmt.declared?_of_callable? callable)] at before
    cases before
  · obtain ⟨t, member', same⟩ := List.mem_filterMap.mp variable_
    exact apart s member own callable t member' same

mutual

/-- **Where each chosen scope declares the name as a variable or a parameter, it is no function and
no class in any of them**, if there are no violations. -/
theorem Stmt.spares_of_declares (s : Stmt) (formed : s.Formed) (chosen : Choice) (marked : Bool)
    {r : Resolver} (silent : (Resolver.statement s r).errors = [])
    (declares : s.Declares name chosen)
    (here : marked = true → ∀ own, s.callable? = some own → own.lexeme ≠ name) :
    s.Spares name chosen marked := by
  match s with
  | .expression _ | .print _ | .var _ _ | .return _ _ => trivial
  | .block body =>
    refine Stmt.allSpare_of_declare body formed chosen (chosen []) silent declares.2 fun chose => ?_
    exact Stmt.callable?_ne formed rfl silent (.inr (declares.1 chose))
  | .if condition thenBranch elseBranch =>
    have walked := (Resolver.walks_statement? [] elseBranch formed.2 _).silent silent
    refine ⟨Stmt.spares_of_declares thenBranch formed.1.1 _ marked walked declares.1 ?_,
      Stmt.spares?_of_declares? elseBranch formed.2 _ marked silent declares.2⟩
    intro _ own callable
    rw [Stmt.callable?_of_plain formed.1.2] at callable
    cases callable
  | .while condition body =>
    refine Stmt.spares_of_declares body formed.1 _ marked silent declares fun _ own callable => ?_
    rw [Stmt.callable?_of_plain formed.2] at callable
    cases callable
  | .function f =>
    exact ⟨fun ⟨chose, same⟩ => here chose _ rfl same,
      FunctionDecl.spares_of_declares f formed chosen .function silent declares⟩
  | .class own parent methodDecls =>
    exact ⟨fun ⟨chose, same⟩ => here chose _ rfl same,
      FunctionDecl.allSpare_of_declare methodDecls formed.2 chosen (Resolver.silent_class silent)
        declares⟩

theorem Stmt.allSpare_of_declare (ss : List Stmt) (formed : Stmt.AllFormed ss) (chosen : Choice)
    (marked : Bool) {r : Resolver} (silent : (Resolver.statements ss r).errors = [])
    (declare : Stmt.AllDeclare name ss chosen)
    (here : marked = true → ∀ s ∈ ss, ∀ own, s.callable? = some own → own.lexeme ≠ name) :
    Stmt.AllSpare name ss chosen marked := by
  match ss with
  | [] => trivial
  | s :: ss =>
    have walked := (Resolver.walks_statements [] ss formed.2 _).silent silent
    exact ⟨Stmt.spares_of_declares s formed.1 _ marked walked declare.1 fun chose =>
        here chose s List.mem_cons_self,
      Stmt.allSpare_of_declare ss formed.2 _ marked silent declare.2 fun chose t member =>
        here chose t (List.mem_cons_of_mem _ member)⟩

theorem Stmt.spares?_of_declares? (s : Option Stmt) (formed : Stmt.Formed? s) (chosen : Choice)
    (marked : Bool) {r : Resolver} (silent : (Resolver.statement? s r).errors = [])
    (declares : Stmt.Declares? name s chosen) : Stmt.Spares? name s chosen marked := by
  match s with
  | none => trivial
  | some s =>
    refine Stmt.spares_of_declares s formed.1 _ marked silent declares fun _ own callable => ?_
    rw [Stmt.callable?_of_plain formed.2] at callable
    cases callable

theorem FunctionDecl.spares_of_declares (f : FunctionDecl) (formed : f.Formed) (chosen : Choice)
    (context : FunctionContext) {r : Resolver}
    (silent : (Resolver.function f context r).errors = []) (declares : f.Declares name chosen) :
    f.Spares name chosen := by
  match f with
  | .mk own params body =>
    have opened : ({ r with functionContext := context }.enter : Resolver).scopes
        = [] :: r.scopes := rfl
    obtain ⟨scope, around, named⟩ := Resolver.declares_introduceAll params opened
    refine Stmt.allSpare_of_declare body formed.2.2 chosen (chosen []) silent declares.2
      fun chose => ?_
    refine Stmt.callable?_ne formed.2.2 around silent ?_
    rcases declares.1 chose with param | variable_
    · obtain ⟨declared, member, rfl⟩ := List.mem_map.mp param
      have here : params.any (declared.lexeme == ·.lexeme) = true :=
        List.any_eq_true.mpr ⟨declared, member, beq_self_eq_true _⟩
      exact .inl (by rw [named, here, Bool.true_or])
    · exact .inr variable_

theorem FunctionDecl.allSpare_of_declare (fs : List FunctionDecl)
    (formed : FunctionDecl.AllFormed fs) (chosen : Choice) {r : Resolver}
    (silent : (Resolver.methods fs r).errors = [])
    (declare : FunctionDecl.AllDeclare name fs chosen) :
    FunctionDecl.AllSpare name fs chosen := by
  match fs with
  | [] => trivial
  | f :: fs =>
    have walked := (Resolver.walks_methods [] fs formed.2 _).silent silent
    exact ⟨FunctionDecl.spares_of_declares f formed.1 _ _ walked declare.1,
      FunctionDecl.allSpare_of_declare fs formed.2 _ silent declare.2⟩

end

end

end Lox
