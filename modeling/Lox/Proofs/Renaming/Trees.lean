import Lox.Scope
import Lox.Proofs.Syntax

/-!
# Renamed variables

A local variable is given another name: in its declaration, and at exactly those uses that the table
of distances leads to the scope in which it is declared. A scope in which the old name is renamed is
*marked*; the marks around a place say this of each scope around it, from the innermost outwards.
An expression opens no scope, so the marks around it settle what becomes of it. A block or a
function opens one, which may be marked or not: `Stmt.Renamed` relates a statement to what it
becomes under any choice of marks.

Globals stand in no scope and keep their names, and so do functions, classes, fields and methods.
The new name is one that no declaration and no use has.
-/

set_option autoImplicit false

namespace Lox

/-- A new name for an old one, and the table that says where uses of variables lead. Neither name is
a reserved word. -/
structure Renaming where
  old : String
  new : String
  table : Distances
  differ : old ≠ new
  old_identifier : Keyword.ofSpelling? old = none
  new_identifier : Keyword.ofSpelling? new = none

namespace Renaming

variable (ρ : Renaming)

/-- What becomes of a name that is declared in a scope, which may be marked. -/
def apply (marked : Bool) (name : String) : String :=
  if marked && name == ρ.old then ρ.new else name

/-- Whether a use leads to a marked scope. -/
def reaches (marks : List Bool) (id : NodeId) : Bool :=
  match ρ.table[id]? with
  | some distance => marks.getD distance false
  | none => false

variable {ρ} {marked : Bool} {name key : String}

@[simp]
theorem apply_false (name : String) : ρ.apply false name = name := rfl

@[simp]
theorem apply_true_old : ρ.apply true ρ.old = ρ.new := by simp [apply]

theorem apply_of_ne (marked : Bool) (other : name ≠ ρ.old) : ρ.apply marked name = name := by
  simp [apply, other]

/-- A name is kept, or it is the old one and becomes the new one. -/
theorem apply_cases (marked : Bool) (name : String) :
    ρ.apply marked name = name ∨ marked = true ∧ name = ρ.old ∧ ρ.apply marked name = ρ.new := by
  cases marked with
  | false => exact .inl rfl
  | true =>
    by_cases same : name = ρ.old
    · exact .inr ⟨rfl, same, by rw [same, apply_true_old]⟩
    · exact .inl (apply_of_ne true same)

/-- In one scope different names stay different. -/
theorem apply_inj (marked : Bool) (fresh : name ≠ ρ.new) (fresh' : key ≠ ρ.new) :
    ρ.apply marked key = ρ.apply marked name ↔ key = name := by
  constructor
  · intro same
    rcases apply_cases (ρ := ρ) marked key with kept | ⟨-, rfl, became⟩ <;>
      rcases apply_cases (ρ := ρ) marked name with kept' | ⟨-, rfl, became'⟩
    · rwa [kept, kept'] at same
    · exact absurd (kept.symm.trans (same.trans became')) fresh'
    · exact absurd (kept'.symm.trans (same.symm.trans became)) fresh
    · rfl
  · rintro rfl
    rfl

theorem apply_beq (marked : Bool) (fresh : name ≠ ρ.new) (fresh' : key ≠ ρ.new) :
    (ρ.apply marked key == ρ.apply marked name) = (key == name) :=
  Bool.eq_iff_iff.mpr (by simpa using apply_inj marked fresh fresh')

/-- The name that the old one has in the scopes that are marked otherwise is no name here. -/
theorem apply_not_old_ne (marked : Bool) (fresh : name ≠ ρ.new) :
    ρ.apply (!marked) ρ.old ≠ ρ.apply marked name := by
  cases marked with
  | false =>
    rw [Bool.not_false, apply_true_old]
    exact fresh.symm
  | true =>
    show ρ.old ≠ ρ.apply true name
    rcases apply_cases (ρ := ρ) true name with kept | ⟨-, -, became⟩
    · rw [kept]
      rintro rfl
      exact ρ.differ (kept.symm.trans apply_true_old)
    · rw [became]
      exact ρ.differ

/-! Reserved words are neither of the names. -/

theorem this_ne_old : "this" ≠ ρ.old := by
  intro same
  have word := ρ.old_identifier
  rw [← same] at word
  exact absurd word (by decide)

theorem super_ne_old : "super" ≠ ρ.old := by
  intro same
  have word := ρ.old_identifier
  rw [← same] at word
  exact absurd word (by decide)

theorem this_ne_new : "this" ≠ ρ.new := by
  intro same
  have word := ρ.new_identifier
  rw [← same] at word
  exact absurd word (by decide)

theorem super_ne_new : "super" ≠ ρ.new := by
  intro same
  have word := ρ.new_identifier
  rw [← same] at word
  exact absurd word (by decide)

@[simp]
theorem apply_this (marked : Bool) : ρ.apply marked "this" = "this" :=
  apply_of_ne marked this_ne_old

@[simp]
theorem apply_super (marked : Bool) : ρ.apply marked "super" = "super" :=
  apply_of_ne marked super_ne_old

end Renaming

variable (ρ : Renaming)

/-! ## Expressions -/

def Name.rename (marked : Bool) (name : Name) : Name :=
  { name with lexeme := ρ.apply marked name.lexeme }

/-- A use of a superclass among marked scopes. -/
def Superclass.rename (marks : List Bool) (parent : Superclass) : Superclass :=
  ⟨parent.id, parent.name.rename ρ (ρ.reaches marks parent.id)⟩

section

variable (marks : List Bool)

mutual

/-- An expression among marked scopes. -/
def Expr.rename : Expr → Expr
  | .literal value => .literal value
  | .grouping inner => .grouping inner.rename
  | .unary op right line => .unary op right.rename line
  | .binary left op right line => .binary left.rename op right.rename line
  | .logical left op right => .logical left.rename op right.rename
  | .variable id name => .variable id (name.rename ρ (ρ.reaches marks id))
  | .assign id name value => .assign id (name.rename ρ (ρ.reaches marks id)) value.rename
  | .call callee arguments line => .call callee.rename (Expr.renameAll arguments) line
  | .get object name => .get object.rename name
  | .set object name value => .set object.rename name value.rename
  | .this id line => .this id line
  | .super id line method => .super id line method

def Expr.renameAll : List Expr → List Expr
  | [] => []
  | e :: es => e.rename :: Expr.renameAll es

end

def Expr.rename? (e : Option Expr) : Option Expr :=
  e.map (Expr.rename ρ marks)

end

/-- The marks around the scope of the methods of a class: the scopes with `this` and with `super`
declare no variable. -/
def classMarks {α : Type} (parent : Option α) (marks : List Bool) : List Bool :=
  match parent with
  | some _ => false :: marks
  | none => marks

/-! ## Statements -/

mutual

/-- A statement among marked scopes and what becomes of it, whichever scopes in it are marked. -/
inductive Stmt.Renamed : List Bool → Stmt → Stmt → Prop
  | expression {marks : List Bool} {e : Expr} (fresh : ∀ a ∈ e.accesses, a.name ≠ ρ.new) :
    Stmt.Renamed marks (.expression e) (.expression (e.rename ρ marks))
  | print {marks : List Bool} {e : Expr} (fresh : ∀ a ∈ e.accesses, a.name ≠ ρ.new) :
    Stmt.Renamed marks (.print e) (.print (e.rename ρ marks))
  | var {marks : List Bool} {name : Name} {initializer : Option Expr}
    (other : name.lexeme ≠ ρ.new) (fresh : ∀ a ∈ Expr.accessesOf? initializer, a.name ≠ ρ.new) :
    Stmt.Renamed marks (.var name initializer)
      (.var (name.rename ρ (marks.headD false)) (Expr.rename? ρ marks initializer))
  | block {marks : List Bool} {body body' : List Stmt} (marked : Bool)
    (inside : Stmt.AllRenamed (marked :: marks) body body') :
    Stmt.Renamed marks (.block body) (.block body')
  | if {marks : List Bool} {condition : Expr} {thenBranch thenBranch' : Stmt}
    {elseBranch elseBranch' : Option Stmt} (fresh : ∀ a ∈ condition.accesses, a.name ≠ ρ.new)
    (first : Stmt.Renamed marks thenBranch thenBranch')
    (second : Stmt.Renamed? marks elseBranch elseBranch') :
    Stmt.Renamed marks (.if condition thenBranch elseBranch)
      (.if (condition.rename ρ marks) thenBranch' elseBranch')
  | while {marks : List Bool} {condition : Expr} {body body' : Stmt}
    (fresh : ∀ a ∈ condition.accesses, a.name ≠ ρ.new) (inside : Stmt.Renamed marks body body') :
    Stmt.Renamed marks (.while condition body) (.while (condition.rename ρ marks) body')
  | function {marks : List Bool} {f f' : FunctionDecl} (other : f.name.lexeme ≠ ρ.new)
    (kept : ρ.apply (marks.headD false) f.name.lexeme = f.name.lexeme)
    (code : FunctionDecl.Renamed marks f f') : Stmt.Renamed marks (.function f) (.function f')
  | return {marks : List Bool} {line : Nat} {value : Option Expr}
    (fresh : ∀ a ∈ Expr.accessesOf? value, a.name ≠ ρ.new) :
    Stmt.Renamed marks (.return line value) (.return line (Expr.rename? ρ marks value))
  | class {marks : List Bool} {name : Name} {parent : Option Superclass}
    {methods methods' : List FunctionDecl} (other : name.lexeme ≠ ρ.new)
    (kept : ρ.apply (marks.headD false) name.lexeme = name.lexeme)
    (fresh : ∀ a ∈ Superclass.accessesOf? parent, a.name ≠ ρ.new)
    (code : FunctionDecl.AllRenamed (false :: classMarks parent marks) methods methods') :
    Stmt.Renamed marks (.class name parent methods)
      (.class name (parent.map (Superclass.rename ρ marks)) methods')

inductive Stmt.AllRenamed : List Bool → List Stmt → List Stmt → Prop
  | nil {marks : List Bool} : Stmt.AllRenamed marks [] []
  | cons {marks : List Bool} {s s' : Stmt} {ss ss' : List Stmt}
    (first : Stmt.Renamed marks s s') (rest : Stmt.AllRenamed marks ss ss') :
    Stmt.AllRenamed marks (s :: ss) (s' :: ss')

inductive Stmt.Renamed? : List Bool → Option Stmt → Option Stmt → Prop
  | none {marks : List Bool} : Stmt.Renamed? marks none none
  | some {marks : List Bool} {s s' : Stmt} (branch : Stmt.Renamed marks s s') :
    Stmt.Renamed? marks (some s) (some s')

/-- A function among marked scopes and what becomes of it. Its parameters and its body share the
scope that it opens. -/
inductive FunctionDecl.Renamed : List Bool → FunctionDecl → FunctionDecl → Prop
  | mk {marks : List Bool} {name : Name} {params : List Name} {body body' : List Stmt}
    (marked : Bool) (others : ∀ param ∈ params, param.lexeme ≠ ρ.new)
    (inside : Stmt.AllRenamed (marked :: marks) body body') :
    FunctionDecl.Renamed marks (.mk name params body)
      (.mk name (params.map (Name.rename ρ marked)) body')

inductive FunctionDecl.AllRenamed : List Bool → List FunctionDecl → List FunctionDecl → Prop
  | nil {marks : List Bool} : FunctionDecl.AllRenamed marks [] []
  | cons {marks : List Bool} {f f' : FunctionDecl} {fs fs' : List FunctionDecl}
    (first : FunctionDecl.Renamed marks f f') (rest : FunctionDecl.AllRenamed marks fs fs') :
    FunctionDecl.AllRenamed marks (f :: fs) (f' :: fs')

end

section

variable {ρ} {marks : List Bool}

/-! ## What is read off a tree -/

@[simp]
theorem Name.lexeme_rename (marked : Bool) (name : Name) :
    (name.rename ρ marked).lexeme = ρ.apply marked name.lexeme := rfl

theorem FunctionDecl.Renamed.name {f f' : FunctionDecl} (code : f.Renamed ρ marks f') :
    f'.name = f.name := by
  cases code
  rfl

theorem FunctionDecl.Renamed.arity {f f' : FunctionDecl} (code : f.Renamed ρ marks f') :
    f'.params.length = f.params.length := by
  cases code
  exact List.length_map _

/-- The line of an expression stays. -/
@[simp]
theorem Expr.line_rename (e : Expr) : (e.rename ρ marks).line = e.line := by
  match e with
  | .grouping inner => exact Expr.line_rename inner
  | .logical left _ _ => exact Expr.line_rename left
  | .literal _ | .unary _ _ _ | .binary _ _ _ _ | .call _ _ _ | .this _ _ | .super _ _ _
  | .variable _ _ | .assign _ _ _ | .get _ _ | .set _ _ _ => rfl

end

end Lox
