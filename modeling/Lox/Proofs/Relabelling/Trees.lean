import Mathlib.Logic.Basic
import Lox.Token
import Lox.Proofs.Syntax

/-!
# Relabelled trees

The ids and lines in a tree say where it comes from, not what it does. A relabelling gives new ones:
`relabel` puts them into tokens, names, expressions, statements and functions. The line 0 stands for
no line, so it is kept, and different ids stay different.
-/

set_option autoImplicit false

namespace Lox

/-- New ids and lines for old ones. -/
structure Relabelling where
  id : NodeId → NodeId
  line : Nat → Nat
  injective : ∀ a b, id a = id b → a = b
  line_zero : line 0 = 0

namespace Relabelling

/-- Leaves the ids and takes all lines away. -/
def lineless : Relabelling where
  id a := a
  line _ := 0
  injective _ _ same := same
  line_zero := rfl

/-- Gives new ids and keeps all lines. -/
def ofIds (id : NodeId → NodeId) (injective : ∀ a b, id a = id b → a = b) : Relabelling where
  id := id
  line l := l
  injective := injective
  line_zero := rfl

/-- One relabelling after another. -/
def trans (ρ τ : Relabelling) : Relabelling where
  id a := τ.id (ρ.id a)
  line l := τ.line (ρ.line l)
  injective _ _ same := ρ.injective _ _ (τ.injective _ _ same)
  line_zero := by rw [ρ.line_zero, τ.line_zero]

end Relabelling

variable (ρ : Relabelling)

def Access.relabel : Access → Access
  | .read id name => .read (ρ.id id) { name with line := ρ.line name.line }
  | .assign id name => .assign (ρ.id id) { name with line := ρ.line name.line }
  | .this id line => .this (ρ.id id) (ρ.line line)
  | .super id line => .super (ρ.id id) (ρ.line line)

def Token.relabel (t : Token) : Token :=
  { t with line := ρ.line t.line }

def Name.relabel (name : Name) : Name :=
  { name with line := ρ.line name.line }

def Superclass.relabel (parent : Superclass) : Superclass :=
  ⟨ρ.id parent.id, parent.name.relabel ρ⟩

mutual

def Expr.relabel : Expr → Expr
  | .literal value => .literal value
  | .grouping inner => .grouping inner.relabel
  | .unary op right line => .unary op right.relabel (ρ.line line)
  | .binary left op right line => .binary left.relabel op right.relabel (ρ.line line)
  | .logical left op right => .logical left.relabel op right.relabel
  | .variable id name => .variable (ρ.id id) (name.relabel ρ)
  | .assign id name value => .assign (ρ.id id) (name.relabel ρ) value.relabel
  | .call callee arguments line =>
    .call callee.relabel (Expr.relabelAll arguments) (ρ.line line)
  | .get object name => .get object.relabel (name.relabel ρ)
  | .set object name value => .set object.relabel (name.relabel ρ) value.relabel
  | .this id line => .this (ρ.id id) (ρ.line line)
  | .super id line method => .super (ρ.id id) (ρ.line line) (method.relabel ρ)

def Expr.relabelAll : List Expr → List Expr
  | [] => []
  | e :: es => e.relabel :: Expr.relabelAll es

end

def Expr.relabel? (e : Option Expr) : Option Expr :=
  e.map (Expr.relabel ρ)

mutual

def Stmt.relabel : Stmt → Stmt
  | .expression e => .expression (e.relabel ρ)
  | .print e => .print (e.relabel ρ)
  | .var name initializer => .var (name.relabel ρ) (Expr.relabel? ρ initializer)
  | .block body => .block (Stmt.relabelAll body)
  | .if condition thenBranch elseBranch =>
    .if (condition.relabel ρ) thenBranch.relabel (Stmt.relabel? elseBranch)
  | .while condition body => .while (condition.relabel ρ) body.relabel
  | .function declaration => .function declaration.relabel
  | .return line value => .return (ρ.line line) (Expr.relabel? ρ value)
  | .class name parent methods =>
    .class (name.relabel ρ) (parent.map (Superclass.relabel ρ)) (FunctionDecl.relabelAll methods)

def Stmt.relabelAll : List Stmt → List Stmt
  | [] => []
  | s :: ss => s.relabel :: Stmt.relabelAll ss

def Stmt.relabel? : Option Stmt → Option Stmt
  | none => none
  | some s => some s.relabel

def FunctionDecl.relabel : FunctionDecl → FunctionDecl
  | .mk name params body =>
    .mk (name.relabel ρ) (params.map (Name.relabel ρ)) (Stmt.relabelAll body)

def FunctionDecl.relabelAll : List FunctionDecl → List FunctionDecl
  | [] => []
  | f :: fs => f.relabel :: FunctionDecl.relabelAll fs

end

section

variable {ρ}

/-! ## Lists of trees -/

@[simp]
theorem Expr.relabelAll_eq_map (es : List Expr) :
    Expr.relabelAll ρ es = es.map (Expr.relabel ρ) := by
  induction es with
  | nil => rfl
  | cons e es ih => rw [Expr.relabelAll, ih, List.map_cons]

@[simp]
theorem Stmt.relabelAll_eq_map (ss : List Stmt) :
    Stmt.relabelAll ρ ss = ss.map (Stmt.relabel ρ) := by
  induction ss with
  | nil => rfl
  | cons s ss ih => rw [Stmt.relabelAll, ih, List.map_cons]

@[simp]
theorem FunctionDecl.relabelAll_eq_map (fs : List FunctionDecl) :
    FunctionDecl.relabelAll ρ fs = fs.map (FunctionDecl.relabel ρ) := by
  induction fs with
  | nil => rfl
  | cons f fs ih => rw [FunctionDecl.relabelAll, ih, List.map_cons]

/-! ## What is read off a tree -/

@[simp]
theorem Name.lexeme_relabel (name : Name) : (name.relabel ρ).lexeme = name.lexeme := rfl

@[simp]
theorem FunctionDecl.name_relabel (f : FunctionDecl) :
    (f.relabel ρ).name = f.name.relabel ρ := by
  cases f
  rfl

@[simp]
theorem FunctionDecl.params_relabel (f : FunctionDecl) :
    (f.relabel ρ).params = f.params.map (Name.relabel ρ) := by
  cases f
  rfl

@[simp]
theorem FunctionDecl.body_relabel (f : FunctionDecl) :
    (f.relabel ρ).body = f.body.map (Stmt.relabel ρ) := by
  cases f
  rw [FunctionDecl.relabel, Stmt.relabelAll_eq_map]
  rfl

/-- The line of an expression is relabelled with it; a literal has none. -/
@[simp]
theorem Expr.line_relabel (e : Expr) : (e.relabel ρ).line = ρ.line e.line := by
  match e with
  | .literal _ => exact ρ.line_zero.symm
  | .grouping inner => exact Expr.line_relabel inner
  | .logical left _ _ => exact Expr.line_relabel left
  | .unary _ _ _ | .binary _ _ _ _ | .call _ _ _ | .this _ _ | .super _ _ _ | .variable _ _
  | .assign _ _ _ | .get _ _ | .set _ _ _ => rfl

/-! ## The uses in a relabelled tree -/

theorem Access.id_relabel (a : Access) : (a.relabel ρ).id = ρ.id a.id := by
  cases a <;> rfl

mutual

theorem Expr.accesses_relabel (e : Expr) :
    (e.relabel ρ).accesses = e.accesses.map (Access.relabel ρ) := by
  match e with
  | .literal _ | .variable _ _ | .this _ _ | .super _ _ _ => rfl
  | .grouping inner => exact inner.accesses_relabel
  | .unary _ right _ => exact right.accesses_relabel
  | .get object _ => exact object.accesses_relabel
  | .binary left _ right _ | .logical left _ right =>
    rw [Expr.relabel, Expr.accesses, Expr.accesses, left.accesses_relabel, right.accesses_relabel,
      List.map_append]
  | .assign id name value =>
    rw [Expr.relabel, Expr.accesses, Expr.accesses, value.accesses_relabel, List.map_append]
    rfl
  | .set object _ value =>
    rw [Expr.relabel, Expr.accesses, Expr.accesses, value.accesses_relabel, object.accesses_relabel,
      List.map_append]
  | .call callee arguments _ =>
    rw [Expr.relabel, Expr.accesses, Expr.accesses, callee.accesses_relabel,
      Expr.accessesOfAll_relabelAll arguments, List.map_append]

theorem Expr.accessesOfAll_relabelAll (es : List Expr) :
    Expr.accessesOfAll (Expr.relabelAll ρ es) = (Expr.accessesOfAll es).map (Access.relabel ρ) := by
  match es with
  | [] => rfl
  | e :: es =>
    rw [Expr.relabelAll, Expr.accessesOfAll, Expr.accessesOfAll, e.accesses_relabel,
      Expr.accessesOfAll_relabelAll es, List.map_append]

end

theorem Expr.accessesOf?_relabel? (e : Option Expr) :
    Expr.accessesOf? (Expr.relabel? ρ e) = (Expr.accessesOf? e).map (Access.relabel ρ) := by
  cases e with
  | none => rfl
  | some e => exact e.accesses_relabel

mutual

theorem Stmt.accesses_relabel (s : Stmt) :
    (s.relabel ρ).accesses = s.accesses.map (Access.relabel ρ) := by
  match s with
  | .expression e | .print e => exact e.accesses_relabel
  | .var _ initializer => exact Expr.accessesOf?_relabel? initializer
  | .return _ value => exact Expr.accessesOf?_relabel? value
  | .block body => exact Stmt.accessesOfAll_relabelAll body
  | .if condition thenBranch elseBranch =>
    rw [Stmt.relabel, Stmt.accesses, Stmt.accesses, condition.accesses_relabel,
      thenBranch.accesses_relabel, Stmt.accessesOf?_relabel? elseBranch, List.map_append,
      List.map_append]
  | .while condition body =>
    rw [Stmt.relabel, Stmt.accesses, Stmt.accesses, condition.accesses_relabel,
      body.accesses_relabel, List.map_append]
  | .function declaration => exact declaration.accesses_relabel
  | .class _ parent methods =>
    have above : Superclass.accessesOf? (parent.map (Superclass.relabel ρ))
        = (Superclass.accessesOf? parent).map (Access.relabel ρ) := by
      cases parent <;> rfl
    rw [Stmt.relabel, Stmt.accesses, Stmt.accesses, above,
      FunctionDecl.accessesOfAll_relabelAll methods, List.map_append]

theorem Stmt.accessesOfAll_relabelAll (ss : List Stmt) :
    Stmt.accessesOfAll (Stmt.relabelAll ρ ss) = (Stmt.accessesOfAll ss).map (Access.relabel ρ) := by
  match ss with
  | [] => rfl
  | s :: ss =>
    rw [Stmt.relabelAll, Stmt.accessesOfAll, Stmt.accessesOfAll, s.accesses_relabel,
      Stmt.accessesOfAll_relabelAll ss, List.map_append]

theorem Stmt.accessesOf?_relabel? (s : Option Stmt) :
    Stmt.accessesOf? (Stmt.relabel? ρ s) = (Stmt.accessesOf? s).map (Access.relabel ρ) := by
  match s with
  | none => rfl
  | some s => exact s.accesses_relabel

theorem FunctionDecl.accesses_relabel (f : FunctionDecl) :
    (f.relabel ρ).accesses = f.accesses.map (Access.relabel ρ) := by
  match f with
  | .mk _ _ body => exact Stmt.accessesOfAll_relabelAll body

theorem FunctionDecl.accessesOfAll_relabelAll (fs : List FunctionDecl) :
    FunctionDecl.accessesOfAll (FunctionDecl.relabelAll ρ fs)
      = (FunctionDecl.accessesOfAll fs).map (Access.relabel ρ) := by
  match fs with
  | [] => rfl
  | f :: fs =>
    rw [FunctionDecl.relabelAll, FunctionDecl.accessesOfAll, FunctionDecl.accessesOfAll,
      f.accesses_relabel, FunctionDecl.accessesOfAll_relabelAll fs, List.map_append]

end

/-! ## Trees that are relabelled twice -/

variable {τ : Relabelling}

mutual

theorem Expr.relabel_relabel (e : Expr) :
    (e.relabel ρ).relabel τ = e.relabel (ρ.trans τ) := by
  match e with
  | .literal _ | .variable _ _ | .this _ _ | .super _ _ _ => rfl
  | .grouping inner => exact congrArg Expr.grouping inner.relabel_relabel
  | .unary op right _ => exact congrArg (Expr.unary op · _) right.relabel_relabel
  | .binary left op right _ =>
    exact congrArg₂ (Expr.binary · op · _) left.relabel_relabel right.relabel_relabel
  | .logical left op right =>
    exact congrArg₂ (Expr.logical · op ·) left.relabel_relabel right.relabel_relabel
  | .assign _ _ value => exact congrArg (Expr.assign _ _ ·) value.relabel_relabel
  | .get object _ => exact congrArg (Expr.get · _) object.relabel_relabel
  | .set object _ value =>
    exact congrArg₂ (Expr.set · _ ·) object.relabel_relabel value.relabel_relabel
  | .call callee arguments _ =>
    exact congrArg₂ (Expr.call · · _) callee.relabel_relabel (Expr.relabelAll_relabelAll arguments)

theorem Expr.relabelAll_relabelAll (es : List Expr) :
    Expr.relabelAll τ (Expr.relabelAll ρ es) = Expr.relabelAll (ρ.trans τ) es := by
  match es with
  | [] => rfl
  | e :: es => exact congrArg₂ List.cons e.relabel_relabel (Expr.relabelAll_relabelAll es)

end

theorem Expr.relabel?_relabel? (e : Option Expr) :
    Expr.relabel? τ (Expr.relabel? ρ e) = Expr.relabel? (ρ.trans τ) e := by
  cases e with
  | none => rfl
  | some e => exact congrArg some e.relabel_relabel

mutual

theorem Stmt.relabel_relabel (s : Stmt) :
    (s.relabel ρ).relabel τ = s.relabel (ρ.trans τ) := by
  match s with
  | .expression e => exact congrArg Stmt.expression e.relabel_relabel
  | .print e => exact congrArg Stmt.print e.relabel_relabel
  | .var _ initializer => exact congrArg (Stmt.var _ ·) (Expr.relabel?_relabel? initializer)
  | .return _ value => exact congrArg (Stmt.return _ ·) (Expr.relabel?_relabel? value)
  | .block body => exact congrArg Stmt.block (Stmt.relabelAll_relabelAll body)
  | .if condition thenBranch elseBranch =>
    have branches := congrArg₂ (Stmt.if (condition.relabel (ρ.trans τ)) · ·)
      thenBranch.relabel_relabel (Stmt.relabel?_relabel? elseBranch)
    exact (congrArg (Stmt.if · _ _) condition.relabel_relabel).trans branches
  | .while condition body =>
    exact congrArg₂ Stmt.while condition.relabel_relabel body.relabel_relabel
  | .function declaration => exact congrArg Stmt.function declaration.relabel_relabel
  | .class _ parent methods =>
    have above : (parent.map (Superclass.relabel ρ)).map (Superclass.relabel τ)
        = parent.map (Superclass.relabel (ρ.trans τ)) := by
      cases parent <;> rfl
    exact congrArg₂ (Stmt.class _ · ·) above (FunctionDecl.relabelAll_relabelAll methods)

theorem Stmt.relabelAll_relabelAll (ss : List Stmt) :
    Stmt.relabelAll τ (Stmt.relabelAll ρ ss) = Stmt.relabelAll (ρ.trans τ) ss := by
  match ss with
  | [] => rfl
  | s :: ss => exact congrArg₂ List.cons s.relabel_relabel (Stmt.relabelAll_relabelAll ss)

theorem Stmt.relabel?_relabel? (s : Option Stmt) :
    Stmt.relabel? τ (Stmt.relabel? ρ s) = Stmt.relabel? (ρ.trans τ) s := by
  match s with
  | none => rfl
  | some s => exact congrArg some s.relabel_relabel

theorem FunctionDecl.relabel_relabel (f : FunctionDecl) :
    (f.relabel ρ).relabel τ = f.relabel (ρ.trans τ) := by
  match f with
  | .mk name params body =>
    have renamed : (params.map (Name.relabel ρ)).map (Name.relabel τ)
        = params.map (Name.relabel (ρ.trans τ)) := List.map_map
    exact congrArg₂ (FunctionDecl.mk _ · ·) renamed (Stmt.relabelAll_relabelAll body)

theorem FunctionDecl.relabelAll_relabelAll (fs : List FunctionDecl) :
    FunctionDecl.relabelAll τ (FunctionDecl.relabelAll ρ fs)
      = FunctionDecl.relabelAll (ρ.trans τ) fs := by
  match fs with
  | [] => rfl
  | f :: fs => exact congrArg₂ List.cons f.relabel_relabel (FunctionDecl.relabelAll_relabelAll fs)

end

end

end Lox
