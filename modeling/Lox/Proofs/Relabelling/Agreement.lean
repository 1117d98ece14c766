import Lox.Proofs.Relabelling.Trees

/-!
# Relabellings that agree on a tree

Only the ids of its uses and its lines show in a tree. So two relabellings that give these the same
new ids and lines make the same tree of it, whatever they do elsewhere.
-/

set_option autoImplicit false

namespace Lox

/-- Two relabellings agree on all lines and on the ids of some uses. -/
structure Relabelling.Agree (ρ τ : Relabelling) (accesses : List Access) : Prop where
  line : ∀ l, ρ.line l = τ.line l
  id : ∀ a ∈ accesses, ρ.id a.id = τ.id a.id

section

variable {ρ τ : Relabelling} {as bs : List Access}

namespace Relabelling.Agree

theorem left (agree : ρ.Agree τ (as ++ bs)) : ρ.Agree τ as :=
  ⟨agree.line, fun a member => agree.id a (List.mem_append_left bs member)⟩

theorem right (agree : ρ.Agree τ (as ++ bs)) : ρ.Agree τ bs :=
  ⟨agree.line, fun a member => agree.id a (List.mem_append_right as member)⟩

theorem head {a : Access} (agree : ρ.Agree τ (a :: as)) : ρ.id a.id = τ.id a.id :=
  agree.id a List.mem_cons_self

theorem name (agree : ρ.Agree τ as) (name : Name) : name.relabel ρ = name.relabel τ :=
  congrArg (Name.mk name.lexeme) (agree.line name.line)

theorem names (agree : ρ.Agree τ as) (names : List Name) :
    names.map (Name.relabel ρ) = names.map (Name.relabel τ) :=
  List.map_congr_left fun name _ => agree.name name

theorem superclass {parent : Option Superclass}
    (agree : ρ.Agree τ (Superclass.accessesOf? parent)) :
    parent.map (Superclass.relabel ρ) = parent.map (Superclass.relabel τ) := by
  cases parent with
  | none => rfl
  | some above =>
    exact congrArg some (congrArg₂ Superclass.mk agree.head (agree.name above.name))

end Relabelling.Agree

mutual

theorem Expr.relabel_congr (e : Expr) (agree : ρ.Agree τ e.accesses) :
    e.relabel ρ = e.relabel τ := by
  match e with
  | .literal _ => rfl
  | .grouping inner => exact congrArg Expr.grouping (inner.relabel_congr agree)
  | .unary op right line =>
    exact congrArg₂ (Expr.unary op · ·) (right.relabel_congr agree) (agree.line line)
  | .binary left op right line =>
    rw [Expr.relabel, Expr.relabel, left.relabel_congr agree.left, right.relabel_congr agree.right,
      agree.line]
  | .logical left op right =>
    exact congrArg₂ (Expr.logical · op ·) (left.relabel_congr agree.left)
      (right.relabel_congr agree.right)
  | .variable id name => exact congrArg₂ Expr.variable agree.head (agree.name name)
  | .assign id name value =>
    have own : ρ.id id = τ.id id := agree.right.head
    rw [Expr.relabel, Expr.relabel, value.relabel_congr agree.left, own, agree.name]
  | .call callee arguments line =>
    rw [Expr.relabel, Expr.relabel, callee.relabel_congr agree.left,
      Expr.relabelAll_congr arguments agree.right, agree.line]
  | .get object name =>
    exact congrArg₂ Expr.get (object.relabel_congr agree) (agree.name name)
  | .set object name value =>
    rw [Expr.relabel, Expr.relabel, object.relabel_congr agree.right,
      value.relabel_congr agree.left, agree.name]
  | .this id line => exact congrArg₂ Expr.this agree.head (agree.line line)
  | .super id line method =>
    have own : ρ.id id = τ.id id := agree.head
    rw [Expr.relabel, Expr.relabel, own, agree.line, agree.name]

theorem Expr.relabelAll_congr (es : List Expr) (agree : ρ.Agree τ (Expr.accessesOfAll es)) :
    Expr.relabelAll ρ es = Expr.relabelAll τ es := by
  match es with
  | [] => rfl
  | e :: es =>
    exact congrArg₂ List.cons (e.relabel_congr agree.left) (Expr.relabelAll_congr es agree.right)

end

theorem Expr.relabel?_congr (e : Option Expr) (agree : ρ.Agree τ (Expr.accessesOf? e)) :
    Expr.relabel? ρ e = Expr.relabel? τ e := by
  cases e with
  | none => rfl
  | some e => exact congrArg some (e.relabel_congr agree)

mutual

/-- **Relabellings that agree on the uses of a statement** make the same statement of it. -/
theorem Stmt.relabel_congr (s : Stmt) (agree : ρ.Agree τ s.accesses) :
    s.relabel ρ = s.relabel τ := by
  match s with
  | .expression e => exact congrArg Stmt.expression (e.relabel_congr agree)
  | .print e => exact congrArg Stmt.print (e.relabel_congr agree)
  | .var name initializer =>
    exact congrArg₂ Stmt.var (agree.name name) (Expr.relabel?_congr initializer agree)
  | .block body => exact congrArg Stmt.block (Stmt.relabelAll_congr body agree)
  | .if condition thenBranch elseBranch =>
    rw [Stmt.relabel, Stmt.relabel, condition.relabel_congr agree.left.left,
      thenBranch.relabel_congr agree.left.right, Stmt.relabel?_congr elseBranch agree.right]
  | .while condition body =>
    exact congrArg₂ Stmt.while (condition.relabel_congr agree.left) (body.relabel_congr agree.right)
  | .function declaration => exact congrArg Stmt.function (declaration.relabel_congr agree)
  | .return line value =>
    exact congrArg₂ Stmt.return (agree.line line) (Expr.relabel?_congr value agree)
  | .class name parent methods =>
    rw [Stmt.relabel, Stmt.relabel, agree.name, agree.left.superclass,
      FunctionDecl.relabelAll_congr methods agree.right]

theorem Stmt.relabelAll_congr (ss : List Stmt) (agree : ρ.Agree τ (Stmt.accessesOfAll ss)) :
    Stmt.relabelAll ρ ss = Stmt.relabelAll τ ss := by
  match ss with
  | [] => rfl
  | s :: ss =>
    exact congrArg₂ List.cons (s.relabel_congr agree.left) (Stmt.relabelAll_congr ss agree.right)

theorem Stmt.relabel?_congr (s : Option Stmt) (agree : ρ.Agree τ (Stmt.accessesOf? s)) :
    Stmt.relabel? ρ s = Stmt.relabel? τ s := by
  match s with
  | none => rfl
  | some s => exact congrArg some (s.relabel_congr agree)

theorem FunctionDecl.relabel_congr (f : FunctionDecl) (agree : ρ.Agree τ f.accesses) :
    f.relabel ρ = f.relabel τ := by
  match f with
  | .mk name params body =>
    have inside : ρ.Agree τ (Stmt.accessesOfAll body) := agree
    rw [FunctionDecl.relabel, FunctionDecl.relabel, agree.name, agree.names,
      Stmt.relabelAll_congr body inside]

theorem FunctionDecl.relabelAll_congr (fs : List FunctionDecl)
    (agree : ρ.Agree τ (FunctionDecl.accessesOfAll fs)) :
    FunctionDecl.relabelAll ρ fs = FunctionDecl.relabelAll τ fs := by
  match fs with
  | [] => rfl
  | f :: fs =>
    exact congrArg₂ List.cons (f.relabel_congr agree.left)
      (FunctionDecl.relabelAll_congr fs agree.right)

end

end

end Lox
