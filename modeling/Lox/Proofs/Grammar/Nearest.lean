import Lox.Proofs.Grammar.Completeness

/-!
# Each `else` at the nearest `if`

Whatever the grammar derives it also derives with each `else` at the nearest `if`. Where an `else`
stands behind a statement that ends in an open `if`, it can be moved into the statement, to the `if`
that is nearest: this takes tokens from one branch to the other but leaves their order. So the
grammar accepts the same tokens whichever way its one ambiguity is decided.
-/

set_option autoImplicit false

namespace Lox.Grammar

variable {α : Type} {b : Nat}

/-- An `else` behind a statement that ends in an open `if` belongs to the nearest one. -/
theorem Statement.attach {isOpen isOpen' : Bool} {us ws : List Token} {n m k : Nat}
    {s elseBranch : Stmt} {w : Token} (it : Statement True isOpen us n s m) (open' : isOpen = true)
    (otherwise : w.kind = .keyword .else) (branch : Statement True isOpen' ws m elseBranch k) :
    ∃ isOpen'' s', Statement True isOpen'' (us ++ w :: ws) n s' k := by
  obtain ⟨b, few⟩ : ∃ b, us.length < b := ⟨_, Nat.lt_succ_self _⟩
  induction b generalizing isOpen us n s with
  | zero => exact absurd few (Nat.not_lt_zero _)
  | succ b ih =>
    cases it with
    | expression | print | block | «return» => cases open'
    | «while» word opening test closing inner =>
      simp only [List.length_cons, List.length_append] at few
      obtain ⟨isOpen'', s', whole⟩ := ih inner open' (by omega)
      simp only [List.cons_append, List.append_assoc]
      exact ⟨isOpen'', _, .while word opening test closing whole⟩
    | «for» word opening first test semicolon step closing inner =>
      simp only [List.length_cons, List.length_append] at few
      obtain ⟨isOpen'', s', whole⟩ := ih inner open' (by omega)
      simp only [List.cons_append, List.append_assoc]
      exact ⟨isOpen'', _, .for word opening first test semicolon step closing whole⟩
    | @«if» inside _ _ _ _ _ _ _ _ _ _ word opening test closing inner =>
      simp only [List.length_cons, List.length_append] at few
      simp only [List.cons_append, List.append_assoc]
      cases inside with
      | false =>
        exact ⟨isOpen', _, .ifElse word opening test closing inner (fun _ => rfl) otherwise branch⟩
      | true =>
        obtain ⟨isOpen'', s', whole⟩ := ih inner rfl (by omega)
        exact ⟨true, _, .if word opening test closing whole⟩
    | ifElse word opening test closing inner closed otherwise' inner' =>
      simp only [List.length_cons, List.length_append] at few
      obtain ⟨isOpen'', s', whole⟩ := ih inner' open' (by omega)
      simp only [List.cons_append, List.append_assoc]
      exact ⟨isOpen'', _, .ifElse word opening test closing inner closed otherwise' whole⟩

/-- Of fewer tokens than `b`, what one rule derives the other derives too, if with another tree. -/
def Covers (b : Nat) (rule rule' : Rule α) : Prop :=
  ∀ us n a m, us.length < b → rule us n a m → ∃ a', rule' us n a' m

theorem Covers.many {item item' : Rule α} (covers : Covers b item item') :
    Covers b (Many item) (Many item') := by
  intro us n as m few it
  induction it with
  | nil => exact ⟨[], .nil⟩
  | cons first rest ih =>
    rw [List.length_append] at few
    obtain ⟨a, first'⟩ := covers _ _ _ _ (by omega) first
    obtain ⟨as, rest'⟩ := ih (by omega)
    exact ⟨a :: as, .cons first' rest'⟩

theorem Covers.function {declaration declaration' : Rule Stmt}
    (covers : Covers b declaration declaration') :
    Covers b (Function declaration) (Function declaration') := by
  rintro _ n _ m few ⟨name, opening, parameters, closing, begins, body, ends⟩
  simp only [List.length_cons, List.length_append] at few
  obtain ⟨body', derived⟩ := covers.many _ _ _ _ (by omega) body
  exact ⟨_, .intro name opening parameters closing begins derived ends⟩

theorem Covers.statement (ofDecl : Covers b (Declaration False) (Declaration True))
    (ofStmt : Covers b (AnyStatement False) (AnyStatement True)) :
    Covers (b + 1) (AnyStatement False) (AnyStatement True) := by
  rintro us n s m few ⟨isOpen, it⟩
  cases it with
  | expression it => exact ⟨s, false, .expression it⟩
  | print word value closing => exact ⟨_, false, .print word value closing⟩
  | «return» word result closing => exact ⟨_, false, .return word result closing⟩
  | «while» word opening test closing inner =>
    simp only [List.length_cons, List.length_append] at few
    obtain ⟨_, isOpen', inner'⟩ := ofStmt _ _ _ _ (by omega) ⟨_, inner⟩
    exact ⟨_, isOpen', .while word opening test closing inner'⟩
  | «for» word opening first test semicolon step closing inner =>
    simp only [List.length_cons, List.length_append] at few
    obtain ⟨_, isOpen', inner'⟩ := ofStmt _ _ _ _ (by omega) ⟨_, inner⟩
    exact ⟨_, isOpen', .for word opening first test semicolon step closing inner'⟩
  | «if» word opening test closing inner =>
    simp only [List.length_cons, List.length_append] at few
    obtain ⟨_, isOpen', inner'⟩ := ofStmt _ _ _ _ (by omega) ⟨_, inner⟩
    exact ⟨_, true, .if word opening test closing inner'⟩
  | ifElse word opening test closing inner _ otherwise branch =>
    simp only [List.length_cons, List.length_append] at few
    obtain ⟨_, isOpen', inner'⟩ := ofStmt _ _ _ _ (by omega) ⟨_, inner⟩
    obtain ⟨_, isOpen'', branch'⟩ := ofStmt _ _ _ _ (by omega) ⟨_, branch⟩
    cases isOpen' with
    | false =>
      exact ⟨_, isOpen'', .ifElse word opening test closing inner' (fun _ => rfl) otherwise branch'⟩
    | true =>
      -- The first branch takes the `else` with it.
      obtain ⟨_, _, whole⟩ := inner'.attach rfl otherwise branch'
      exact ⟨_, true, .if word opening test closing whole⟩
  | block opening inner closing =>
    simp only [List.length_cons, List.length_append] at few
    obtain ⟨_, inner'⟩ := ofDecl.many _ _ _ _ (by omega) inner
    exact ⟨_, false, .block opening inner' closing⟩

theorem Covers.declaration (ofDecl : Covers b (Declaration False) (Declaration True))
    (ofStmt : Covers (b + 1) (AnyStatement False) (AnyStatement True)) :
    Covers (b + 1) (Declaration False) (Declaration True) := by
  intro us n s m few it
  cases it with
  | «class» word name parent opening inner closing =>
    simp only [List.length_cons, List.length_append] at few
    obtain ⟨_, inner'⟩ := ofDecl.function.many _ _ _ _ (by omega) inner
    exact ⟨_, .class word name parent opening inner' closing⟩
  | function word it =>
    rw [List.length_cons] at few
    obtain ⟨_, it'⟩ := ofDecl.function _ _ _ _ (by omega) it
    exact ⟨_, .function word it'⟩
  | var it => exact ⟨s, .var it⟩
  | statement it =>
    obtain ⟨_, _, it'⟩ := ofStmt _ _ _ _ few ⟨_, it⟩
    exact ⟨_, .statement it'⟩

theorem covers_nearest (b : Nat) :
    Covers b (AnyStatement False) (AnyStatement True) ∧
      Covers b (Declaration False) (Declaration True) := by
  induction b with
  | zero =>
    exact ⟨fun _ _ _ _ few => absurd few (Nat.not_lt_zero _),
      fun _ _ _ _ few => absurd few (Nat.not_lt_zero _)⟩
  | succ b ih =>
    have statements := Covers.statement ih.2 ih.1
    exact ⟨statements, Covers.declaration ih.2 statements⟩

/-- **The ambiguity is harmless.** The tokens of a program are also derived with each `else` at the
nearest `if`. -/
theorem Program.nearest {us : List Token} {n m : Nat} {program : List Stmt}
    (it : Program False us n program m) : ∃ program', Program True us n program' m :=
  (covers_nearest (us.length + 1)).2.many us n program m (Nat.lt_succ_self _) it

end Lox.Grammar
