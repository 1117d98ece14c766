import Lox.Proofs.Origin.Sessions

/-!
# Only declarations extend frames

Of all that a program does, only the declaration of a variable, a function or a class adds a name to
a frame, and it does so in the frame that is current (`tracing`). Of a list of statements only those
that are executed declare anything, so that a frame in which a list is executed takes names of these
alone.
-/

set_option autoImplicit false

namespace Lox

open Eval

/-- The statements of a list that are executed: all up to the first that returns or fails. -/
def executed (bound : Nat) (ss : List Stmt) (m : Machine) : List Stmt :=
  match bound, ss with
  | 0, _ | _ + 1, [] => []
  | n + 1, s :: ss =>
    match execute n s m with
    | .ok .normal m' => s :: executed n ss m'
    | .ok (.returned _) _ | .error _ _ => [s]

/-- The names that statements declare in the frame in which they are executed. -/
def Declared (ss : List Stmt) (name : String) : Prop :=
  ∃ s ∈ ss, s.declares name

variable {o : Origin}

/-- A list of statements declares what those declare that are executed. -/
theorem executeAll_leads (bound : Nat) {ss : List Stmt} (from_ : ∀ s ∈ ss, s.From o) {m : Machine}
    (code : m.heap.From o) :
    m.Leads o none (Declared (executed bound ss m)) ((executeAll bound ss).leaves m) := by
  induction bound generalizing ss m with
  | zero => exact .refl code
  | succ n ih =>
    cases ss with
    | nil => exact .refl code
    | cons s ss =>
      obtain ⟨here, rest⟩ := List.forall_mem_cons.mp from_
      have first := ((tracing o n).execute s here).leads code
      have own (others : List Stmt) (name : String) (declares : s.declares name) :
          Declared (s :: others) name := ⟨s, List.mem_cons_self, declares⟩
      unfold Eval.leaves at first
      unfold executed executeAll
      dsimp only
      rw [leaves_bind]
      cases ends : execute n s m with
      | error stop m' =>
        rw [ends] at first
        exact first.weaken (own [])
      | ok completion m' =>
        rw [ends] at first
        cases completion with
        | returned value => exact first.weaken (own [])
        | normal =>
          -- The others go on in the same frame, so that what both declare adds up.
          refine (first.weaken (own _)).trans ((ih rest first.code).weaken ?_)
          rintro name ⟨s', member, declares⟩
          exact ⟨s', List.mem_cons_of_mem _ member, declares⟩

/-- Statements that are executed in a frame declare there. -/
theorem executeBlock_leads (bound : Nat) {body : List Stmt} (from_ : ∀ s ∈ body, s.From o)
    (frame : Address) {m : Machine} (code : m.heap.From o) :
    m.Leads o (some frame) (Declared (executed bound body { m with current := frame }))
      ((executeBlock bound body frame).leaves m) := by
  have inside := executeAll_leads bound from_ (m := { m with current := frame }) code
  unfold executeBlock
  rw [leaves_of_onMachine (inFrame_eq frame (executeAll bound body) m)]
  exact ⟨inside.code, rfl, inside.declares⟩

/-- **Only declarations extend frames.** Whatever code of a program runs on a machine whose code is
that of programs, and however it ends: no frame loses a binding, what frames bind to `this` and
`super` stays, and evaluating an expression adds no name to any frame; executing a statement adds at
most its own name, if it declares one, to the frame that is current, and none to any other;
statements executed in a frame add to it at most the names that those of them declare that are
executed; and executing a block leaves the names of all frames as they were. Such code is all that
the parser gives, and such are the machine and the program whenever a session is given an input. -/
theorem only_declarations_extend_frames :
    (∀ (o : Origin) (m : Machine), m.heap.From o →
      (∀ bound (e : Expr), e.From o → m.Leads o none nothing ((evaluate bound e).leaves m)) ∧
      (∀ bound (s : Stmt), s.From o → m.Leads o none s.declares ((execute bound s).leaves m)) ∧
      (∀ bound body frame, (∀ s ∈ body, s.From o) →
        m.Leads o (some frame) (Declared (executed bound body { m with current := frame }))
          ((executeBlock bound body frame).leaves m)) ∧
      (∀ bound body, (∀ s ∈ body, s.From o) → ∀ a frame, m.heap.frame? a = some frame → ∀ name,
        ((execute bound (.block body)).leaves m).heap.binds a name = m.heap.binds a name)) ∧
    (∀ (o : Origin) source firstId program, (∀ t ∈ (scan source).1, o.tokens t) → o.bare →
      (Parser.parse (scan source).1 firstId).outcome = .ok program → ∀ s ∈ program, s.From o) ∧
    (∀ policy maxDepth clock inputs input,
      ((Session.fresh policy maxDepth clock).after inputs).machine.heap.From
        ((Session.fresh policy maxDepth clock).origin (inputs ++ [input])) ∧
      ∀ program ∈ ((Session.fresh policy maxDepth clock).after inputs).accepted input,
        ∀ s ∈ program.statements,
          s.From ((Session.fresh policy maxDepth clock).origin (inputs ++ [input]))) := by
  refine ⟨fun o m code => ?_, fun o source firstId program tokens bare read =>
    Parser.from_of_scan tokens read fun _ _ _ _ _ => bare, Session.from_origin⟩
  refine ⟨fun bound e from_ => ((tracing o bound).evaluate e from_).leads code,
    fun bound s from_ => ((tracing o bound).execute s from_).leads code,
    fun bound body frame from_ => executeBlock_leads bound from_ frame code, ?_⟩
  intro bound body from_ a frame found name
  have inside : (Stmt.block body).From o := Stmt.allFrom_iff.mpr from_
  have led := ((tracing o bound).execute (.block body) inside).leads code
  exact (led.declares.weaken fun _ => Stmt.not_declares_of_plain rfl).binds_eq found name

end Lox
