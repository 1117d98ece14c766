import Lox.Proofs.Operations

/-!
# Runs that tell what they do

A computation that tells of itself gives a list besides its ending: what it told, the earliest
first. Telling touches no machine, so without the list it is a computation on the machine again
(`Told.plain`), and each way to combine computations is there the way of the machine. A list can be
heard in part. What is heard of a sequence is what is heard of its first part, and behind it what is
heard of the rest, where there is a rest (`Told.heard_bind`).
-/

set_option autoImplicit false

namespace Lox

/-- Computes on a machine, and tells what is done, the earliest first. -/
def Told (ε α : Type) : Type :=
  Machine → List ε × EStateM.Result Stop Machine α

namespace Told

variable {α β δ ε : Type}

instance : Monad (Told ε) where
  pure a := fun m => ([], .ok a m)
  bind x f := fun m =>
    match x m with
    | (told, .ok a m') =>
      let (more, ending) := f a m'
      (told ++ more, ending)
    | (told, .error stop m') => (told, .error stop m')

/-- A computation that tells nothing. -/
def lift (x : Eval α) : Told ε α := fun m => ([], x m)

/-- Tells one thing. -/
def note (tell : Machine → ε) : Told ε Unit := fun m => ([tell m], .ok () m)

/-- Tells of a computation that gives a value, with the machine from before it. -/
def telling (x : Eval α) (tell : α → Machine → ε) : Told ε α := fun m =>
  match x m with
  | .ok a m' => ([tell a m], .ok a m')
  | .error stop m' => ([], .error stop m')

/-- Tells of the beginning of a computation and of its end, with its value if there is one. -/
def enclosed (before : Machine → ε) (after : Option α → Machine → ε) (body : Told ε α) :
    Told ε α := fun m =>
  match body m with
  | (told, .ok a m') => (before m :: (told ++ [after (some a) m']), .ok a m')
  | (told, .error stop m') => (before m :: (told ++ [after none m']), .error stop m')

/-- Runs a computation in another frame. -/
def inFrame (frame : Address) (body : Told ε α) : Told ε α := fun m =>
  let (told, ending) := body { m with current := frame }
  (told, Eval.onMachine (fun m' => { m' with current := m.current }) ending)

/-- Runs a computation one level deeper. -/
def deeper (body : Told ε α) : Told ε α := fun m =>
  let (told, ending) := body { m with depth := m.depth + 1 }
  (told, Eval.onMachine (fun m' => { m' with depth := m.depth }) ending)

/-- Runs a computation if the limit allows one more level. -/
def guarded (line : Nat) (body : Told ε α) : Told ε α := fun m =>
  if m.maxDepth ≤ m.depth then ([], Eval.fail .stackOverflow line m) else body m

/-- Without what it tells, a computation is one on the machine. -/
def plain (x : Told ε α) : Eval α := fun m => (x m).2

/-- What a computation tells. -/
def told (x : Told ε α) (m : Machine) : List ε := (x m).1

/-- What is heard of it. -/
def heard (hear : ε → Option δ) (x : Told ε α) (m : Machine) : List δ :=
  (x.told m).filterMap hear

/-! ## Telling changes nothing -/

@[simp]
theorem plain_pure (a : α) : plain (pure a : Told ε α) = pure a := rfl

@[simp]
theorem plain_lift (x : Eval α) : plain (lift x : Told ε α) = x := rfl

@[simp]
theorem plain_note (tell : Machine → ε) : plain (note tell) = pure () := rfl

/-- A sequence goes on where its first part gives a value. -/
theorem bind_ok {x : Told ε α} {f : α → Told ε β} {m m' : Machine} {told : List ε} {a : α}
    (ends : x m = (told, .ok a m')) :
    (x >>= f) m = (told ++ (f a m').1, (f a m').2) := by
  simp only [bind, ends]

/-- A sequence stops where its first part stops. -/
theorem bind_error {x : Told ε α} {f : α → Told ε β} {m m' : Machine} {told : List ε} {stop : Stop}
    (ends : x m = (told, .error stop m')) : (x >>= f) m = (told, .error stop m') := by
  simp only [bind, ends]

theorem lift_bind_apply (x : Eval α) (f : α → Told ε β) (m : Machine) :
    (lift x >>= f) m =
      match x m with
      | .ok a m' => f a m'
      | .error stop m' => ([], .error stop m') := by
  simp only [bind, lift]
  cases x m <;> rfl

theorem lift_bind (x : Eval α) (f : α → Eval β) :
    (lift (x >>= f) : Told ε β) = lift x >>= fun a => lift (f a) := by
  funext m
  rw [lift_bind_apply]
  unfold lift
  rw [Eval.bind_eq]
  cases x m <;> rfl

@[simp]
theorem plain_bind (x : Told ε α) (f : α → Told ε β) :
    plain (x >>= f) = plain x >>= fun a => plain (f a) := by
  funext m
  rw [Eval.bind_eq]
  unfold plain
  cases ends : x m with
  | mk told ending =>
    cases ending with
    | ok a m' => rw [bind_ok ends]
    | error stop m' => rw [bind_error ends]

@[simp]
theorem plain_telling (x : Eval α) (tell : α → Machine → ε) : plain (telling x tell) = x := by
  funext m
  unfold plain telling
  cases x m <;> rfl

@[simp]
theorem plain_enclosed (before : Machine → ε) (after : Option α → Machine → ε) (body : Told ε α) :
    plain (enclosed before after body) = plain body := by
  funext m
  unfold plain enclosed
  rcases body m with ⟨told, _ | _⟩ <;> rfl

@[simp]
theorem plain_inFrame (frame : Address) (body : Told ε α) :
    plain (inFrame frame body) = Eval.inFrame frame (plain body) := by
  funext m
  rw [Eval.inFrame_eq]
  rfl

theorem plain_deeper (body : Told ε α) (m : Machine) :
    plain (deeper body) m = Eval.onMachine (fun m' => { m' with depth := m.depth })
      (plain body { m with depth := m.depth + 1 }) := rfl

theorem plain_guarded (line : Nat) (body : Told ε α) (m : Machine) :
    plain (guarded line body) m
      = if m.maxDepth ≤ m.depth then Eval.fail .stackOverflow line m else plain body m := by
  unfold plain guarded
  split <;> rfl

/-- At the limit a call runs nothing of the body, and otherwise the body one level deeper. -/
@[simp]
theorem plain_guarded_deeper (line : Nat) (body : Told ε α) :
    plain (guarded line (deeper body)) = Eval.inCall line (plain body) := by
  funext m
  rw [plain_guarded]
  split
  · next full => exact (Eval.inCall_full line (plain body) full).symm
  · next room => rw [plain_deeper, Eval.inCall_room line (plain body) room]

/-! ## What is heard -/

section

variable (hear : ε → Option δ)

@[simp]
theorem heard_lift (x : Eval α) (m : Machine) : heard hear (lift x) m = [] := rfl

theorem heard_note (tell : Machine → ε) (m : Machine) :
    heard hear (note tell) m = [tell m].filterMap hear := rfl

theorem heard_bind (x : Told ε α) (f : α → Told ε β) (m : Machine) :
    heard hear (x >>= f) m = heard hear x m ++
      match plain x m with
      | .ok a m' => heard hear (f a) m'
      | .error _ _ => [] := by
  unfold heard told plain
  cases ends : x m with
  | mk told ending =>
    cases ending with
    | ok a m' => rw [bind_ok ends, List.filterMap_append]
    | error stop m' => rw [bind_error ends, List.append_nil]

theorem heard_enclosed (before : Machine → ε) (after : Option α → Machine → ε) (body : Told ε α)
    (m : Machine) :
    heard hear (enclosed before after body) m
      = [before m].filterMap hear ++ (heard hear body m ++
        match plain body m with
        | .ok a m' => [after (some a) m'].filterMap hear
        | .error _ m' => [after none m'].filterMap hear) := by
  unfold heard told enclosed plain
  rcases body m with ⟨told, _ | _⟩ <;>
    rw [← List.filterMap_append, ← List.filterMap_append, List.singleton_append]

theorem heard_telling (x : Eval α) (tell : α → Machine → ε) (m : Machine) :
    heard hear (telling x tell) m =
      match x m with
      | .ok a _ => [tell a m].filterMap hear
      | .error _ _ => [] := by
  unfold heard told telling
  cases x m <;> rfl

/-! ### Where nothing is heard -/

/-- Whether nothing is heard of a computation. -/
def Silent (x : Told ε α) : Prop := ∀ m, heard hear x m = []

end

section

variable {hear : ε → Option δ}

theorem silent_pure (a : α) : Silent hear (pure a) := fun _ => rfl

theorem silent_lift (x : Eval α) : Silent hear (lift x) := fun _ => rfl

theorem silent_note {tell : Machine → ε} (nothing : ∀ m, hear (tell m) = none) :
    Silent hear (note tell) := by
  intro m
  rw [heard_note, List.filterMap_cons, nothing]
  rfl

theorem silent_telling {x : Eval α} {tell : α → Machine → ε}
    (nothing : ∀ a m, hear (tell a m) = none) : Silent hear (telling x tell) := by
  intro m
  unfold heard told telling
  cases x m with
  | ok a m' => simp [nothing]
  | error stop m' => rfl

/-- Where the end is not asked about, the beginning is heard and what is between them. -/
theorem heard_enclosed_begun {after : Option α → Machine → ε}
    (nothing : ∀ a m, hear (after a m) = none) (before : Machine → ε) (body : Told ε α)
    (m : Machine) :
    heard hear (enclosed before after body) m
      = [before m].filterMap hear ++ heard hear body m := by
  rw [heard_enclosed]
  cases plain body m <;> simp [nothing]

/-- Where the beginning is not asked about either, only what is between them is heard. -/
theorem heard_enclosed_silent {before : Machine → ε} {after : Option α → Machine → ε}
    (nothing : ∀ m, hear (before m) = none) (nothing' : ∀ a m, hear (after a m) = none)
    (body : Told ε α) (m : Machine) :
    heard hear (enclosed before after body) m = heard hear body m := by
  rw [heard_enclosed_begun nothing', List.filterMap_cons, nothing]
  rfl

/-- A note that is not asked about makes no difference. -/
theorem heard_note_bind {tell : Machine → ε} (nothing : ∀ m, hear (tell m) = none)
    (x : Told ε α) (m : Machine) :
    heard hear (note tell >>= fun _ => x) m = heard hear x m := by
  rw [heard_bind, silent_note nothing, List.nil_append]
  rfl

/-- Nor does a computation of which nothing is heard. -/
theorem Silent.heard_bind {x : Told ε α} (silent : Silent hear x) (f : α → Told ε β) (m : Machine) :
    heard hear (x >>= f) m =
      match plain x m with
      | .ok a m' => heard hear (f a) m'
      | .error _ _ => [] := by
  rw [Told.heard_bind, silent, List.nil_append]

theorem Silent.bind {x : Told ε α} {f : α → Told ε β} (first : Silent hear x)
    (second : ∀ a, Silent hear (f a)) : Silent hear (x >>= f) := by
  intro m
  rw [first.heard_bind]
  cases plain x m with
  | ok a m' => exact second a m'
  | error stop m' => rfl

end

end Told

end Lox
