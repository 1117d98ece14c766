import Lox.Proofs.Runs.Congruence
import Lox.Proofs.Runs.Moments

/-!
# Accounts of the depth

The depth is a number that a call raises and puts back. It is right at every moment if it is the
number of function bodies that have begun and not ended. `Sound` says this of a moment, by what came
before it and what comes after: besides, a body begins only where a call runs it below the limit, and
a call that would begin one at the limit overflows, after which the run is only left.

An `Account` of moments says it of each of them, and that the bodies that run at the end are those
that ran at the start. This makes accounts add up (`Account.append`). The only moments that do not
fit in by themselves are those of a call, which come together (`Account.body_call`).
-/

set_option autoImplicit false

namespace Lox

/-- Why a computation stops without a value, if it does. -/
def Eval.stops {α : Type} (x : Eval α) (m : Machine) : Option Stop :=
  match x m with
  | .ok _ _ => none
  | .error stop _ => some stop

/-- Why a computation stops if a call at a line overflows. -/
def overflow (line : Nat) : Option Stop := some (.error ⟨.stackOverflow, line⟩)

/-- Whether a call expression was met: before all moments, or at one of them. -/
def Met (sites : Expr → Prop) (moments : List Moment) (site : Expr) : Prop :=
  sites site ∨ ∃ m, .evaluates site m ∈ moments

/-- What is known of a moment of a run that stops in some way, where the functions in `stack` were
running before. -/
structure Sound (stack : List FunctionDecl) (limit : Nat) (sites : Expr → Prop)
    (stop : Option Stop) (before : List Moment) (moment : Moment) (later : List Moment) : Prop where
  /-- The depth is the number of bodies that are running. -/
  exact : moment.machine.depth = (running stack (before ++ [moment])).length
  bounded : moment.machine.depth ≤ limit
  /-- A body begins only where a call that runs it is carried out below the limit. -/
  begun (declaration : FunctionDecl) (m : Machine) (here : moment = .begins declaration m) :
    ∃ earlier site callee m', before = earlier ++ [.calls site callee m'] ∧
      callee.body? = some declaration ∧ m'.depth < limit
  /-- Calls are those of expressions that were met. -/
  met (site : CallSite) (callee : Value) (m : Machine) (here : moment = .calls site callee m) :
    Met sites before site.expr
  /-- A call that runs a body either begins it at once, below the limit, or stops the run with an
  overflow at its own line, at the limit. -/
  called (site : CallSite) (callee : Value) (m : Machine) (declaration : FunctionDecl)
    (here : moment = .calls site callee m) (runs : callee.body? = some declaration) :
    (m.depth < limit ∧ ∃ m' rest, later = .begins declaration m' :: rest) ∨
    (m.depth = limit ∧ stop = overflow site.line ∧ ∀ other ∈ later, other.Unwinds)

/-- What is known of all moments of a run. -/
structure Account (stack : List FunctionDecl) (limit : Nat) (sites : Expr → Prop)
    (moments : List Moment) (stop : Option Stop) (left : Machine) : Prop where
  sound (before : List Moment) (moment : Moment) (later : List Moment)
    (split : moments = before ++ moment :: later) : Sound stack limit sites stop before moment later
  /-- Every body that began has ended. -/
  settled : running stack moments = stack
  /-- A run stops with an overflow only where a call at the limit would have begun a body. -/
  refused (line : Nat) (stopped : stop = overflow line) :
    ∃ before site callee m later, moments = before ++ .calls site callee m :: later ∧
      callee.body?.isSome ∧ m.depth = limit ∧ site.line = line
  depth : left.depth = stack.length
  maxDepth : left.maxDepth = limit

variable {stack : List FunctionDecl} {limit : Nat} {sites sites' : Expr → Prop}
  {stop : Option Stop} {before later xs ys : List Moment} {moment : Moment} {left : Machine}

theorem Met.mono {site : Expr} (met : Met sites xs site)
    (more : ∀ site, sites site → Met sites' before site) : Met sites' (before ++ xs) site := by
  rcases met with known | ⟨m, seen⟩
  · rcases more site known with known' | ⟨m, seen⟩
    · exact .inl known'
    · exact .inr ⟨m, List.mem_append_left _ seen⟩
  · exact .inr ⟨m, List.mem_append_right _ seen⟩

/-- What is known of a moment stays true when the run goes on. -/
theorem Sound.extend (sound : Sound stack limit sites none before moment later)
    (stop : Option Stop) (ys : List Moment) :
    Sound stack limit sites stop before moment (later ++ ys) where
  exact := sound.exact
  bounded := sound.bounded
  begun := sound.begun
  met := sound.met
  called site callee m declaration here runs := by
    rcases sound.called site callee m declaration here runs with
      ⟨room, m', rest, rfl⟩ | ⟨-, stopped, -⟩
    · exact .inl ⟨room, m', rest ++ ys, rfl⟩
    · exact nomatch stopped

/-- Nor does it matter what is left after it. -/
theorem Sound.unwind (sound : Sound stack limit sites stop before moment later)
    (unwinds : ∀ other ∈ ys, other.Unwinds) :
    Sound stack limit sites stop before moment (later ++ ys) where
  exact := sound.exact
  bounded := sound.bounded
  begun := sound.begun
  met := sound.met
  called site callee m declaration here runs := by
    rcases sound.called site callee m declaration here runs with
      ⟨room, m', rest, rfl⟩ | ⟨full, stopped, left⟩
    · exact .inl ⟨room, m', rest ++ ys, rfl⟩
    · refine .inr ⟨full, stopped, fun other member => ?_⟩
      exact (List.mem_append.mp member).elim (left other) (unwinds other)

/-- What is known of a moment is known of it after what came earlier. -/
theorem Sound.shift {inner : List FunctionDecl} (runs : running stack xs = inner)
    (known : ∀ site, sites site → Met sites' xs site)
    (sound : Sound inner limit sites stop before moment later) :
    Sound stack limit sites' stop (xs ++ before) moment later where
  exact := by rw [List.append_assoc, running_append, runs, sound.exact]
  bounded := sound.bounded
  begun declaration m here := by
    obtain ⟨earlier, site, callee, m', same, runs, room⟩ := sound.begun declaration m here
    exact ⟨xs ++ earlier, site, callee, m', by rw [same, List.append_assoc], runs, room⟩
  met site callee m here := (sound.met site callee m here).mono known
  called := sound.called

/-- A moment at which no body begins and no call is carried out. -/
theorem Sound.plain (counts : moment.machine.depth = (running stack (before ++ [moment])).length)
    (bounded : moment.machine.depth ≤ limit)
    (noBody : ∀ declaration m, moment ≠ .begins declaration m)
    (noCall : ∀ site callee m, moment ≠ .calls site callee m) :
    Sound stack limit sites stop before moment later where
  exact := counts
  bounded := bounded
  begun declaration m here := absurd here (noBody declaration m)
  met site callee m here := absurd here (noCall site callee m)
  called site callee m _ here := absurd here (noCall site callee m)

theorem split_cons {first : Moment} (split : first :: xs = before ++ moment :: later) :
    (before = [] ∧ moment = first ∧ later = xs) ∨
    (∃ earlier, before = first :: earlier ∧ xs = earlier ++ moment :: later) := by
  cases before with
  | nil =>
    obtain ⟨rfl, rfl⟩ := List.cons.inj split
    exact .inl ⟨rfl, rfl, rfl⟩
  | cons other earlier =>
    obtain ⟨rfl, rest⟩ := List.cons.inj split
    exact .inr ⟨earlier, rfl, rest⟩

theorem split_nil {P : Prop} (split : [] = before ++ moment :: later) : P :=
  absurd split (by simp)

/-- A moment of two runs in sequence is one of the first or one of the second. -/
theorem split_append (split : xs ++ ys = before ++ moment :: later) :
    (∃ rest, xs = before ++ moment :: rest ∧ later = rest ++ ys) ∨
    (∃ earlier, before = xs ++ earlier ∧ ys = earlier ++ moment :: later) := by
  rcases List.append_eq_append_iff.mp split with ⟨earlier, same, rest⟩ | ⟨rest, same, other⟩
  · exact .inr ⟨earlier, same, rest⟩
  · cases rest with
    -- The first run ends right before the moment, so it is the first one of the second.
    | nil => exact .inr ⟨[], by simpa using same.symm, by simpa using other.symm⟩
    | cons first rest =>
      obtain ⟨rfl, rfl⟩ := List.cons.inj other
      exact .inl ⟨rest, same, rfl⟩

namespace Account

/-- Where nothing happens, a run is accounted for. -/
theorem nil (calm : ∀ line, stop ≠ overflow line) (depth : left.depth = stack.length)
    (maxDepth : left.maxDepth = limit) : Account stack limit sites [] stop left where
  sound _ _ _ split := split_nil split
  settled := rfl
  refused line stopped := absurd stopped (calm line)
  depth := depth
  maxDepth := maxDepth

/-- Accounts of two runs add up, and the second may rely on what was met in the first. -/
theorem append {left' : Machine} (first : Account stack limit sites xs none left)
    (second : Account stack limit sites' ys stop left')
    (known : ∀ site, sites' site → Met sites xs site) :
    Account stack limit sites (xs ++ ys) stop left' where
  sound before moment later split := by
    rcases split_append split with ⟨rest, here, rfl⟩ | ⟨earlier, rfl, here⟩
    · exact (first.sound before moment rest here).extend stop ys
    · exact (second.sound earlier moment later here).shift first.settled known
  settled := by rw [running_append, first.settled, second.settled]
  refused line stopped := by
    obtain ⟨before, site, callee, m, later, rfl, called⟩ := second.refused line stopped
    exact ⟨xs ++ before, site, callee, m, later, (List.append_assoc _ _ _).symm, called⟩
  depth := second.depth
  maxDepth := second.maxDepth

/-- An expression or a statement is entered. -/
theorem enter {m : Machine} (enters : (∃ e, moment = .evaluates e m) ∨ ∃ s, moment = .executes s m)
    (depth : m.depth = stack.length) (bounded : m.depth ≤ limit) (maxDepth : m.maxDepth = limit) :
    Account stack limit sites [moment] none m where
  sound before other later split := by
    rcases split_cons split with ⟨rfl, rfl, rfl⟩ | ⟨earlier, -, nothing⟩
    · rcases enters with ⟨e, rfl⟩ | ⟨s, rfl⟩
      · exact .plain depth bounded nofun nofun
      · exact .plain depth bounded nofun nofun
    · exact split_nil nothing
  settled := by rcases enters with ⟨e, rfl⟩ | ⟨s, rfl⟩ <;> rfl
  refused line stopped := nomatch stopped
  depth := depth
  maxDepth := maxDepth

/-- And it is left again. -/
theorem leave (account : Account stack limit sites xs stop left) (bounded : left.depth ≤ limit) :
    Account stack limit sites (xs ++ [.leaves left]) stop left where
  sound before moment later split := by
    rcases split_append split with ⟨rest, here, rfl⟩ | ⟨earlier, rfl, here⟩
    · refine (account.sound before moment rest here).unwind fun other member => ?_
      rw [List.mem_singleton.mp member]
      trivial
    · rcases split_cons here with ⟨rfl, rfl, rfl⟩ | ⟨_, -, nothing⟩
      · refine .plain ?_ bounded nofun nofun
        rw [List.append_nil, running_append, account.settled]
        exact account.depth
      · exact split_nil nothing
  settled := by
    rw [running_append, account.settled]
    rfl
  refused line stopped := by
    obtain ⟨before, site, callee, m, later, rfl, called⟩ := account.refused line stopped
    exact ⟨before, site, callee, m, later ++ [.leaves left], List.append_assoc _ _ _, called⟩
  depth := account.depth
  maxDepth := account.maxDepth

/-! ### Calls -/

variable {site : CallSite} {callee : Value} {declaration : FunctionDecl} {m inside : Machine}

/-- A call that runs no body is carried out. -/
theorem plain_call (met : sites site.expr) (bodiless : callee.body? = none)
    (depth : m.depth = stack.length) (bounded : m.depth ≤ limit)
    (calm : ∀ line, stop ≠ overflow line) (depth' : left.depth = stack.length)
    (maxDepth : left.maxDepth = limit) :
    Account stack limit sites [.calls site callee m] stop left where
  sound before other later split := by
    rcases split_cons split with ⟨rfl, rfl, rfl⟩ | ⟨earlier, -, nothing⟩
    · refine ⟨depth, bounded, nofun, fun site' callee' m' here => ?_,
        fun site' callee' m' declaration here runs => ?_⟩
      · obtain ⟨rfl, rfl, rfl⟩ := Moment.calls.inj here
        exact .inl met
      · obtain ⟨rfl, rfl, rfl⟩ := Moment.calls.inj here
        rw [bodiless] at runs
        exact nomatch runs
    · exact split_nil nothing
  settled := rfl
  refused line stopped := absurd stopped (calm line)
  depth := depth'
  maxDepth := maxDepth

/-- A call at the limit overflows instead of running a body. -/
theorem full_call (met : sites site.expr) (runs : callee.body? = some declaration)
    (depth : m.depth = stack.length) (full : m.depth = limit) (depth' : left.depth = stack.length)
    (maxDepth : left.maxDepth = limit) :
    Account stack limit sites [.calls site callee m] (overflow site.line) left where
  sound before other later split := by
    rcases split_cons split with ⟨rfl, rfl, rfl⟩ | ⟨earlier, -, nothing⟩
    · refine ⟨depth, Nat.le_of_eq full, nofun, fun site' callee' m' here => ?_,
        fun site' callee' m' declaration here _ => ?_⟩
      · obtain ⟨rfl, rfl, rfl⟩ := Moment.calls.inj here
        exact .inl met
      · obtain ⟨rfl, rfl, rfl⟩ := Moment.calls.inj here
        exact .inr ⟨full, rfl, fun other member => absurd member List.not_mem_nil⟩
    · exact split_nil nothing
  settled := rfl
  refused line stopped := by
    obtain rfl : site.line = line := by
      injection stopped with stopped
      injection stopped with stopped
      injection stopped
    exact ⟨[], site, callee, m, [], rfl, by rw [runs]; rfl, full, rfl⟩
  depth := depth'
  maxDepth := maxDepth

/-- A call below the limit runs a body one level deeper, and the depth is put back after it. -/
theorem body_call {after : Machine} (met : sites site.expr) (runs : callee.body? = some declaration)
    (depth : m.depth = stack.length) (room : m.depth < limit)
    (deeper : inside.depth = stack.length + 1)
    (body : Account (declaration :: stack) limit sites xs stop left)
    (depth' : after.depth = stack.length) (maxDepth : after.maxDepth = limit) :
    Account stack limit sites
      (.calls site callee m :: .begins declaration inside :: (xs ++ [.ends after])) stop after where
  sound before other later split := by
    -- The moment is the call, the begin of the body, one within it, or the end of it.
    rcases split_cons split with ⟨rfl, rfl, rfl⟩ | ⟨before', rfl, split'⟩
    · refine ⟨depth, Nat.le_of_lt room, nofun, fun site' callee' m' here => ?_,
        fun site' callee' m' declaration' here runs' => ?_⟩
      · obtain ⟨rfl, rfl, rfl⟩ := Moment.calls.inj here
        exact .inl met
      · obtain ⟨rfl, rfl, rfl⟩ := Moment.calls.inj here
        obtain rfl := Option.some.inj (runs.symm.trans runs')
        exact .inl ⟨room, inside, _, rfl⟩
    rcases split_cons split' with ⟨rfl, rfl, rfl⟩ | ⟨earlier, rfl, inner⟩
    · have within_ : inside.depth ≤ limit := by omega
      refine ⟨deeper, within_, fun declaration' m' here => ?_, nofun, nofun⟩
      obtain ⟨rfl, rfl⟩ := Moment.begins.inj here
      exact ⟨[], site, callee, m, rfl, runs, room⟩
    rcases split_append inner with ⟨rest, here, rfl⟩ | ⟨_, rfl, here⟩
    · have sound : Sound (declaration :: stack) limit sites stop earlier other
          (rest ++ [.ends after]) :=
        (body.sound earlier other rest here).unwind fun other member => by
          rw [List.mem_singleton.mp member]
          trivial
      have shifted : Sound stack limit sites stop
          ([.calls site callee m, .begins declaration inside] ++ earlier) other
          (rest ++ [.ends after]) := sound.shift rfl fun _ known => .inl known
      exact shifted
    · rcases split_cons here with ⟨rfl, rfl, rfl⟩ | ⟨_, -, nothing⟩
      · refine .plain ?_ (by show after.depth ≤ limit; omega) nofun nofun
        rw [List.append_nil]
        show after.depth = (running (declaration :: stack) (xs ++ [.ends after])).length
        rw [running_append, body.settled]
        exact depth'
      · exact split_nil nothing
  settled := by
    show running (declaration :: stack) (xs ++ [.ends after]) = stack
    rw [running_append, body.settled]
    rfl
  refused line stopped := by
    obtain ⟨before, site', callee', m', later, rfl, called⟩ := body.refused line stopped
    refine ⟨.calls site callee m :: .begins declaration inside :: before, site', callee', m',
      later ++ [.ends after], ?_, called⟩
    simp only [List.cons_append, List.append_assoc]
  depth := depth'
  maxDepth := maxDepth

end Account

/-! ## Computations and their moments -/

namespace Eval

variable {α β : Type}

theorem stops_bind (x : Eval α) (f : α → Eval β) (m : Machine) :
    (x >>= f).stops m =
      match x m with
      | .ok a m' => (f a).stops m'
      | .error stop _ => some stop := by
  unfold stops
  rw [bind_eq]
  cases x m <;> rfl

theorem overflows_iff_stops {x : Eval α} {m : Machine} {line : Nat} :
    Overflows (x m) line ↔ x.stops m = overflow line := by
  unfold stops overflow
  cases x m with
  | ok a m' => exact ⟨nofun, nofun⟩
  | error stop m' =>
    constructor
    · rintro ⟨m'', same⟩
      rw [(EStateM.Result.error.inj same).1]
    · intro same
      exact ⟨m', by rw [Option.some.inj same]⟩

/-- Whether a computation never overflows, and leaves the depth and its limit alone. -/
structure Calm (x : Eval α) : Prop where
  stays (m : Machine) (line : Nat) : x.stops m ≠ overflow line
  depth (m : Machine) : (x.leaves m).depth = m.depth
  maxDepth (m : Machine) : (x.leaves m).maxDepth = m.maxDepth

theorem Oblivious.calm {x : Eval α} (oblivious : x.Oblivious) : x.Calm where
  stays m line same := oblivious.stays m line (overflows_iff_stops.mpr same)
  depth m := by rw [oblivious.counting_leaves m]; rfl
  maxDepth m := by rw [oblivious.counting_leaves m]; rfl

theorem calm_exhausted : Calm (throw .exhausted : Eval α) :=
  ⟨fun _ _ => nofun, fun _ => rfl, fun _ => rfl⟩

theorem Calm.bind {x : Eval α} {f : α → Eval β} (first : x.Calm) (second : ∀ a, (f a).Calm) :
    (x >>= f).Calm := by
  refine ⟨fun m line => ?_, fun m => ?_, fun m => ?_⟩
  · have stays := first.stays m line
    rw [stops_bind]
    unfold stops at stays
    cases ends : x m with
    | ok a m' => exact (second a).stays m' line
    | error stop m' => rwa [ends] at stays
  · have kept := first.depth m
    rw [leaves_bind]
    unfold leaves at kept
    cases ends : x m with
    | ok a m' =>
      rw [ends] at kept
      exact ((second a).depth m').trans kept
    | error stop m' => rwa [ends] at kept
  · have kept := first.maxDepth m
    rw [leaves_bind]
    unfold leaves at kept
    cases ends : x m with
    | ok a m' =>
      rw [ends] at kept
      exact ((second a).maxDepth m').trans kept
    | error stop m' => rwa [ends] at kept

theorem calm_write (text : String) (line : Nat) : Calm (write text line) := by
  refine ⟨fun m line' => ?_, fun m => (restores_write text line m).depth,
    fun m => (restores_write text line m).maxDepth⟩
  unfold stops write overflow
  cases m.sink.write text with
  | mk refusal sink => cases refusal <;> exact nofun

theorem calm_print (value : Value) (line : Nat) : Calm (print value line) := by
  have all : ∀ texts, Calm (writeAll line texts) := by
    intro texts
    induction texts with
    | nil => exact (oblivious_pure ()).calm
    | cons text texts ih => exact (calm_write text line).bind fun _ => ih
  exact all _

end Eval

open Eval

/-- Whether the moments of a computation account for it on every machine within its limit. -/
def Accounts {α : Type} (sites : Expr → Prop) (x : Traced α) : Prop :=
  ∀ (m : Machine) (stack : List FunctionDecl), m.depth = stack.length → m.depth ≤ m.maxDepth →
    Account stack m.maxDepth sites (x.heard Note.moment? m) (x.plain.stops m) (x.plain.leaves m)

namespace Accounts

variable {α β : Type} {x : Traced α} {f : α → Traced β}

/-- A computation without moments is accounted for if it is calm. -/
theorem quiet (silent : x.Silent Note.moment?) (calm : x.plain.Calm) : Accounts sites x := by
  intro m stack depth _
  rw [silent m]
  exact .nil (calm.stays m) ((calm.depth m).trans depth) (calm.maxDepth m)

/-- So are steps of the machine of which nothing is noted. -/
theorem lift {y : Eval α} (calm : y.Calm) : Accounts sites (Told.lift y) :=
  quiet (Told.silent_lift y) calm

theorem pure (a : α) : Accounts sites (Pure.pure a) :=
  quiet (Told.silent_pure a) (oblivious_pure a).calm

/-- Of a value with which a computation goes on it may be used that the first part gives it. -/
theorem bind_given (first : Accounts sites x)
    (second : ∀ a, (∃ m m', x.plain m = .ok a m') → Accounts sites (f a)) :
    Accounts sites (x >>= f) := by
  intro m stack depth bounded
  have account := first m stack depth bounded
  rw [Told.heard_bind, Told.plain_bind, stops_bind, leaves_bind]
  unfold stops leaves at account
  cases ends : x.plain m with
  | ok a m' =>
    rw [ends] at account
    have depth' : m'.depth = stack.length := account.depth
    have maxDepth : m'.maxDepth = m.maxDepth := account.maxDepth
    -- The limit is the same on the machine on which the second part starts.
    have rest := second a ⟨m, m', ends⟩ m' stack depth' (by omega)
    rw [maxDepth] at rest
    exact account.append rest fun _ known => .inl known
  | error stop m' =>
    rw [ends] at account
    dsimp only
    rwa [List.append_nil]

theorem bind (first : Accounts sites x) (second : ∀ a, Accounts sites (f a)) :
    Accounts sites (x >>= f) :=
  first.bind_given fun a _ => second a

/-- A note that is no moment changes nothing. -/
theorem after_note {tell : Machine → Note} (silent : ∀ m, (tell m).moment? = none)
    (accounts : Accounts sites x) : Accounts sites (Told.note tell >>= fun _ => x) :=
  (quiet (Told.silent_note silent) (oblivious_pure ()).calm).bind fun _ => accounts

theorem inFrame (frame : Address) (inside : Accounts sites x) :
    Accounts sites (Told.inFrame frame x) := by
  intro m stack depth bounded
  have account := inside { m with current := frame } stack depth bounded
  rw [Told.plain_inFrame, leaves_of_onMachine (inFrame_eq frame x.plain m)]
  have stop : (Eval.inFrame frame x.plain).stops m = x.plain.stops { m with current := frame } := by
    unfold stops
    rw [inFrame_eq]
    cases x.plain { m with current := frame } <;> rfl
  rw [stop]
  exact ⟨account.sound, account.settled, account.refused, account.depth, account.maxDepth⟩

/-- An expression or a statement is accounted for from when it is entered until it is left. -/
theorem within (more : Expr → Prop) {before : Machine → Note} {value? : Option α → Option Value}
    {entered : Machine → Moment} (same : ∀ m, (before m).moment? = some (entered m))
    (enters : ∀ m, (∃ e, entered m = .evaluates e m) ∨ ∃ s, entered m = .executes s m)
    (known : ∀ m site, more site → Met sites [entered m] site) (inside : Accounts more x) :
    Accounts sites (Told.enclosed before (fun a => .leaves (value? a)) x) := by
  intro m stack depth bounded
  have account := inside m stack depth bounded
  have first : Account stack m.maxDepth sites [entered m] none m :=
    .enter (enters m) depth bounded rfl
  have left := account.depth
  have whole := first.append (account.leave (by omega)) (known m)
  have begun : [before m].filterMap Note.moment? = [entered m] := by
    rw [List.filterMap_cons, same]
    rfl
  rw [Told.heard_enclosed, Told.plain_enclosed, begun]
  unfold leaves at whole ⊢
  cases ends : x.plain m with
  | ok a m' =>
    rw [ends] at whole
    exact whole
  | error stop m' =>
    rw [ends] at whole
    exact whole

/-- A call that runs no body is accounted for, if it is calm. -/
theorem plain_call {site : CallSite} {callee : Value} (met : sites site.expr)
    (bodiless : callee.body? = none) {y : Eval α} (calm : y.Calm) :
    Accounts sites (Told.note (.calls site callee) >>= fun _ => Told.lift y) := by
  intro m stack depth bounded
  rw [Told.heard_bind, Told.plain_bind, Told.plain_note, pure_bind]
  exact .plain_call met bodiless depth bounded (calm.stays m) ((calm.depth m).trans depth)
    (calm.maxDepth m)

/-- A call that runs a body is accounted for, at the limit and below it. -/
theorem carryOut {site : CallSite} {callee : Value} {declaration : FunctionDecl}
    (met : sites site.expr) (runs : callee.body? = some declaration) (inside : Accounts sites x) :
    Accounts sites (Traced.carryOut site callee declaration x) := by
  intro m stack depth bounded
  rw [Traced.plain_carryOut]
  unfold Traced.carryOut
  rw [Told.heard_bind]
  show Account stack m.maxDepth sites
    (.calls site callee m :: (Traced.inCall declaration site.line x).heard Note.moment? m) _ _
  by_cases full : m.maxDepth ≤ m.depth
  · have nothing : (Traced.inCall declaration site.line x).heard Note.moment? m = [] := by
      unfold Told.heard Told.told
      rw [Traced.inCall_full _ _ _ full]
      rfl
    rw [nothing, leaves_congr (inCall_full site.line x.plain full)]
    have stop : (Eval.inCall site.line x.plain).stops m = overflow site.line := by
      unfold stops
      rw [inCall_full site.line x.plain full]
      rfl
    rw [stop]
    exact .full_call met runs depth (by omega) depth rfl
  · -- The body is accounted for one level deeper, with its function on top of those that run.
    have body := inside { m with depth := m.depth + 1 } (declaration :: stack)
      (by rw [List.length_cons, depth]) (by show m.depth + 1 ≤ m.maxDepth; omega)
    have stop : (Eval.inCall site.line x.plain).stops m
        = x.plain.stops { m with depth := m.depth + 1 } := by
      unfold stops
      rw [inCall_room site.line x.plain full]
      cases x.plain { m with depth := m.depth + 1 } <;> rfl
    have left := leaves_of_onMachine (inCall_room site.line x.plain full)
    have moments : (Traced.inCall declaration site.line x).heard Note.moment? m
        = .begins declaration { m with depth := m.depth + 1 }
          :: (x.heard Note.moment? { m with depth := m.depth + 1 }
            ++ [.ends ((Eval.inCall site.line x.plain).leaves m)]) := by
      unfold Told.heard Told.told
      rw [Traced.inCall_room _ _ _ full]
      refine (Told.heard_enclosed _ _ _ (Told.deeper x) m).trans ?_
      rw [left, Told.plain_deeper]
      unfold leaves
      cases x.plain { m with depth := m.depth + 1 } <;> rfl
    rw [stop, moments]
    refine .body_call met runs depth (by omega) (by rw [depth]) body ?_ ?_
    · rw [left]
      exact depth
    · rw [left]
      exact body.maxDepth

end Accounts

end Lox
