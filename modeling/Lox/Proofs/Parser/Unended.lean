import Lox.Proofs.Parser.Progress
import Lox.Proofs.Recovery.Nesting

/-!
# Tokens without an end

A list of tokens may lack the end of the input. What the parser makes of it is found by following
three cursors at once: one in the list itself, one in the list with its last token replaced by an end
on the same line, and one in the list with such an end behind it. As long as there are other tokens
before the last one the three see the same. On the last token the first cursor is at the end, like
the second, so it sees what the second one sees; only a literal is read there, and then it is where
the third one is when it has passed the literal, at the end.

So from the last token on the first cursor goes with one of the others (`Splits`), and with which one
is settled by what comes first, a test for the end or the reading of the literal. It cannot be both
in turn: where the literal may have been read no literal is looked for, which is what the phases of a
rule are for.
-/

set_option autoImplicit false

namespace Lox

/-- A last token that does not end the input, and an end on its line. -/
structure Ending where
  last : Token
  eof : Token
  unended : last.kind.agrees .eof = false
  ended : eof.kind.agrees .eof = true
  sameLine : eof.line = last.line

/-- Whether the last token is a literal. -/
def Ending.IsLiteral (z : Ending) : Prop :=
  z.last.kind.literal?.isSome = true

/-- An end is no literal. -/
theorem Ending.eof_literal (z : Ending) : z.eof.kind.literal? = none := by
  have ended := z.ended
  cases kind : z.eof.kind with
  | eof => rfl
  | punctuation | keyword | identifier | string | number =>
    rw [kind] at ended
    cases ended

/-- A literal is of no other kind. -/
theorem Ending.IsLiteral.ne {z : Ending} (isLiteral : z.IsLiteral) {kind : Kind}
    (isWord : kind.isWord = true) : ∀ t ∈ [z.last].head?, t.kind ≠ kind := by
  rintro _ ⟨⟩ same
  have other := Kind.agrees_of_literal isWord isLiteral
  rw [same, Kind.agrees_self] at other
  cases other

namespace Parser

open Cursor

variable {α β γ : Type}

/-! ## The operations on a list of tokens -/

/-- An ending of a run. -/
def ending (o : Except SyntaxError α) (c : Cursor) : EStateM.Result SyntaxError Cursor α :=
  match o with
  | .ok a => .ok a c
  | .error e => .error e c

variable {u last : Token} {us : List Token} {id : Nat}

theorem atEnd_before (unended : u.kind.agrees .eof = false) :
    (before (u :: us) last id).atEnd = false :=
  atEnd_before_cons.trans unended

theorem take?_before_some {reading : Token → Option γ} {a : γ}
    (unended : u.kind.agrees .eof = false) (means : reading u = some a) :
    take? reading (before (u :: us) last id) = .ok (some a) (before us last id) := by
  unfold take?
  rw [atEnd_before unended, if_neg Bool.false_ne_true, moved_before unended]
  dsimp only [before]
  rw [means]

theorem take?_before_none {reading : Token → Option γ}
    (none : ∀ u ∈ us.head?, reading u = none) :
    take? reading (before us last id) = .ok .none (before us last id) := by
  unfold take?
  cases us with
  | nil => rw [atEnd_before_nil, if_pos rfl]
  | cons u us =>
    have nothing : reading (before (u :: us) last id).current = .none := none u rfl
    rw [nothing, ite_self]

theorem literal?_before_some {value : Literal} (unended : u.kind.agrees .eof = false)
    (isLiteral : u.kind.literal? = some value) :
    literal? (before (u :: us) last id) = .ok (some value) (before us last id) := by
  have here : (before (u :: us) last id).current.kind.literal? = some value := isLiteral
  rw [literal?_of_some here, moved_before unended]

theorem literal?_before_last {value : Literal} (isLiteral : last.kind.literal? = some value) :
    literal? (before [] last id) = .ok (some value) (before [] last id) :=
  literal?_of_some isLiteral |>.trans (by rw [moved_of_last rfl])

/-! What follows a question is asked of the first token, or else of the last one. -/

theorem take?_then_some {reading : Token → Option γ} {f : Option γ → Parser α} {a : γ}
    (unended : u.kind.agrees .eof = false) (means : reading u = some a) :
    (take? reading >>= f) (before (u :: us) last id) = f (some a) (before us last id) :=
  bind_of_ok (take?_before_some unended means)

theorem take?_then_none {reading : Token → Option γ} {f : Option γ → Parser α}
    (other : reading u = none) :
    (take? reading >>= f) (before (u :: us) last id) = f none (before (u :: us) last id) :=
  bind_of_ok (take?_before_none fun t here => by cases here; exact other)

theorem take?_at_last (reading : Token → Option γ) (f : Option γ → Parser α) (last : Token)
    (id : Nat) : (take? reading >>= f) (before [] last id) = f none (before [] last id) :=
  bind_of_ok (take?_before_none nofun)

theorem literal?_then_some {f : Option Literal → Parser α} {value : Literal}
    (unended : u.kind.agrees .eof = false) (isLiteral : u.kind.literal? = some value) :
    (literal? >>= f) (before (u :: us) last id) = f (some value) (before us last id) :=
  bind_of_ok (literal?_before_some unended isLiteral)

theorem literal?_then_none {f : Option Literal → Parser α} {c : Cursor}
    (other : c.current.kind.literal? = none) : (literal? >>= f) c = f none c :=
  bind_of_ok (literal?_of_none other)

theorem isAt_then {kind : Kind} (isWord : kind.isWord = true) {f : Bool → Parser α} :
    (isAt kind >>= f) (before (u :: us) last id)
      = f (u.kind.agrees kind) (before (u :: us) last id) :=
  bind_of_ok (congrArg (EStateM.Result.ok · _) (isAt_before isWord))

theorem isAt_at_last (kind : Kind) (isWord : kind.isWord = true) (f : Bool → Parser α)
    (last : Token) (id : Nat) :
    (isAt kind >>= f) (before [] last id) = f false (before [] last id) :=
  bind_of_ok (isAt_elsewhere kind isWord nofun)

theorem atEnd_then {f : Bool → Parser α} (unended : u.kind.agrees .eof = false) :
    (atEnd >>= f) (before (u :: us) last id) = f false (before (u :: us) last id) :=
  bind_of_ok (atEnd_within unended)

theorem atEnd_at_last (f : Bool → Parser α) (last : Token) (id : Nat) :
    (atEnd >>= f) (before [] last id) = f true (before [] last id) :=
  bind_of_ok (congrArg (EStateM.Result.ok · _) atEnd_before_nil)

theorem rest_before (us : List Token) (last : Token) (id : Nat) :
    (before us last id).rest.length = us.length := by
  cases us with
  | nil => rfl
  | cons u us => exact List.length_append

/-! ## Three cursors -/

variable (z : Ending)

/-- On the last token, which may have been read, and at an end in its place both rules end alike and
go no further; they pass nothing if they succeed. -/
def Halts (i : Nat) (φ' : Phase) (p p' : Parser α) : Prop :=
  ∀ id, ∃ o id', (∀ a, o = .ok a → i = 0 ∧ φ' = .any) ∧
    p (before [] z.last id) = ending o (before [] z.last id') ∧
    p' (before [] z.eof id) = ending o (before [] z.eof id')

/-- The endings of three runs with the tokens `us` before the last one: without an end, with an end
behind the last token, and with an end in its place. -/
inductive Splits (i : Nat) (φ' : Phase) (us : List Token) :
    (x y w : EStateM.Result SyntaxError Cursor α) → Prop
  /-- All three end alike. -/
  | along {x y w : EStateM.Result SyntaxError Cursor α} (o : Except SyntaxError α)
      (vs : List Token) (id : Nat) (unended : ∀ v ∈ vs, v.kind.agrees .eof = false)
      (le : vs.length ≤ us.length) (passed : ∀ a, o = .ok a → vs.length + i ≤ us.length)
      (without : x = ending o (before vs z.last id))
      (behind : z.IsLiteral → y = ending o (before (vs ++ [z.last]) z.eof id))
      (instead : w = ending o (before vs z.eof id)) : Splits i φ' us x y w
  /-- The first is on the last token, and goes with one of the others. -/
  | apart {x y w : EStateM.Result SyntaxError Cursor α} (o : Except SyntaxError α) (id : Nat)
      (passed : ∀ a, o = .ok a → i ≤ us.length + 1 ∧ φ' = .any)
      (without : x = ending o (before [] z.last id))
      (other : z.IsLiteral ∧ y = ending o (before [] z.eof id) ∨ w = ending o (before [] z.eof id)) :
      Splits i φ' us x y w

/-- On the last token, and before it, runs of two rules part in these ways only. -/
structure Parts (z : Ending) {α : Type} (m i : Nat) (φ φ' : Phase) (p p' : Parser α) : Prop where
  halts : φ = .any → Halts z i φ' p p'
  splits : ∀ us id, us.length < m → (∀ u ∈ us, u.kind.agrees .eof = false) →
    Splits z i φ' us (p (before us z.last id)) (p' (before (us ++ [z.last]) z.eof id))
      (p' (before us z.eof id))

variable {z} {m i j : Nat} {φ φ' φ'' : Phase} {x y w : EStateM.Result SyntaxError Cursor α}

theorem Splits.mono {i' : Nat} (splits : Splits z i φ us x y w) (le : i' ≤ i) :
    Splits z i' φ us x y w := by
  cases splits with
  | along o vs id unended le' passed without behind instead =>
    refine .along o vs id unended le' (fun a ok => ?_) without behind instead
    have := passed a ok
    omega
  | apart o id passed without other =>
    exact .apart o id (fun a ok => (passed a ok).imp (Nat.le_trans le) fun any => any) without other

theorem Splits.any (splits : Splits z i φ us x y w) : Splits z i .any us x y w := by
  cases splits with
  | along o vs id unended le passed without behind instead =>
    exact .along o vs id unended le passed without behind instead
  | apart o id passed without other =>
    exact .apart o id (fun a ok => ⟨(passed a ok).1, rfl⟩) without other

/-- What is behind the last token matters only if that is a literal. -/
theorem Splits.behind {y' : EStateM.Result SyntaxError Cursor α} (splits : Splits z i φ us x y' w)
    (same : z.IsLiteral → y = y') : Splits z i φ us x y w := by
  cases splits with
  | along o vs id unended le passed without behind instead =>
    exact .along o vs id unended le passed without
      (fun isLiteral => (same isLiteral).trans (behind isLiteral)) instead
  | apart o id passed without other =>
    refine .apart o id passed without (other.imp (fun ⟨isLiteral, here⟩ => ?_) fun here => here)
    exact ⟨isLiteral, (same isLiteral).trans here⟩

/-- Behind a run that has passed tokens. -/
theorem Splits.after {vs : List Token} (splits : Splits z j φ vs x y w)
    (passed : vs.length + i ≤ us.length) : Splits z (i + j) φ us x y w := by
  cases splits with
  | along o ws id unended le passed' without behind instead =>
    refine .along o ws id unended (by omega) (fun a ok => ?_) without behind instead
    have := passed' a ok
    omega
  | apart o id passed' without other =>
    refine .apart o id (fun a ok => ?_) without other
    obtain ⟨few, any⟩ := passed' a ok
    exact ⟨by omega, any⟩

/-- Where all three stay where they are. -/
theorem splits_here (o : Except SyntaxError α) (id : Nat) (none : ∀ a, o = .ok a → i = 0)
    (unended : ∀ u ∈ us, u.kind.agrees .eof = false) :
    Splits z i φ us (ending o (before us z.last id))
      (ending o (before (us ++ [z.last]) z.eof id)) (ending o (before us z.eof id)) :=
  .along o us id unended (Nat.le_refl _) (fun a ok => by rw [none a ok]; exact Nat.le_refl _) rfl
    (fun _ => rfl) rfl

/-! ## The rules -/

/-- On the last token, and at an end in its place, both rules do the same and stay there. -/
theorem Halts.of_eq {p p' q q' : Parser α} (halts : Halts z i φ q q')
    (here : ∀ id, p (before [] z.last id) = q (before [] z.last id))
    (there : ∀ id, p' (before [] z.eof id) = q' (before [] z.eof id)) : Halts z i φ p p' := by
  intro id
  rw [here, there]
  exact halts id

/-- Behind a rule which stays where it is, there is another. -/
theorem Halts.bind {p p' : Parser α} {f f' : α → Parser β} (first : Halts z i φ p p')
    (second : i = 0 → φ = .any → ∀ a, Halts z j φ' (f a) (f' a)) :
    Halts z (i + j) φ' (p >>= f) (p' >>= f') := by
  intro id
  obtain ⟨o, id', stays, here, there⟩ := first id
  cases o with
  | error e => exact ⟨.error e, id', nofun, bind_of_error here, bind_of_error there⟩
  | ok a =>
    obtain ⟨none, any⟩ := stays a rfl
    obtain ⟨o, id'', stays', here', there'⟩ := second none any a id'
    refine ⟨o, id'', fun b ok => ?_, (bind_of_ok here).trans here', (bind_of_ok there).trans there'⟩
    obtain ⟨none', any'⟩ := stays' b ok
    exact ⟨by omega, any'⟩

/-- Where the first run is on the last token, it goes with one of the others from there on. -/
theorem Halts.splits {p p' : Parser α} (halts : Halts z j φ p p') (few : j = 0 → i ≤ us.length + 1)
    {id : Nat} (without : x = p (before [] z.last id))
    (other : z.IsLiteral ∧ y = p' (before [] z.eof id) ∨ w = p' (before [] z.eof id)) :
    Splits z i φ us x y w := by
  obtain ⟨o, id', stays, here, there⟩ := halts id
  refine .apart o id' (fun a ok => ⟨few (stays a ok).1, (stays a ok).2⟩) (without.trans here) ?_
  exact other.imp (fun ⟨isLiteral, same⟩ => ⟨isLiteral, same.trans there⟩) fun same => same.trans there

/-- Behind a boundary there are the same tokens, whether or not there is one more at the end. -/
theorem boundary_append (previous t : Token) (us : List Token) :
    boundary previous (us ++ [t]) = boundary previous us ++ [t] ∨ boundary previous us = [] := by
  induction us generalizing previous with
  | nil => exact .inr rfl
  | cons u us ih =>
    unfold boundary
    rw [List.cons_append]
    dsimp only
    split
    · exact .inl rfl
    · exact ih u

theorem resynchronized_append (t : Token) (us : List Token) :
    resynchronized (us ++ [t]) = resynchronized us ++ [t] ∨ resynchronized us = [] := by
  cases us with
  | nil => exact .inr rfl
  | cons u us => exact boundary_append u t us

theorem line_eof (us : List Token) (id : Nat) :
    (before us z.eof id).current.line = (before us z.last id).current.line := by
  cases us with
  | nil => exact z.sameLine
  | cons u us => rfl

theorem line_behind (us : List Token) (id : Nat) :
    (before (us ++ [z.last]) z.eof id).current.line = (before us z.last id).current.line := by
  cases us with
  | nil => rfl
  | cons u us => rfl

/-- Behind runs that part, the next ones do. -/
theorem Splits.bind {p p' : Parser α} {f f' : α → Parser β}
    {id : Nat} (splits : Splits z i φ us (p (before us z.last id))
      (p' (before (us ++ [z.last]) z.eof id)) (p' (before us z.eof id)))
    (second : ∀ k, k + i ≤ us.length + 1 → ∀ a, Parts z k j φ φ' (f a) (f' a)) :
    Splits z (i + j) φ' us ((p >>= f) (before us z.last id))
      ((p' >>= f') (before (us ++ [z.last]) z.eof id)) ((p' >>= f') (before us z.eof id)) := by
  cases splits with
  | along o vs id' unended le passed without behind instead =>
    cases o with
    | error e =>
      exact .along (.error e) vs id' unended le nofun (bind_of_error without)
        (fun isLiteral => bind_of_error (behind isLiteral)) (bind_of_error instead)
    | ok a =>
      have few := passed a rfl
      have next := (second (vs.length + 1) (by omega) a).splits vs id' (Nat.lt_succ_self _) unended
      rw [bind_of_ok without, bind_of_ok instead]
      exact (next.after few).behind fun isLiteral => bind_of_ok (behind isLiteral)
  | apart o id' passed without other =>
    cases o with
    | error e =>
      refine .apart (.error e) id' nofun (bind_of_error without) ?_
      exact other.imp (fun ⟨isLiteral, here⟩ => ⟨isLiteral, bind_of_error here⟩) bind_of_error
    | ok a =>
      obtain ⟨few, any⟩ := passed a rfl
      refine ((second 0 (by omega) a).halts any).splits (fun none => by omega)
        (bind_of_ok without) ?_
      exact other.imp (fun ⟨isLiteral, here⟩ => ⟨isLiteral, bind_of_ok here⟩) fun here =>
        bind_of_ok here

/-- A rule that recovers from its faults ends as without, but goes on at a boundary. -/
theorem recovering_of_ending {p : Parser α} {o : Except SyntaxError α} {c : Cursor}
    {us : List Token} (unended : ∀ u ∈ us, u.kind.agrees .eof = false)
    (ends : p c = ending o (before us last id)) :
    recovering p c = ending o (before (if o.isOk then us else resynchronized us) last id) := by
  unfold recovering
  rw [ends]
  cases o with
  | ok a => rfl
  | error e =>
    show EStateM.Result.error e (before us last id).synchronized = _
    rw [synchronized_before unended]
    rfl

theorem recovering_at_last {p : Parser α} {o : Except SyntaxError α} {c : Cursor}
    (ends : p c = ending o (before [] last id)) :
    recovering p c = ending o (before [] last id) := by
  rw [recovering_of_ending (fun u member => absurd member List.not_mem_nil) ends]
  cases o <;> rfl

/-- After a fault all three go on at the same boundary, or the first two are at their ends. -/
theorem Splits.recovering {p p' : Parser α} {id : Nat}
    (splits : Splits z i φ us (p (before us z.last id))
      (p' (before (us ++ [z.last]) z.eof id)) (p' (before us z.eof id))) :
    Splits z i φ us (recovering p (before us z.last id))
      (recovering p' (before (us ++ [z.last]) z.eof id)) (recovering p' (before us z.eof id)) := by
  cases splits with
  | along o vs id' unended le passed without behind instead =>
    have without' := recovering_of_ending unended without
    have instead' := recovering_of_ending unended instead
    have unended' : ∀ v ∈ vs ++ [z.last], v.kind.agrees .eof = false := by
      simpa [or_imp, forall_and] using And.intro unended z.unended
    cases o with
    | ok a =>
      exact .along (.ok a) vs id' unended le passed without'
        (fun isLiteral => recovering_of_ending unended' (behind isLiteral)) instead'
    | error e =>
      rcases resynchronized_append z.last vs with more | none
      · have shorter : resynchronized vs <:+ vs := resynchronized_suffix 1 vs
        refine .along (.error e) (resynchronized vs) id' (fun v member => ?_) ?_ nofun without'
          (fun isLiteral => ?_) instead'
        · exact unended v (shorter.subset member)
        · exact Nat.le_trans shorter.length_le le
        · exact more ▸ recovering_of_ending unended' (behind isLiteral)
      · -- At the end of its list the third may have passed the last token, read or not.
        exact .apart (.error e) id' nofun (none ▸ without') (.inr (none ▸ instead'))
  | apart o id' passed without other =>
    refine .apart o id' passed (recovering_at_last without) ?_
    exact other.imp (fun ⟨isLiteral, here⟩ => ⟨isLiteral, recovering_at_last here⟩)
      recovering_at_last

namespace Parts

variable {p p' : Parser α}

theorem mono {m' i' : Nat} (related : Parts z m i φ φ' p p') (few : m' ≤ m) (passed : i' ≤ i) :
    Parts z m' i' φ φ' p p' where
  halts any id := by
    obtain ⟨o, id', stays, here, there⟩ := related.halts any id
    refine ⟨o, id', fun a ok => ?_, here, there⟩
    obtain ⟨none, any'⟩ := stays a ok
    exact ⟨by omega, any'⟩
  splits us id lt unended :=
    (related.splits us id (Nat.lt_of_lt_of_le lt few) unended).mono passed

theorem leave (related : Parts z m i φ φ' p p') : Parts z m i φ .any p p' where
  halts any id := by
    obtain ⟨o, id', stays, here, there⟩ := related.halts any id
    exact ⟨o, id', fun a ok => ⟨(stays a ok).1, rfl⟩, here, there⟩
  splits us id lt unended := (related.splits us id lt unended).any

theorem fail (cause : SyntaxError.Cause) :
    Parts z m i φ φ' (fail cause : Parser α) (fail cause) where
  halts any id := by
    refine ⟨.error ⟨cause, z.last.line⟩, id, nofun, rfl, ?_⟩
    rw [← z.sameLine]
    rfl
  splits us id lt unended := by
    unfold Parser.fail
    rw [line_behind, line_eof]
    exact splits_here (.error _) id nofun unended

theorem line {f f' : Token → Parser α}
    (onLine : ∀ t t', t.line = t'.line → f t = f t' ∧ f' t = f' t')
    (rest : ∀ t, Parts z m i φ φ' (f t) (f' t)) :
    Parts z m i φ φ' (peek >>= f) (peek >>= f') where
  halts any id := by
    have same : f' z.eof = f' z.last := (onLine z.eof z.last z.sameLine).2
    obtain ⟨o, id', stays, here, there⟩ := (rest z.last).halts any id
    exact ⟨o, id', stays, here, (congrFun same _).trans there⟩
  splits us id lt unended := by
    let t := (before us z.last id).current
    show Splits z _ _ us (f t _) (f' (before (us ++ [z.last]) z.eof id).current _)
      (f' (before us z.eof id).current _)
    rw [(onLine _ t (line_behind us id)).2, (onLine _ t (line_eof us id)).2]
    exact (rest t).splits us id lt unended

theorem isAt {f f' : Bool → Parser α} {kind : Kind} (isWord : kind.isWord = true)
    (yes : Parts z m i φ φ' (f true) (f' true)) (no : Parts z m i φ φ' (f false) (f' false)) :
    Parts z m i φ φ' (isAt kind >>= f) (isAt kind >>= f') where
  halts any := (no.halts any).of_eq (isAt_at_last kind isWord f z.last)
    (isAt_at_last kind isWord f' z.eof)
  splits us id lt unended := by
    cases us with
    | nil =>
      rw [isAt_at_last kind isWord, isAt_at_last kind isWord]
      refine (no.splits [] id lt unended).behind fun isLiteral => ?_
      exact bind_of_ok (isAt_elsewhere kind isWord (isLiteral.ne isWord))
    | cons u us =>
      rw [List.cons_append, isAt_then isWord, isAt_then isWord, isAt_then isWord]
      cases u.kind.agrees kind with
      | true => exact yes.splits (u :: us) id lt unended
      | false => exact no.splits (u :: us) id lt unended

/-- A test for the end sees the last token, and then the third run goes its own way. -/
theorem atEnd {f f' : Bool → Parser α} (yes : Parts z m i .any φ' (f true) (f' true))
    (no : Parts z m i φ φ' (f false) (f' false)) :
    Parts z m i φ φ' (atEnd >>= f) (atEnd >>= f') where
  halts any := (yes.halts rfl).of_eq (atEnd_at_last f z.last) (atEnd_at_last f' z.eof)
  splits us id lt unended := by
    cases us with
    | nil =>
      exact (yes.halts rfl).splits (fun none => by omega) (atEnd_at_last f z.last id)
        (.inr (atEnd_at_last f' z.eof id))
    | cons u us =>
      have first := unended u List.mem_cons_self
      rw [List.cons_append, atEnd_then first, atEnd_then first, atEnd_then first]
      exact no.splits (u :: us) id lt unended

/-- Nothing is taken from the last token: at the end because it is the end, and behind it because it
is a literal. -/
theorem idle {reading : Token → Option γ} {f' : Option γ → Parser α} (blind : Blind reading)
    (last : m ≤ 1) (no : Parts z m i φ φ' p (f' none)) :
    Parts z m i φ φ' p (take? reading >>= f') where
  halts any := (no.halts any).of_eq (fun _ => rfl) (take?_at_last reading f' z.eof)
  splits us id lt unended := by
    obtain rfl : us = [] := List.length_eq_zero_iff.mp (by omega)
    rw [take?_at_last]
    exact (no.splits [] id lt unended).behind fun isLiteral =>
      take?_then_none (blind z.last isLiteral)

theorem take {reading : Token → Option γ} {f f' : Option γ → Parser α} (blind : Blind reading)
    (few : i ≤ 1) (yes : ∀ k < m, ∀ a, Parts z k 0 .unread φ' (f (some a)) (f' (some a)))
    (no : Parts z m i φ φ' (f none) (f' none)) :
    Parts z m i φ φ' (take? reading >>= f) (take? reading >>= f') where
  halts any := (no.halts any).of_eq (take?_at_last reading f z.last)
    (take?_at_last reading f' z.eof)
  splits us id lt unended := by
    cases us with
    | nil =>
      rw [take?_at_last, take?_at_last]
      exact (no.splits [] id lt unended).behind fun isLiteral =>
        take?_then_none (blind z.last isLiteral)
    | cons u us =>
      have first := unended u List.mem_cons_self
      have later : ∀ t ∈ us, t.kind.agrees .eof = false :=
        fun t member => unended t (List.mem_cons_of_mem u member)
      rw [List.cons_append]
      cases means : reading u with
      | some a =>
        rw [take?_then_some first means, take?_then_some first means, take?_then_some first means]
        have next := (yes (us.length + 1) lt a).splits us id (Nat.lt_succ_self _) later
        exact (next.after (i := 1) (Nat.le_refl _)).mono few
      | none =>
        rw [take?_then_none means, take?_then_none means, take?_then_none means]
        exact no.splits (u :: us) id lt unended

/-- A literal is read on the last token too, and then the second run goes its own way. -/
theorem literal {f f' : Option Literal → Parser α} (few : i ≤ 1)
    (yes : ∀ k < m, ∀ a, Parts z k 0 .any φ' (f (some a)) (f' (some a)))
    (no : Parts z m i .unread φ' (f none) (f' none)) :
    Parts z m i .unread φ' (literal? >>= f) (literal? >>= f') where
  halts := nofun
  splits us id lt unended := by
    cases us with
    | nil =>
      cases isLiteral : z.last.kind.literal? with
      | some value =>
        refine ((yes 0 lt value).halts rfl).splits (fun _ => few)
          (bind_of_ok (literal?_before_last isLiteral))
          (.inl ⟨?_, literal?_then_some z.unended isLiteral⟩)
        exact Option.isSome_of_eq_some isLiteral
      | none =>
        rw [literal?_then_none (c := before [] z.last id) isLiteral,
          literal?_then_none (c := before [] z.eof id) z.eof_literal]
        refine (no.splits [] id lt unended).behind fun contra => ?_
        rw [Ending.IsLiteral, isLiteral] at contra
        cases contra
    | cons u us =>
      have first := unended u List.mem_cons_self
      have later : ∀ t ∈ us, t.kind.agrees .eof = false :=
        fun t member => unended t (List.mem_cons_of_mem u member)
      rw [List.cons_append]
      cases isLiteral : u.kind.literal? with
      | some value =>
        rw [literal?_then_some first isLiteral, literal?_then_some first isLiteral,
          literal?_then_some first isLiteral]
        have next := (yes (us.length + 1) lt value).splits us id (Nat.lt_succ_self _) later
        exact (next.after (i := 1) (Nat.le_refl _)).mono few
      | none =>
        have left (us : List Token) (last : Token) (f : Option Literal → Parser α) :
            (literal? >>= f) (before (u :: us) last id) = f none (before (u :: us) last id) :=
          literal?_then_none isLiteral
        rw [left, left, left]
        exact no.splits (u :: us) id lt unended

theorem recovering (related : Parts z m i φ φ' p p') :
    Parts z m i φ φ' (recovering p) (recovering p') where
  halts any id := by
    obtain ⟨o, id', stays, here, there⟩ := related.halts any id
    exact ⟨o, id', stays, recovering_at_last here, recovering_at_last there⟩
  splits us id lt unended := (related.splits us id lt unended).recovering

end Parts

/-- **All rules part in no other way.** -/
theorem parts : Congruence (@Parts z) where
  mono := Parts.mono
  enter related := { halts _ := related.halts rfl, splits := related.splits }
  leave := Parts.leave
  vacant p p' := { halts := nofun, splits us id lt := absurd lt (Nat.not_lt_zero _) }
  pure a :=
    { halts any id := ⟨.ok a, id, fun _ _ => ⟨rfl, any⟩, rfl, rfl⟩
      splits us id lt unended := splits_here (.ok a) id (fun _ _ => rfl) unended }
  fail := Parts.fail
  throw e :=
    { halts any id := ⟨.error e, id, nofun, rfl, rfl⟩
      splits us id lt unended := splits_here (.error e) id nofun unended }
  bind first second :=
    { halts any := (first.halts any).bind fun none any' a => (second 0 (by omega) a).halts any'
      splits us id lt unended :=
        (first.splits us id lt unended).bind fun k few => second k (by omega) }
  freshId :=
    { halts any id := ⟨.ok (id % idCount), id + 1, fun _ _ => ⟨rfl, any⟩, rfl, rfl⟩
      splits us id lt unended :=
        .along (.ok (id % idCount)) us (id + 1) unended (Nat.le_refl _) (fun _ _ => Nat.le_refl _)
          freshId_before (fun _ => freshId_before) freshId_before }
  line := Parts.line
  isAt := Parts.isAt
  atEnd := Parts.atEnd
  take := Parts.take
  idle := Parts.idle
  literal := Parts.literal
  recovering := Parts.recovering

/-! ## Programs -/

variable {bound n : Nat} {ts : List Token}

/-- The loop over the declarations goes with one of the other two, and with that behind the last token
only if a fault is found. -/
theorem declarations_part (us : List Token) (id : NodeId) (read : List Stmt)
    (faults : List SyntaxError) (unended : ∀ u ∈ us, u.kind.agrees .eof = false)
    (above : us.length < bound) (enough : us.length < n) :
    ∃ program all d, declarations bound n read faults (before us z.last id) = (program, all, d) ∧
      ((∃ d', declarations bound n read faults (before us z.eof id) = (program, all, d') ∧
          d'.nextId = d.nextId) ∨
        z.IsLiteral ∧ all ≠ [] ∧
          ∃ d', declarations bound n read faults (before (us ++ [z.last]) z.eof id)
              = (program, all, d') ∧ d'.nextId = d.nextId) := by
  induction n generalizing us id read faults with
  | zero => exact absurd enough (Nat.not_lt_zero _)
  | succ n ih =>
    cases us with
    | nil =>
      rw [declarations_ended _ read faults atEnd_before_nil,
        declarations_ended _ read faults atEnd_before_nil]
      exact ⟨_, _, _, rfl, .inl ⟨_, rfl, rfl⟩⟩
    | cons u us =>
      have within (vs : List Token) (last : Token) : (before (u :: vs) last id).atEnd = false :=
        atEnd_before (unended u List.mem_cons_self)
      have runs := (parts (z := z)).declaration (m := us.length + 2) above (Nat.le_refl bound)
      rw [List.cons_append]
      -- The three runs either stay together up to a later place, or part here at the last token.
      cases runs.splits (u :: us) id (Nat.lt_succ_self _) unended with
      | along o vs id' unended' le passed without behind instead =>
        rw [List.length_cons] at above enough le
        cases o with
        | ok s =>
          have fewer := passed s rfl
          rw [List.length_cons] at fewer
          obtain ⟨program, all, d, run, others⟩ :=
            ih vs id' (s :: read) faults unended' (by omega) (by omega)
          rw [declarations_of_ok (within _ _) without, declarations_of_ok (within _ _) instead]
          refine ⟨program, all, d, run, others.imp_right ?_⟩
          rintro ⟨isLiteral, found, d', run', same⟩
          exact ⟨isLiteral, found, d',
            (declarations_of_ok (within _ _) (behind isLiteral)).trans run', same⟩
        | error e =>
          -- What is refused has passed a token, which is seen on the first of the three.
          have few : (before (u :: us) z.last id).rest.length < bound := by
            rw [rest_before]
            exact above
          have fewer := (further_of_error_within few (within _ _) without).2
          rw [rest_before, rest_before, List.length_cons] at fewer
          obtain ⟨program, all, d, run, others⟩ :=
            ih vs id' read (e :: faults) unended' (by omega) (by omega)
          rw [declarations_of_error (within _ _) without,
            declarations_of_error (within _ _) instead]
          refine ⟨program, all, d, run, others.imp_right ?_⟩
          rintro ⟨isLiteral, found, d', run', same⟩
          exact ⟨isLiteral, found, d',
            (declarations_of_error (within _ _) (behind isLiteral)).trans run', same⟩
      | apart o id' passed without other =>
        cases o with
        | ok s => cases (passed s rfl).2
        | error e =>
          have stops (last : Token) : declarations bound n read (e :: faults) (before [] last id')
              = (read.reverse, (e :: faults).reverse, before [] last id') :=
            declarations_ended n read (e :: faults) atEnd_before_nil
          refine ⟨_, _, _, (declarations_of_error (within _ _) without).trans (stops z.last), ?_⟩
          rcases other with ⟨isLiteral, behind⟩ | instead
          · have found : (e :: faults).reverse ≠ [] := by simp
            exact .inr ⟨isLiteral, found, _,
              (declarations_of_error (within _ _) behind).trans (stops z.eof), rfl⟩
          · exact .inl ⟨_, (declarations_of_error (within _ _) instead).trans (stops z.eof), rfl⟩

theorem exists_start (us : List Token) (last : Token) (id : NodeId) :
    ∃ first rest, us ++ [last] = first :: rest ∧ start first rest id = before us last id ∧
      rest.length = us.length := by
  cases us with
  | nil => exact ⟨last, [], rfl, rfl, rfl⟩
  | cons u us => exact ⟨u, us ++ [last], rfl, rfl, List.length_append⟩

/-- A program is what the loop over its declarations gives, within any bounds that suffice. -/
theorem parse_before (us : List Token) (last : Token) (id : NodeId) {program : List Stmt}
    {faults : List SyntaxError} {d : Cursor} (above : us.length < bound) (enough : us.length ≤ n)
    (run : declarations bound n [] [] (before us last id) = (program, faults, d)) :
    parse (us ++ [last]) id
      = ⟨if faults.isEmpty then .ok program else .error faults, d.nextId % idCount⟩ := by
  obtain ⟨first, rest, here, starts, length⟩ := exists_start us last id
  obtain ⟨program', faults', d', parsed, all, -⟩ := parse_advances first rest id
  have same := all bound n (by omega) (by omega)
  rw [starts, run] at same
  cases same
  rw [here, parsed]

theorem parse_parts (unended : ∀ t ∈ ts, t.kind.agrees .eof = false) (id : NodeId) :
    parse (ts ++ [z.last]) id = parse (ts ++ [z.eof]) id ∨
      z.IsLiteral ∧ (∀ program, (parse (ts ++ [z.last]) id).outcome ≠ .ok program) ∧
        parse (ts ++ [z.last]) id = parse (ts ++ [z.last, z.eof]) id := by
  have above : ts.length < ts.length + 2 := by omega
  obtain ⟨program, faults, d, run, others⟩ :=
    declarations_part (z := z) ts id [] [] unended above above
  have without := parse_before ts z.last id above (Nat.le_of_lt above) run
  rcases others with ⟨d', run', same⟩ | ⟨isLiteral, found, d', run', same⟩
  · left
    rw [without, parse_before ts z.eof id above (Nat.le_of_lt above) run', same]
  · right
    have length : (ts ++ [z.last]).length = ts.length + 1 := List.length_append
    have behind := parse_before (ts ++ [z.last]) z.eof id (by omega) (by omega) run'
    rw [List.append_assoc, List.singleton_append] at behind
    refine ⟨isLiteral, fun program' => ?_, by rw [without, behind, same]⟩
    rw [without, List.isEmpty_eq_false_iff.mpr found]
    exact nofun

/-! ## Single expressions -/

theorem wholeExpression_of_error {c d : Cursor} {e : SyntaxError}
    (failed : expression bound c = .error e d) :
    wholeExpression bound c = ending (.error e) d :=
  bind_of_error failed

theorem wholeExpression_of_last {c : Cursor} {e : Expr}
    (read : expression bound c = .ok e (before [] last id)) :
    wholeExpression bound c = ending (.ok e) (before [] last id) :=
  (bind_of_ok read).trans (atEnd_at_last _ last id)

theorem wholeExpression_of_cons {c : Cursor} {e : Expr} (unended : u.kind.agrees .eof = false)
    (read : expression bound c = .ok e (before (u :: us) last id)) :
    wholeExpression bound c
      = ending (.error ⟨.afterExpression u.lexeme, u.line⟩) (before (u :: us) last id) :=
  (bind_of_ok read).trans (bind_of_ok (atEnd_within unended))

/-- The reading of a single expression goes with one of the other two. -/
theorem wholeExpression_part (us : List Token) (id : NodeId)
    (unended : ∀ u ∈ us, u.kind.agrees .eof = false) (above : us.length < bound) :
    ∃ o d, wholeExpression bound (before us z.last id) = ending o d ∧
      ((∃ d', wholeExpression bound (before us z.eof id) = ending o d' ∧ d'.nextId = d.nextId) ∨
        z.IsLiteral ∧ ∃ d', wholeExpression bound (before (us ++ [z.last]) z.eof id) = ending o d' ∧
          d'.nextId = d.nextId) := by
  have runs := (parts (z := z)).expression (m := us.length + 1) above (Nat.le_refl bound)
  cases runs.splits us id (Nat.lt_succ_self _) unended with
  | along o vs id' unended' le passed without behind instead =>
    cases o with
    | error e =>
      exact ⟨_, _, wholeExpression_of_error without,
        .inl ⟨_, wholeExpression_of_error instead, by cases vs <;> rfl⟩⟩
    | ok e =>
      cases vs with
      | nil =>
        exact ⟨_, _, wholeExpression_of_last without, .inl ⟨_, wholeExpression_of_last instead, rfl⟩⟩
      | cons v vs =>
        have first := unended' v List.mem_cons_self
        exact ⟨_, _, wholeExpression_of_cons first without,
          .inl ⟨_, wholeExpression_of_cons first instead, rfl⟩⟩
  | apart o id' passed without other =>
    cases o with
    | error e =>
      refine ⟨_, _, wholeExpression_of_error without, other.symm.imp (fun instead => ?_) ?_⟩
      · exact ⟨_, wholeExpression_of_error instead, rfl⟩
      · exact fun ⟨isLiteral, behind⟩ => ⟨isLiteral, _, wholeExpression_of_error behind, rfl⟩
    | ok e =>
      refine ⟨_, _, wholeExpression_of_last without, other.symm.imp (fun instead => ?_) ?_⟩
      · exact ⟨_, wholeExpression_of_last instead, rfl⟩
      · exact fun ⟨isLiteral, behind⟩ => ⟨isLiteral, _, wholeExpression_of_last behind, rfl⟩

/-- A single expression is what is read within any bound that suffices. -/
theorem parseExpression_before (us : List Token) (last : Token) (id : NodeId)
    {o : Except SyntaxError Expr} {d : Cursor} (above : us.length < bound)
    (run : wholeExpression bound (before us last id) = ending o d) :
    parseExpression (us ++ [last]) id = ⟨o, d.nextId % idCount⟩ := by
  obtain ⟨first, rest, here, starts, length⟩ := exists_start us last id
  have within : (start first rest id).rest.length < rest.length + 1 := Nat.lt_succ_self rest.length
  have le : rest.length + 1 ≤ bound := by omega
  have least := (wholeExpression_advances within le).1
  rw [starts, run] at least
  rw [here]
  unfold parseExpression
  dsimp only [List.length_cons]
  rw [starts, ← least]
  cases o <;> rfl

theorem parseExpression_parts (unended : ∀ t ∈ ts, t.kind.agrees .eof = false) (id : NodeId) :
    parseExpression (ts ++ [z.last]) id = parseExpression (ts ++ [z.eof]) id ∨
      z.IsLiteral ∧
        parseExpression (ts ++ [z.last]) id = parseExpression (ts ++ [z.last, z.eof]) id := by
  have above : ts.length < ts.length + 2 := by omega
  obtain ⟨o, d, run, others⟩ := wholeExpression_part (z := z) ts id unended above
  have without := parseExpression_before ts z.last id above run
  rcases others with ⟨d', run', same⟩ | ⟨isLiteral, d', run', same⟩
  · left
    rw [without, parseExpression_before ts z.eof id above run', same]
  · right
    have length : (ts ++ [z.last]).length = ts.length + 1 := List.length_append
    have behind := parseExpression_before (ts ++ [z.last]) z.eof id (by omega) run'
    rw [List.append_assoc, List.singleton_append] at behind
    exact ⟨isLiteral, by rw [without, behind, same]⟩

/-- **The last token stands for the end.** A list of tokens that lacks the end of the input is read as
if its last token were the end, on the same line. Only if that token is a literal it may be read, and
then the list is read as if the end followed it: as an expression, or as a program in which a fault is
found. So what is accepted as a program is accepted without its last token. -/
theorem last_token_stands_for_the_end (z : Ending) (ts : List Token)
    (unended : ∀ t ∈ ts, t.kind.agrees .eof = false) (id : NodeId) :
    (parse (ts ++ [z.last]) id = parse (ts ++ [z.eof]) id ∨
      z.IsLiteral ∧ parse (ts ++ [z.last]) id = parse (ts ++ [z.last, z.eof]) id) ∧
    (parseExpression (ts ++ [z.last]) id = parseExpression (ts ++ [z.eof]) id ∨
      z.IsLiteral ∧
        parseExpression (ts ++ [z.last]) id = parseExpression (ts ++ [z.last, z.eof]) id) ∧
    ∀ program, (parse (ts ++ [z.last]) id).outcome = .ok program →
      parse (ts ++ [z.last]) id = parse (ts ++ [z.eof]) id := by
  have ofProgram := parse_parts (z := z) unended id
  refine ⟨?_, parseExpression_parts unended id, fun program ok => ?_⟩
  · rcases ofProgram with same | ⟨isLiteral, -, same⟩
    · exact .inl same
    · exact .inr ⟨isLiteral, same⟩
  · rcases ofProgram with same | ⟨-, refused, -⟩
    · exact same
    · exact absurd ok (refused program)

/-- The semicolon of a statement is not read where it is the last token. -/
theorem semicolon_stands_for_the_end :
    let print : Token := ⟨.keyword .print, "print", 1⟩
    let x : Token := ⟨.identifier, "x", 1⟩
    let stop : Token := ⟨.punctuation .semicolon, ";", 1⟩
    let eof : Token := ⟨.eof, "", 1⟩
    (∀ t ∈ [print, x], t.kind.agrees .eof = false) ∧
      parse [print, x, stop] 0 = parse [print, x, eof] 0 := by
  intro print x stop eof
  have unended : ∀ t ∈ [print, x], t.kind.agrees .eof = false := by decide
  refine ⟨unended, ?_⟩
  rcases (last_token_stands_for_the_end ⟨stop, eof, rfl, rfl, rfl⟩ [print, x] unended 0).1 with
    same | ⟨isLiteral, -⟩
  · exact same
  · cases isLiteral

/-- Without an end, a statement is refused for want of the semicolon that it has, a token behind a
statement is passed over, and so is one behind an expression. -/
theorem end_is_missed :
    let print : Token := ⟨.keyword .print, "print", 1⟩
    let x : Token := ⟨.identifier, "x", 1⟩
    let y : Token := ⟨.identifier, "y", 1⟩
    let stop : Token := ⟨.punctuation .semicolon, ";", 1⟩
    let eof : Token := ⟨.eof, "", 1⟩
    (parse [print, x, stop] 0).outcome = .error [⟨.expected "';' after value", 1⟩] ∧
      (parse [print, x, stop, eof] 0).outcome = .ok [.print (.variable 0 ⟨"x", 1⟩)] ∧
      (parse [x, stop, y] 0).outcome = .ok [.expression (.variable 0 ⟨"x", 1⟩)] ∧
      (parse [x, stop, y, eof] 0).outcome = .error [⟨.expected "';' after expression", 1⟩] ∧
      (parseExpression [x, y] 0).outcome = .ok (.variable 0 ⟨"x", 1⟩) ∧
      (parseExpression [x, y, eof] 0).outcome = .error ⟨.afterExpression "y", 1⟩ :=
  ⟨rfl, rfl, rfl, rfl, rfl, rfl⟩

end Parser

end Lox
