import Lox.Proofs.Parser.Numbering
import Lox.Proofs.Relabelling.Trees

/-!
# Two cursors at a seam

The tokens of one source are parsed alone, and in front of the tokens of another. While the first
cursor stands inside its tokens both read the same. When the first has come to its end the second
stands over the seam, unless a rule looks there for more of an expression or a list: of such a rule
nothing is said of the second, and the closing mark that must follow is missing for the first.

So rules are of three sorts. An expression or a list `Carries` the cursors along, a rule with a
closing mark `Closes` what came before, and what may follow a closing mark `Ends` it. Each sort is
closed under sequencing, with the number of tokens ahead as the bound.
-/

set_option autoImplicit false

namespace Lox

/-- Where the tokens of a source, relabelled, go over into others, `next` and those after it. -/
structure Seam extends Relabelling where
  next : Token
  later : List Token
  next_ne_else : next.kind.agrees (.keyword .else) = false

namespace Cursor

/-- The cursor stands at the end of the input and nothing is behind it. -/
structure Done (c : Cursor) : Prop where
  current : c.current.kind.agrees .eof = true
  rest : c.rest = []

variable (σ : Seam)

/-- The ids that come next at one counter stand for those that come next at the other. -/
def Numbered (ρ : Relabelling) (n n' : Nat) : Prop :=
  ∀ j, ρ.id ((n + j) % Parser.idCount) = (n' + j) % Parser.idCount

/-- The first cursor stands before its end, and the second before the same tokens and the seam. -/
structure Inside (c c' : Cursor) : Prop where
  current : c'.current = c.current.relabel σ.toRelabelling
  unended : c.current.kind.agrees .eof = false
  rest : ∃ body last, c.rest = body ++ [last] ∧ (∀ t ∈ body, t.kind.agrees .eof = false) ∧
    last.kind.agrees .eof = true ∧
    c'.rest = body.map (Token.relabel σ.toRelabelling) ++ σ.next :: σ.later
  numbered : Numbered σ.toRelabelling c.nextId c'.nextId

/-- The first cursor is at its end, and the second right behind the seam. -/
structure Over (c c' : Cursor) : Prop where
  done : c.Done
  current : c'.current = σ.next
  rest : c'.rest = σ.later
  numbered : Numbered σ.toRelabelling c.nextId c'.nextId

variable {σ} {c c' : Cursor}

theorem Numbered.succ {ρ : Relabelling} {n n' : Nat} (numbered : Numbered ρ n n') :
    Numbered ρ (n + 1) (n' + 1) := by
  intro j
  have later := numbered (1 + j)
  rwa [← Nat.add_assoc, ← Nat.add_assoc] at later

theorem Done.atEnd (done : c.Done) : c.atEnd = true := by
  unfold Cursor.atEnd
  rw [done.current, Bool.true_or]

theorem Done.isAt (done : c.Done) (kind : Kind) : c.isAt kind = false := by
  unfold Cursor.isAt
  rw [done.atEnd, Bool.not_true, Bool.false_and]

theorem Done.moved (done : c.Done) : c.moved = c := by
  unfold Cursor.moved
  rw [if_pos done.current]

theorem Inside.atEnd (inside : Inside σ c c') : c.atEnd = false := by
  obtain ⟨body, last, rest, -⟩ := inside.rest
  unfold Cursor.atEnd
  rw [inside.unended, rest, Bool.false_or, List.isEmpty_eq_false_iff]
  exact List.append_ne_nil_of_right_ne_nil body (List.cons_ne_nil last [])

theorem Inside.kind (inside : Inside σ c c') : c'.current.kind = c.current.kind := by
  rw [inside.current]
  rfl

theorem Inside.atEnd_second (inside : Inside σ c c') : c'.atEnd = false := by
  obtain ⟨body, last, -, -, -, rest⟩ := inside.rest
  unfold Cursor.atEnd
  rw [inside.kind, inside.unended, rest, Bool.false_or, List.isEmpty_eq_false_iff]
  exact List.append_ne_nil_of_right_ne_nil _ (List.cons_ne_nil σ.next σ.later)

theorem Inside.isAt (inside : Inside σ c c') (kind : Kind) : c'.isAt kind = c.isAt kind := by
  unfold Cursor.isAt
  rw [inside.atEnd, inside.atEnd_second, inside.kind]

theorem Inside.pos (inside : Inside σ c c') : 0 < c.rest.length := by
  obtain ⟨body, last, rest, -⟩ := inside.rest
  rw [rest, List.length_append, List.length_singleton]
  omega

/-- A move takes a token, and both cursors along. -/
theorem Inside.moved (inside : Inside σ c c') :
    c.moved.rest.length < c.rest.length ∧
      (Inside σ c.moved c'.moved ∨ Over σ c.moved c'.moved) := by
  have shorter := rest_moved c
  rw [inside.atEnd, if_neg Bool.false_ne_true] at shorter
  have pos := inside.pos
  refine ⟨by omega, ?_⟩
  obtain ⟨body, last, rest, unended, ended, rest'⟩ := inside.rest
  have unended' : c'.current.kind.agrees .eof = false := by rw [inside.kind, inside.unended]
  cases body with
  | nil =>
    right
    unfold Cursor.moved
    rw [inside.unended, unended', rest, rest']
    exact ⟨⟨ended, rfl⟩, rfl, rfl, inside.numbered⟩
  | cons t body =>
    left
    unfold Cursor.moved
    rw [inside.unended, unended', rest, rest']
    exact ⟨rfl, unended t List.mem_cons_self, ⟨body, last, rfl,
      fun other member => unended other (List.mem_cons_of_mem t member), ended, rfl⟩,
      inside.numbered⟩

end Cursor

namespace Parser

variable {α β γ : Type} (σ : Seam)

/-- Read inside the first tokens, up to `m` ahead, `p'` reads what `p` reads, unless `p` comes to
the end. -/
structure Carries (m : Nat) (g : α → α) (p p' : Parser α) : Prop where
  ended : ∀ c, c.Done → ∀ a c₁, p c = .ok a c₁ → c₁.Done
  inside : ∀ c c', c.Inside σ c' → c.rest.length ≤ m → ∀ a c₁, p c = .ok a c₁ →
    c₁.rest.length ≤ c.rest.length ∧
      (c₁.Done ∨ ∃ c₁', p' c' = .ok (g a) c₁' ∧ c₁.Inside σ c₁')

/-- Read inside the first tokens, up to `m` ahead, `p'` reads what `p` reads, and comes over the
seam if `p` comes to the end. At the end `p` fails. -/
structure Closes (m : Nat) (g : α → α) (p p' : Parser α) : Prop where
  ended : ∀ c, c.Done → ∀ a c₁, p c ≠ .ok a c₁
  inside : ∀ c c', c.Inside σ c' → c.rest.length ≤ m → ∀ a c₁, p c = .ok a c₁ →
    c₁.rest.length < c.rest.length ∧
      ∃ c₁', p' c' = .ok (g a) c₁' ∧ (c₁.Inside σ c₁' ∨ c₁.Over σ c₁')

/-- Read inside the first tokens, up to `m` ahead, or over the seam, `p'` reads what `p` reads. -/
def Ends (m : Nat) (g : α → α) (p p' : Parser α) : Prop :=
  ∀ c c', c.Inside σ c' ∨ c.Over σ c' → c.rest.length ≤ m → ∀ a c₁, p c = .ok a c₁ →
    c₁.rest.length ≤ c.rest.length ∧
      ∃ c₁', p' c' = .ok (g a) c₁' ∧ (c₁.Inside σ c₁' ∨ c₁.Over σ c₁')

variable {σ} {m : Nat} {g : α → α} {h : β → β} {p p' : Parser α} {f f' : α → Parser β}

/-! ## Sequencing -/

theorem Carries.mono {m' : Nat} (carries : Carries σ m g p p') (le : m' ≤ m) :
    Carries σ m' g p p' where
  ended := carries.ended
  inside c c' inside few := carries.inside c c' inside (Nat.le_trans few le)

theorem Closes.mono {m' : Nat} (closes : Closes σ m g p p') (le : m' ≤ m) :
    Closes σ m' g p p' where
  ended := closes.ended
  inside c c' inside few := closes.inside c c' inside (Nat.le_trans few le)

theorem Closes.ends (closes : Closes σ m g p p') : Ends σ m g p p' := by
  intro c c' meets few a c₁ ok
  rcases meets with inside | past
  · obtain ⟨shorter, same⟩ := closes.inside c c' inside few a c₁ ok
    exact ⟨Nat.le_of_lt shorter, same⟩
  · exact absurd ok (closes.ended c past.done a c₁)

/-- A rule that succeeds comes from one that does, with what follows it. -/
theorem bind_ok {q : Parser α} {f : α → Parser β} {c c₂ : Cursor} {b : β}
    (ok : (q >>= f) c = .ok b c₂) : ∃ a c₁, q c = .ok a c₁ ∧ f a c₁ = .ok b c₂ := by
  rw [bind_eq] at ok
  cases first : q c with
  | ok a c₁ =>
    rw [first] at ok
    exact ⟨a, c₁, rfl, ok⟩
  | error e c₁ =>
    rw [first] at ok
    cases ok

theorem bind_of_ok {q : Parser α} {f : α → Parser β} {c c₁ : Cursor} {a : α}
    (ok : q c = .ok a c₁) : (q >>= f) c = f a c₁ := by
  rw [bind_eq, ok]

theorem Carries.bind (first : Carries σ m g p p')
    (second : ∀ a, Carries σ m h (f a) (f' (g a))) : Carries σ m h (p >>= f) (p' >>= f') where
  ended c done b c₂ ok := by
    obtain ⟨a, c₁, ok₁, ok₂⟩ := bind_ok ok
    exact (second a).ended c₁ (first.ended c done a c₁ ok₁) b c₂ ok₂
  inside c c' inside few b c₂ ok := by
    obtain ⟨a, c₁, ok₁, ok₂⟩ := bind_ok ok
    obtain ⟨le, done | ⟨c₁', same, inside₁⟩⟩ := first.inside c c' inside few a c₁ ok₁
    · have done₂ := (second a).ended c₁ done b c₂ ok₂
      exact ⟨by rw [done₂.rest]; exact Nat.zero_le _, .inl done₂⟩
    · rw [bind_of_ok same]
      obtain ⟨le₂, after⟩ := (second a).inside c₁ c₁' inside₁ (Nat.le_trans le few) b c₂ ok₂
      exact ⟨Nat.le_trans le₂ le, after⟩

/-- A closing rule behind. -/
theorem Carries.closing (first : Carries σ m g p p')
    (second : ∀ a, Closes σ m h (f a) (f' (g a))) : Closes σ m h (p >>= f) (p' >>= f') where
  ended c done b c₂ ok := by
    obtain ⟨a, c₁, ok₁, ok₂⟩ := bind_ok ok
    exact (second a).ended c₁ (first.ended c done a c₁ ok₁) b c₂ ok₂
  inside c c' inside few b c₂ ok := by
    obtain ⟨a, c₁, ok₁, ok₂⟩ := bind_ok ok
    obtain ⟨le, done | ⟨c₁', same, inside₁⟩⟩ := first.inside c c' inside few a c₁ ok₁
    · exact absurd ok₂ ((second a).ended c₁ done b c₂)
    · rw [bind_of_ok same]
      obtain ⟨lt, after⟩ := (second a).inside c₁ c₁' inside₁ (Nat.le_trans le few) b c₂ ok₂
      exact ⟨Nat.lt_of_lt_of_le lt le, after⟩

/-- A closing rule in front, with fewer tokens ahead of what follows. -/
theorem Closes.bind (first : Closes σ m g p p')
    (second : ∀ a, Carries σ (m - 1) h (f a) (f' (g a))) :
    Carries σ m h (p >>= f) (p' >>= f') where
  ended c done b c₂ ok := by
    obtain ⟨a, c₁, ok₁, -⟩ := bind_ok ok
    exact absurd ok₁ (first.ended c done a c₁)
  inside c c' inside few b c₂ ok := by
    obtain ⟨a, c₁, ok₁, ok₂⟩ := bind_ok ok
    obtain ⟨lt, c₁', same, inside₁ | over₁⟩ := first.inside c c' inside few a c₁ ok₁
    · rw [bind_of_ok same]
      obtain ⟨le, after⟩ := (second a).inside c₁ c₁' inside₁ (by omega) b c₂ ok₂
      exact ⟨Nat.le_of_lt (Nat.lt_of_le_of_lt le lt), after⟩
    · have done₂ := (second a).ended c₁ over₁.done b c₂ ok₂
      exact ⟨by rw [done₂.rest]; exact Nat.zero_le _, .inl done₂⟩

theorem Closes.then (first : Closes σ m g p p')
    (second : ∀ a, Ends σ (m - 1) h (f a) (f' (g a))) :
    Closes σ m h (p >>= f) (p' >>= f') where
  ended c done b c₂ ok := by
    obtain ⟨a, c₁, ok₁, -⟩ := bind_ok ok
    exact absurd ok₁ (first.ended c done a c₁)
  inside c c' inside few b c₂ ok := by
    obtain ⟨a, c₁, ok₁, ok₂⟩ := bind_ok ok
    obtain ⟨lt, c₁', same, meets⟩ := first.inside c c' inside few a c₁ ok₁
    rw [bind_of_ok same]
    obtain ⟨le, after⟩ := second a c₁ c₁' meets (by omega) b c₂ ok₂
    exact ⟨Nat.lt_of_le_of_lt le lt, after⟩

/-- Where the first succeeds only at the end, nothing is said of the second. -/
theorem Carries.zero (ended : ∀ c, c.Done → ∀ a c₁, p c = .ok a c₁ → c₁.Done) :
    Carries σ 0 g p p' where
  ended := ended
  inside _ _ inside few := absurd inside.pos (Nat.not_lt.mpr few)

theorem Closes.zero (ended : ∀ c, c.Done → ∀ a c₁, p c ≠ .ok a c₁) : Closes σ 0 g p p' where
  ended := ended
  inside _ _ inside few := absurd inside.pos (Nat.not_lt.mpr few)

theorem carries_pure {a a' : α} (same : g a = a') : Carries σ m g (pure a) (pure a') where
  ended c done b c₁ ok := by
    cases ok
    exact done
  inside c c' inside few b c₁ ok := by
    cases ok
    exact ⟨Nat.le_refl _, .inr ⟨c', by rw [same]; rfl, inside⟩⟩

theorem ends_pure {a a' : α} (same : g a = a') : Ends σ m g (pure a) (pure a') := by
  intro c c' meets few b c₁ ok
  cases ok
  exact ⟨Nat.le_refl _, c', by rw [same]; rfl, meets⟩

/-- A rule that never succeeds. -/
theorem Closes.of_fails (fails : ∀ c a c₁, p c ≠ .ok a c₁) : Closes σ m g p p' where
  ended c _ := fails c
  inside c _ _ _ a c₁ ok := absurd ok (fails c a c₁)

theorem Carries.of_fails (fails : ∀ c a c₁, p c ≠ .ok a c₁) : Carries σ m g p p' where
  ended c _ a c₁ ok := absurd ok (fails c a c₁)
  inside c _ _ _ a c₁ ok := absurd ok (fails c a c₁)

theorem fails_fail (cause : SyntaxError.Cause) (c : Cursor) (a : α) (c₁ : Cursor) :
    fail cause c ≠ .ok a c₁ :=
  nofun

theorem fails_throw (e : SyntaxError) (c : Cursor) (a : α) (c₁ : Cursor) :
    (throw e : Parser α) c ≠ .ok a c₁ :=
  nofun

/-! ## The moves of the cursor -/

theorem carries_isAt (kind : Kind) : Carries σ m id (isAt kind) (isAt kind) where
  ended c done a c₁ ok := by
    cases ok
    exact done
  inside c c' inside few a c₁ ok := by
    cases ok
    exact ⟨Nat.le_refl _, .inr ⟨c', by rw [isAt, inside.isAt]; rfl, inside⟩⟩

theorem carries_atEnd : Carries σ m id atEnd atEnd where
  ended c done a c₁ ok := by
    cases ok
    exact done
  inside c c' inside few a c₁ ok := by
    cases ok
    exact ⟨Nat.le_refl _, .inr ⟨c', by rw [atEnd, inside.atEnd, inside.atEnd_second]; rfl, inside⟩⟩

theorem carries_peek : Carries σ m (Token.relabel σ.toRelabelling) peek peek where
  ended c done a c₁ ok := by
    cases ok
    exact done
  inside c c' inside few a c₁ ok := by
    cases ok
    exact ⟨Nat.le_refl _, .inr ⟨c', by rw [← inside.current]; rfl, inside⟩⟩

theorem carries_freshId : Carries σ m σ.id freshId freshId where
  ended c done a c₁ ok := by
    cases ok
    exact ⟨done.current, done.rest⟩
  inside c c' inside few a c₁ ok := by
    cases ok
    refine ⟨Nat.le_refl _, .inr ⟨{ c' with nextId := c'.nextId + 1 }, ?_, ?_⟩⟩
    · have numbered := inside.numbered 0
      rw [Nat.add_zero, Nat.add_zero] at numbered
      rw [numbered]
      rfl
    · exact ⟨inside.current, inside.unended, inside.rest, inside.numbered.succ⟩

/-- After a move there are fewer tokens ahead. -/
theorem carries_advance {f f' : Unit → Parser β} (second : Carries σ (m - 1) h (f ()) (f' ())) :
    Carries σ m h (advance >>= f) (advance >>= f') where
  ended c done b c₂ ok := by
    obtain ⟨_, c₁, ok₁, ok₂⟩ := bind_ok ok
    cases ok₁
    exact second.ended c.moved (done.moved.symm ▸ done) b c₂ ok₂
  inside c c' inside few b c₂ ok := by
    obtain ⟨_, c₁, ok₁, ok₂⟩ := bind_ok ok
    cases ok₁
    obtain ⟨lt, inside₁ | over₁⟩ := inside.moved
    · obtain ⟨le, after⟩ := second.inside c.moved c'.moved inside₁ (by omega) b c₂ ok₂
      exact ⟨Nat.le_of_lt (Nat.lt_of_le_of_lt le lt), after⟩
    · have done₂ := second.ended c.moved over₁.done b c₂ ok₂
      exact ⟨by rw [done₂.rest]; exact Nat.zero_le _, .inl done₂⟩

/-- A rule that takes a token where it finds a meaning in it, and else leaves the cursor. At the end
it finds none. -/
structure Tries (σ : Seam) (q : Parser γ) (g : γ → γ) (taken : γ → Prop) : Prop where
  ended : ∀ c, c.Done → ∃ a, q c = .ok a c ∧ ¬ taken a
  inside : ∀ c c', c.Inside σ c' →
    (∃ a, taken a ∧ q c = .ok a c.moved ∧ q c' = .ok (g a) c'.moved) ∨
      ∃ a, ¬ taken a ∧ q c = .ok a c ∧ q c' = .ok (g a) c'

section

variable {q : Parser γ} {k : γ → γ} {taken : γ → Prop} {f f' : γ → Parser β}

theorem Tries.carries (tries : Tries σ q k taken)
    (yes : ∀ a, taken a → Carries σ (m - 1) h (f a) (f' (k a)))
    (no : ∀ a, ¬ taken a → Carries σ m h (f a) (f' (k a))) :
    Carries σ m h (q >>= f) (q >>= f') where
  ended c done b c₂ ok := by
    obtain ⟨a, found, left⟩ := tries.ended c done
    rw [bind_of_ok found] at ok
    exact (no a left).ended c done b c₂ ok
  inside c c' inside few b c₂ ok := by
    rcases tries.inside c c' inside with ⟨a, took, found, found'⟩ | ⟨a, left, found, found'⟩
    · rw [bind_of_ok found] at ok
      rw [bind_of_ok found']
      obtain ⟨lt, inside₁ | over₁⟩ := inside.moved
      · obtain ⟨le, after⟩ := (yes a took).inside c.moved c'.moved inside₁ (by omega) b c₂ ok
        exact ⟨Nat.le_of_lt (Nat.lt_of_le_of_lt le lt), after⟩
      · have done₂ := (yes a took).ended c.moved over₁.done b c₂ ok
        exact ⟨by rw [done₂.rest]; exact Nat.zero_le _, .inl done₂⟩
    · rw [bind_of_ok found] at ok
      rw [bind_of_ok found']
      exact (no a left).inside c c' inside few b c₂ ok

theorem Tries.closes (tries : Tries σ q k taken)
    (yes : ∀ a, taken a → Ends σ (m - 1) h (f a) (f' (k a)))
    (no : ∀ a, ¬ taken a → Closes σ m h (f a) (f' (k a))) :
    Closes σ m h (q >>= f) (q >>= f') where
  ended c done b c₂ ok := by
    obtain ⟨a, found, left⟩ := tries.ended c done
    rw [bind_of_ok found] at ok
    exact (no a left).ended c done b c₂ ok
  inside c c' inside few b c₂ ok := by
    rcases tries.inside c c' inside with ⟨a, took, found, found'⟩ | ⟨a, left, found, found'⟩
    · rw [bind_of_ok found] at ok
      rw [bind_of_ok found']
      obtain ⟨lt, meets⟩ := inside.moved
      obtain ⟨le, after⟩ := yes a took c.moved c'.moved meets (by omega) b c₂ ok
      exact ⟨Nat.lt_of_le_of_lt le lt, after⟩
    · rw [bind_of_ok found] at ok
      rw [bind_of_ok found']
      exact (no a left).inside c c' inside few b c₂ ok

end

theorem tries_accept (kind : Kind) : Tries σ (accept kind) id (· = true) where
  ended c done := ⟨false, by rw [accept, done.isAt]; rfl, Bool.false_ne_true⟩
  inside c c' inside := by
    unfold accept
    rw [inside.isAt]
    cases c.isAt kind with
    | true => exact .inl ⟨true, rfl, rfl, rfl⟩
    | false => exact .inr ⟨false, Bool.false_ne_true, rfl, rfl⟩

theorem tries_accept? (kind : Kind) :
    Tries σ (accept? kind) (Option.map (Token.relabel σ.toRelabelling)) (·.isSome) where
  ended c done := ⟨none, by rw [accept?, done.isAt]; rfl, Bool.false_ne_true⟩
  inside c c' inside := by
    unfold accept?
    rw [inside.isAt, inside.current]
    cases c.isAt kind with
    | true => exact .inl ⟨some c.current, rfl, rfl, rfl⟩
    | false => exact .inr ⟨none, Bool.false_ne_true, rfl, rfl⟩

/-- What a token stands for, with its line relabelled. -/
def relabelSign (ρ : Relabelling) (sign : γ × Nat) : γ × Nat :=
  (sign.1, ρ.line sign.2)

theorem tries_acceptAs? (reading : Kind → Option γ) :
    Tries σ (acceptAs? reading) (Option.map (relabelSign σ.toRelabelling)) (·.isSome) where
  ended c done := ⟨none, by rw [acceptAs?, done.atEnd]; rfl, Bool.false_ne_true⟩
  inside c c' inside := by
    unfold acceptAs?
    rw [inside.atEnd, inside.atEnd_second, inside.kind, inside.current]
    rw [if_neg Bool.false_ne_true]
    cases reading c.current.kind with
    | some a => exact .inl ⟨some (a, c.current.line), rfl, rfl, rfl⟩
    | none => exact .inr ⟨none, Bool.false_ne_true, rfl, rfl⟩

theorem Carries.accept {kind : Kind} {f f' : Bool → Parser β}
    (yes : Carries σ (m - 1) h (f true) (f' true)) (no : Carries σ m h (f false) (f' false)) :
    Carries σ m h (accept kind >>= f) (Parser.accept kind >>= f') := by
  refine (tries_accept kind).carries (fun a took => ?_) (fun a left => ?_)
  · rw [took]
    exact yes
  · rw [Bool.eq_false_iff.mpr left]
    exact no

theorem Closes.accept {kind : Kind} {f f' : Bool → Parser β}
    (yes : Ends σ (m - 1) h (f true) (f' true)) (no : Closes σ m h (f false) (f' false)) :
    Closes σ m h (accept kind >>= f) (Parser.accept kind >>= f') := by
  refine (tries_accept kind).closes (fun a took => ?_) (fun a left => ?_)
  · rw [took]
    exact yes
  · rw [Bool.eq_false_iff.mpr left]
    exact no

theorem closes_expect (kind : Kind) (what : String) :
    Closes σ m (Token.relabel σ.toRelabelling) (expect kind what) (expect kind what) where
  ended c done a c₁ ok := by
    unfold expect at ok
    rw [done.isAt] at ok
    cases ok
  inside c c' inside few a c₁ ok := by
    unfold expect at ok ⊢
    rw [inside.isAt, inside.current]
    cases found : c.isAt kind with
    | true =>
      rw [found] at ok
      cases ok
      exact ⟨inside.moved.1, c'.moved, rfl, inside.moved.2⟩
    | false =>
      rw [found] at ok
      cases ok

theorem closes_name (what : String) :
    Closes σ m (Name.relabel σ.toRelabelling) (name what) (name what) :=
  (closes_expect _ _).then fun _ => ends_pure rfl

end Parser

end Lox
