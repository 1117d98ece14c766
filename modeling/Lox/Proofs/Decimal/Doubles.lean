import Mathlib
import Lox.Proofs.Decimal.Neighbourhoods
import Lox.Decimal.Layout

/-!
# The decimals of doubles

A finite double has one mantissa and exponent, so the neighbourhoods of different doubles can be
compared end by end. They meet at most in one point, where only the one with the even mantissa is
closed: a number lies in one neighbourhood, and reading it gives one double. On the grid of the
seventeenth digit a step is shorter than any neighbourhood, so the search always ends with a hit.
-/

set_option autoImplicit false

namespace Lox

namespace Binary64

variable {negative : Bool} {m m' : Nat} {q q' : Int}

/-- A mantissa and an exponent as a finite double has them: with 53 bits, and fewer than 53 only at
the lowest exponent. -/
structure Canonical (m : Nat) (q : Int) : Prop where
  lt : m < twoTo 53
  ge : -1074 ≤ q
  normal : -1074 < q → leastNormal ≤ m

theorem canonical_of_ofBits {bits : UInt64} (h : ofBits bits = .finite negative m q) :
    Canonical m q := by
  have fraction : bits.toNat % leastNormal < leastNormal := Nat.mod_lt _ (by decide)
  have double : twoTo 53 = leastNormal + leastNormal := by decide
  simp only [ofBits] at h
  split at h
  · split at h <;> cases h
  · split at h
    · cases h
      exact ⟨by omega, le_rfl, by omega⟩
    · cases h
      exact ⟨by omega, by omega, by omega⟩

/-- The bits can be put together again from the sign, the mantissa and the exponent. -/
theorem ofBits_inj {bits bits' : UInt64} (h : ofBits bits = .finite negative m q)
    (h' : ofBits bits' = .finite negative m q) : bits = bits' := by
  have size : twoTo 63 = 2048 * leastNormal := by decide
  -- the word is put together from its three parts
  have parts (word : Nat) : word =
      (word / twoTo 63 * 2048 + word / leastNormal % 2048) * leastNormal + word % leastNormal := by
    rw [size, Nat.mul_comm 2048, ← Nat.div_div_eq_div_mul, Nat.div_add_mod', Nat.div_add_mod']
  have sign (word : UInt64) : word.toNat / twoTo 63 < 2 :=
    Nat.div_lt_of_lt_mul (by simpa [twoTo] using word.toNat_lt)
  have here := parts bits.toNat
  have there := parts bits'.toNat
  have first := sign bits
  have second := sign bits'
  have fraction : bits.toNat % leastNormal < leastNormal := Nat.mod_lt _ (by decide)
  have fraction' : bits'.toNat % leastNormal < leastNormal := Nat.mod_lt _ (by decide)
  have same : bits.toNat / twoTo 63 = bits'.toNat / twoTo 63 ∧
      bits.toNat / leastNormal % 2048 = bits'.toNat / leastNormal % 2048 ∧
      bits.toNat % leastNormal = bits'.toNat % leastNormal := by
    simp only [ofBits] at h h'
    generalize bits.toNat / leastNormal % 2048 = e at *
    generalize bits'.toNat / leastNormal % 2048 = e' at *
    generalize bits.toNat % leastNormal = f at *
    generalize bits'.toNat % leastNormal = f' at *
    generalize bits.toNat / twoTo 63 = s at *
    generalize bits'.toNat / twoTo 63 = s' at *
    clear here there parts sign size
    have binary : s = 0 ∨ s = 1 := by omega
    have binary' : s' = 0 ∨ s' = 1 := by omega
    rcases binary with rfl | rfl <;> rcases binary' with rfl | rfl <;> grind
  apply UInt64.toNat_inj.mp
  rw [here, there, same.1, same.2.1, same.2.2]

/-- A finite double is determined by what it denotes and its sign. -/
theorem ofFloat_inj {x y : Float} (hx : ofFloat x = .finite negative m q)
    (hy : ofFloat y = .finite negative m q) : x = y :=
  Float.toBits_inj.mp (ofBits_inj hx hy)

/-- The number that a mantissa and an exponent denote. -/
def number (m : Nat) (q : Int) : ℚ :=
  m * 2 ^ q

/-- A natural number is found exactly where the double denotes one. -/
theorem whole?_eq_some {n : Nat} (h : whole? m q = some n) : number m q = n := by
  unfold whole? at h
  split at h
  case isTrue pos =>
    obtain ⟨e, rfl⟩ := Int.eq_ofNat_of_zero_le pos
    simp only [Option.some.injEq] at h
    simp [number, ← h, twoTo]
  case isFalse neg =>
    obtain ⟨e, rfl⟩ := Int.exists_eq_neg_ofNat (le_of_not_ge neg)
    simp only [neg_neg, Int.toNat_natCast, Option.ite_none_right_eq_some,
      Option.some.injEq] at h
    have exact : m = n * twoTo e := by
      rw [← h.2, Nat.div_mul_cancel (Nat.dvd_of_mod_eq_zero h.1)]
    have unit : ((2 : ℚ) ^ e) ≠ 0 := by positivity
    simp [number, exact, twoTo, unit]

end Binary64

namespace Decimal.Neighbourhood

open Binary64

variable {m m' : Nat} {q q' : Int} {x : ℚ} {tie : Tie}

/-! ### The interval of a double -/

/-- A quarter of the unit in the last place. -/
def quarter (q : Int) : ℚ :=
  2 ^ (q - 2)

/-- How many quarters a neighbourhood reaches down: below a power of two the doubles lie twice as
dense. -/
def reach (m : Nat) (q : Int) : Nat :=
  if m = leastNormal ∧ -1074 < q then 1 else 2

theorem quarter_pos (q : Int) : 0 < quarter q := by
  unfold quarter
  positivity

theorem reach_le (m : Nat) (q : Int) : reach m q ≤ 2 := by
  unfold reach
  split <;> omega

theorem reach_pos (m : Nat) (q : Int) : 0 < reach m q := by
  unfold reach
  split <;> omega

/-- The fields of a neighbourhood are counted in quarters. -/
private theorem div_unit (n : Nat) :
    ((n * twoTo (q - 2).toNat : Nat) : ℚ) / (twoTo (2 - q).toNat : Nat) = n * quarter q := by
  rw [quarter, zpow_eq_div, neg_sub]
  simp [twoTo, mul_div_assoc]

theorem bottom_ofDouble (hm : 0 < m) (q : Int) :
    (ofDouble m q).bottom = (4 * m - reach m q) * quarter q := by
  have le := reach_le m q
  calc (ofDouble m q).bottom = ((4 * m - reach m q : Nat) : ℚ) * quarter q := div_unit _
    _ = (4 * m - reach m q) * quarter q := by rw [Nat.cast_sub (by omega)]; push_cast; rfl

theorem centre_ofDouble (m : Nat) (q : Int) : (ofDouble m q).centre = 4 * m * quarter q := by
  calc (ofDouble m q).centre = ((4 * m : Nat) : ℚ) * quarter q := div_unit _
    _ = 4 * m * quarter q := by push_cast; rfl

theorem top_ofDouble (m : Nat) (q : Int) : (ofDouble m q).top = (4 * m + 2) * quarter q := by
  calc (ofDouble m q).top = ((4 * m + 2 : Nat) : ℚ) * quarter q := div_unit _
    _ = (4 * m + 2) * quarter q := by push_cast; rfl

/-- The neighbourhood of a double is around the number that the double denotes. -/
theorem centre_eq_number (m : Nat) (q : Int) : (ofDouble m q).centre = Binary64.number m q := by
  rw [centre_ofDouble, Binary64.number, quarter, zpow_sub₀ (by norm_num)]
  ring

theorem sound_ofDouble (hm : 0 < m) (q : Int) : (ofDouble m q).Sound := by
  have scale : 0 < twoTo (q - 2).toNat := Nat.pow_pos (by omega)
  have reach := reach_pos m q
  exact ⟨Nat.pow_pos (by omega), Nat.mul_pos (by omega) scale,
    Nat.mul_lt_mul_of_pos_right (show 4 * m - Neighbourhood.reach m q < 4 * m by omega) scale,
    Nat.mul_lt_mul_of_pos_right (by omega) scale⟩

theorem closed_ofDouble : (ofDouble m q).closed = false ↔ m % 2 = 1 := by
  simp [ofDouble]

theorem Holds.pos (hm : 0 < m) (h : (ofDouble m q).Holds x) : 0 < x := by
  have low := h.low
  rw [bottom_ofDouble hm] at low
  have reach : (reach m q : ℚ) ≤ 2 := by exact_mod_cast reach_le m q
  have least : (1 : ℚ) ≤ m := by exact_mod_cast hm
  have quarter := quarter_pos q
  nlinarith

/-! ### A number reads as one double -/

/-- A number in two neighbourhoods is above the lower end of one and below the upper end of the
other, which is a comparison of whole numbers of quarters. -/
private theorem ends_le (hm' : 0 < m') {s : Nat} (coarser : s * quarter q ≤ quarter q')
    (h : (ofDouble m q).Holds x) (h' : (ofDouble m' q').Holds x) :
    s * (4 * m') ≤ 4 * m + 2 + s * reach m' q' ∧
      (m % 2 = 1 ∨ m' % 2 = 1 → s * (4 * m') < 4 * m + 2 + s * reach m' q') := by
  have quarter := quarter_pos q
  have le : (reach m' q' : ℚ) ≤ 4 * m' := by
    exact_mod_cast (reach_le m' q').trans (by omega)
  have low : s * (4 * m' - reach m' q') * Neighbourhood.quarter q ≤ (ofDouble m' q').bottom := by
    rw [bottom_ofDouble hm']
    nlinarith
  have high := top_ofDouble m q
  constructor
  · have ends := le_of_mul_le_mul_right ((low.trans h'.low).trans (h.high.trans high.le)) quarter
    exact_mod_cast (by linarith : (s * (4 * m') : ℚ) ≤ 4 * m + 2 + s * reach m' q')
  · intro odd
    have strict : (ofDouble m' q').bottom < (4 * m + 2) * Neighbourhood.quarter q := by
      rw [← high]
      rcases odd with odd | odd
      · exact h'.low.trans_lt (h.inside (closed_ofDouble.mpr odd)).2
      · exact (h'.inside (closed_ofDouble.mpr odd)).1.trans_le h.high
    have ends := lt_of_mul_lt_mul_right (low.trans_lt strict) quarter.le
    exact_mod_cast (by linarith : (s * (4 * m') : ℚ) < 4 * m + 2 + s * reach m' q')

/-- The neighbourhoods of two doubles that follow one another meet at most in an end, and there one
of the two is open. -/
private theorem apart (c : Canonical m q) (c' : Canonical m' q') (hm' : 0 < m')
    (order : q < q' ∨ q = q' ∧ m < m') (h : (ofDouble m q).Holds x)
    (h' : (ofDouble m' q').Holds x) : False := by
  have reach := reach_le m' q'
  rcases order with lt | ⟨rfl, lt⟩
  · -- one power of two or more further up: the mantissa before the power of two is odd
    have coarser : ((2 : Nat) : ℚ) * quarter q ≤ quarter q' := by
      unfold quarter
      rw [Nat.cast_ofNat, ← zpow_one_add₀ (by norm_num)]
      exact zpow_le_zpow_right₀ (by norm_num) (by omega)
    have ⟨ends, strict⟩ := ends_le hm' coarser h h'
    have above := c.ge
    have normal := c'.normal (by omega)
    have below := c.lt
    have double : twoTo 53 = 2 * leastNormal := by decide
    rcases eq_or_lt_of_le normal with least | more
    · have once : Neighbourhood.reach m' q' = 1 := if_pos ⟨least.symm, by omega⟩
      omega
    · omega
  · -- neighbours at one exponent have mantissas of different parity
    have ⟨ends, strict⟩ := ends_le (s := 1) hm' (by simp) h h'
    omega

/-- **A number reads as one double.** It lies in the neighbourhood of one mantissa and exponent. -/
theorem Holds.unique (c : Canonical m q) (c' : Canonical m' q') (hm : 0 < m) (hm' : 0 < m')
    (h : (ofDouble m q).Holds x) (h' : (ofDouble m' q').Holds x) : m = m' ∧ q = q' := by
  rcases lt_trichotomy q q' with lt | rfl | gt
  · exact (apart c c' hm' (.inl lt) h h').elim
  · rcases lt_trichotomy m m' with lt | rfl | gt
    · exact (apart c c' hm' (.inr ⟨rfl, lt⟩) h h').elim
    · exact ⟨rfl, rfl⟩
    · exact (apart c' c hm (.inr ⟨rfl, gt⟩) h' h).elim
  · exact (apart c' c hm (.inl gt) h' h).elim

/-! ### Seventeen digits -/

/-- On the grid of the seventeenth digit a neighbour of the number reads back. -/
theorem exists_contains (c : Canonical m q) (hm : 0 < m) :
    ∃ d, (ofDouble m q).contains d ((ofDouble m q).leading - 16) = true := by
  by_contra miss
  simp only [not_exists, Bool.not_eq_true] at miss
  have sound := sound_ofDouble hm q
  have width := width_le sound miss
  have least := (leading_spec sound).1
  have quarter := quarter_pos q
  rw [top_ofDouble, bottom_ofDouble hm] at width
  rw [centre_ofDouble, ← sub_add_cancel (ofDouble m q).leading 16,
    zpow_add₀ (by norm_num)] at least
  norm_num at least
  have wide : (2 + reach m q) * 10000000000000000 * Neighbourhood.quarter q ≤
      4 * m * Neighbourhood.quarter q := by linarith
  have wide' : (2 + reach m q) * 10000000000000000 ≤ 4 * m := by
    exact_mod_cast le_of_mul_le_mul_right wide quarter
  have size := c.lt
  have big : twoTo 53 = 9007199254740992 := by decide
  have half : leastNormal = 4503599627370496 := by decide
  unfold reach at wide'
  split at wide' <;> omega

end Decimal.Neighbourhood

namespace Decimal

open Binary64 Neighbourhood

variable {m : Nat} {q : Int} {tie : Tie}

/-- What the shortest decimal is: the choice of the first grid that has a hit, and that grid has at
most seventeen digits. -/
theorem shortest_spec (c : Canonical m q) (hm : 0 < m) (tie : Tie) :
    (ofDouble m q).pick? tie (shortest tie m q).exponent = some (shortest tie m q).digits ∧
      (ofDouble m q).leading - 16 ≤ (shortest tie m q).exponent ∧
      (shortest tie m q).exponent ≤ (ofDouble m q).leading ∧
      ∀ j e, (shortest tie m q).exponent < j → j ≤ (ofDouble m q).leading →
        (ofDouble m q).contains e j = false :=
  have ⟨_, hit⟩ := exists_contains c hm
  search_spec (sound_ofDouble hm q) 17 (by omega) (by omega) hit

/-- **The shortest decimal reads back.** -/
theorem holds_shortest (c : Canonical m q) (hm : 0 < m) (tie : Tie) :
    (ofDouble m q).Holds (shortest tie m q).number :=
  (contains_iff (sound_ofDouble hm q).unit_pos).mp
    (contains_of_pick? (shortest_spec c hm tie).1)

/-- A whole number has no decimal places: the grid of the units holds it. -/
theorem exponent_shortest_nonneg (c : Canonical m q) (hm : 0 < m) (tie : Tie) {n : Nat}
    (whole : whole? m q = some n) : 0 ≤ (shortest tie m q).exponent := by
  have sound := sound_ofDouble hm q
  obtain ⟨-, seventeen, -, first⟩ := shortest_spec c hm tie
  have centre : (ofDouble m q).centre = n := by
    rw [centre_eq_number, whole?_eq_some whole]
  have pos : 0 < n := by
    have above := sound.centre_pos
    rw [centre] at above
    exact_mod_cast above
  have units : 0 ≤ (ofDouble m q).leading := by
    by_contra low
    have upper := (leading_spec sound).2
    have one : (n : ℚ) < 10 ^ (0 : Int) := by
      rw [← centre]
      exact upper.trans_le (zpow_le_zpow_right₀ (by norm_num) (by omega))
    have none : n < 1 := by exact_mod_cast (by simpa using one : (n : ℚ) < 1)
    omega
  by_contra places
  have missed := first 0 n (by omega) units
  have hit := (contains_iff (d := n) (k := 0) sound.unit_pos).mpr
    (by simpa [Decimal.number, centre] using sound.holds_centre)
  exact Bool.false_ne_true (missed.symm.trans hit)

end Decimal

end Lox
