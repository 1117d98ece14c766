import Lox.Decimal.Shortest
import Mathlib.Algebra.Order.Field.Power
import Mathlib.Algebra.Order.Ring.Rat
import Mathlib.Tactic.FieldSimp
import Mathlib.Tactic.Linarith
import Mathlib.Tactic.Positivity

/-!
# The search for the shortest decimal

A neighbourhood is kept in whole numbers and a unit. Over the rationals it is an interval around its
centre, and a decimal is contained in it exactly if its value lies in that interval. Since an
interval has no gaps, a grid on which neither neighbour of the centre is contained has no hit at
all: that is why the search, which looks at these two only, misses no grid.
-/

set_option autoImplicit false

namespace Lox.Decimal

/-- The number that a decimal denotes. -/
def number (d : Decimal) : ℚ :=
  d.digits * 10 ^ d.exponent

/-- An integer power as a quotient of two natural ones, one of which is `1`. -/
theorem zpow_eq_div {b : ℚ} (k : Int) : b ^ k = b ^ k.toNat / b ^ (-k).toNat := by
  rcases le_total 0 k with h | h
  · obtain ⟨n, rfl⟩ := Int.eq_ofNat_of_zero_le h
    simp
  · obtain ⟨n, rfl⟩ := Int.exists_eq_neg_ofNat h
    simp

@[simp]
theorem cast_tenTo (n : Nat) : ((tenTo n : Nat) : ℚ) = 10 ^ n := by
  simp [tenTo]

theorem tenTo_pos (n : Nat) : 0 < tenTo n :=
  Nat.pow_pos (by omega)

namespace Neighbourhood

variable {near : Neighbourhood} {tie : Tie} {x y : ℚ} {d : Nat} {k : Int}

/-- The lower end. -/
def bottom (near : Neighbourhood) : ℚ :=
  near.low / near.unit

/-- The number that the neighbourhood is one of. -/
def centre (near : Neighbourhood) : ℚ :=
  near.value / near.unit

/-- The upper end. -/
def top (near : Neighbourhood) : ℚ :=
  near.high / near.unit

/-- The number lies in the neighbourhood. -/
structure Holds (near : Neighbourhood) (x : ℚ) : Prop where
  low : near.bottom ≤ x
  high : x ≤ near.top
  inside : near.closed = false → near.bottom < x ∧ x < near.top

/-- The centre is a positive number between the two ends. -/
structure Sound (near : Neighbourhood) : Prop where
  unit_pos : 0 < near.unit
  value_pos : 0 < near.value
  low_lt : near.low < near.value
  lt_high : near.value < near.high

namespace Sound

theorem cast_unit_pos (h : near.Sound) : (0 : ℚ) < near.unit :=
  Nat.cast_pos.mpr h.unit_pos

theorem centre_pos (h : near.Sound) : 0 < near.centre :=
  div_pos (Nat.cast_pos.mpr h.value_pos) h.cast_unit_pos

theorem bottom_lt (h : near.Sound) : near.bottom < near.centre :=
  div_lt_div_of_pos_right (Nat.cast_lt.mpr h.low_lt) h.cast_unit_pos

theorem lt_top (h : near.Sound) : near.centre < near.top :=
  div_lt_div_of_pos_right (Nat.cast_lt.mpr h.lt_high) h.cast_unit_pos

theorem holds_centre (h : near.Sound) : near.Holds near.centre :=
  ⟨h.bottom_lt.le, h.lt_top.le, fun _ => ⟨h.bottom_lt, h.lt_top⟩⟩

end Sound

/-! ### Containment -/

/-- A neighbourhood has no gaps between its centre and a number that it holds. -/
theorem Holds.between (h : near.Sound) (hx : near.Holds x)
    (hy : x ≤ y ∧ y ≤ near.centre ∨ near.centre ≤ y ∧ y ≤ x) : near.Holds y := by
  have lower := h.bottom_lt
  have upper := h.lt_top
  have ⟨low, high, inside⟩ := hx
  rcases hy with ⟨below, above⟩ | ⟨below, above⟩
  · exact ⟨low.trans below, above.trans upper.le, fun o =>
      ⟨(inside o).1.trans_le below, above.trans_lt upper⟩⟩
  · exact ⟨lower.le.trans below, above.trans high, fun o =>
      ⟨lower.trans_le below, above.trans_lt (inside o).2⟩⟩

/-- The whole-number comparison that `contains` makes is one of rationals. -/
private theorem scaled_le (hu : 0 < near.unit) (a d : Nat) (k : Int) :
    (a * tenTo (-k).toNat ≤ d * tenTo k.toNat * near.unit ↔
      (a / near.unit : ℚ) ≤ number ⟨d, k⟩) ∧
    (d * tenTo k.toNat * near.unit ≤ a * tenTo (-k).toNat ↔
      number ⟨d, k⟩ ≤ (a / near.unit : ℚ)) := by
  have unit : (0 : ℚ) < near.unit := Nat.cast_pos.mpr hu
  have places : (0 : ℚ) < 10 ^ (-k).toNat := by positivity
  rw [number, zpow_eq_div, ← mul_div_assoc, div_le_div_iff₀ unit places,
    div_le_div_iff₀ places unit]
  constructor <;> rw [← Nat.cast_le (α := ℚ)] <;> push_cast [cast_tenTo] <;> rfl

/-- A decimal is contained in a neighbourhood if its value lies in it. -/
theorem contains_iff (hu : 0 < near.unit) :
    near.contains d k = true ↔ near.Holds (number ⟨d, k⟩) := by
  have ⟨low, low'⟩ := scaled_le hu near.low d k
  have ⟨high', high⟩ := scaled_le hu near.high d k
  unfold contains
  cases hc : near.closed with
  | true =>
    simp only [if_true, decide_eq_true_eq, low, high]
    exact ⟨fun h => ⟨h.1, h.2, fun o => by simp [hc] at o⟩, fun h => ⟨h.low, h.high⟩⟩
  | false =>
    simp only [Bool.false_eq_true, if_false, decide_eq_true_eq, ← not_le, low', high']
    simp only [not_le]
    exact ⟨fun h => ⟨h.1.le, h.2.le, fun _ => h⟩, fun h => h.inside hc⟩

/-! ### Grids -/

/-- The centre lies between its two neighbours on a grid. -/
theorem steps_spec (h : near.Sound) (k : Int) :
    number ⟨near.steps k, k⟩ ≤ near.centre ∧ near.centre < number ⟨near.steps k + 1, k⟩ := by
  have unit := h.cast_unit_pos
  have places : (0 : ℚ) < 10 ^ (-k).toNat := by positivity
  have width : 0 < near.unit * tenTo k.toNat := Nat.mul_pos h.unit_pos (tenTo_pos _)
  have below := Nat.div_mul_le_self (near.value * tenTo (-k).toNat) (near.unit * tenTo k.toNat)
  have above := Nat.lt_div_mul_add (a := near.value * tenTo (-k).toNat) width
  rw [← Nat.succ_mul, Nat.succ_eq_add_one] at above
  rw [← steps, ← Nat.cast_le (α := ℚ)] at below
  rw [← steps, ← Nat.cast_lt (α := ℚ)] at above
  push_cast [cast_tenTo] at below above
  rw [number, number, centre, zpow_eq_div, ← mul_div_assoc, ← mul_div_assoc,
    div_le_div_iff₀ places unit, div_lt_div_iff₀ unit places]
  push_cast
  constructor <;> linarith

theorem contains_of_pick? (hp : near.pick? tie k = some d) : near.contains d k = true := by
  unfold pick? at hp
  grind

theorem le_of_pick? (hp : near.pick? tie k = some d) : d ≤ near.steps k + 1 := by
  unfold pick? at hp
  grind

/-- The grid has a hit if one of the two neighbours of the centre is one. -/
theorem pick?_eq_none (h : near.Sound) (hp : near.pick? tie k = none) (d : Nat) :
    near.contains d k = false := by
  have neither : near.contains (near.steps k) k = false ∧
      near.contains (near.steps k + 1) k = false := by
    unfold pick? at hp
    grind
  have ⟨below, above⟩ := steps_spec h k
  have step : (0 : ℚ) < 10 ^ k := by positivity
  rw [Bool.eq_false_iff, ne_eq, contains_iff h.unit_pos] at neither ⊢
  rw [Bool.eq_false_iff, ne_eq, contains_iff h.unit_pos] at neither
  intro hd
  rcases Nat.lt_or_ge (near.steps k) d with hlt | hge
  · refine neither.2 (hd.between h (.inr ⟨above.le, ?_⟩))
    simp only [number]
    gcongr
    exact_mod_cast hlt
  · refine neither.1 (hd.between h (.inl ⟨?_, below⟩))
    simp only [number]
    gcongr

/-- A grid can only be without a hit if its steps are as wide as the neighbourhood. -/
theorem width_le (h : near.Sound) (miss : ∀ d, near.contains d k = false) :
    near.top - near.bottom ≤ 10 ^ k := by
  have ⟨below, above⟩ := steps_spec h k
  have lower := h.bottom_lt
  have upper := h.lt_top
  have down : number ⟨near.steps k, k⟩ ≤ near.bottom := by
    by_contra inside
    have here := (contains_iff (d := near.steps k) (k := k) h.unit_pos).mpr
      ⟨(not_le.mp inside).le, below.trans upper.le,
        fun _ => ⟨not_le.mp inside, below.trans_lt upper⟩⟩
    exact Bool.false_ne_true ((miss _).symm.trans here)
  have up : near.top ≤ number ⟨near.steps k + 1, k⟩ := by
    by_contra inside
    have here := (contains_iff (d := near.steps k + 1) (k := k) h.unit_pos).mpr
      ⟨(lower.trans above).le, (not_le.mp inside).le,
        fun _ => ⟨lower.trans above, not_le.mp inside⟩⟩
    exact Bool.false_ne_true ((miss _).symm.trans here)
  simp only [number] at down up
  push_cast at up
  linarith

/-- A search that has a hit on one of its grids gives the choice of the first grid that has one. -/
theorem search_spec (h : near.Sound) (finer : Nat) {i : Int} (hi : k - finer < i) (hk : i ≤ k)
    (hit : near.contains d i = true) :
    near.pick? tie (near.search tie finer k).exponent = some (near.search tie finer k).digits ∧
      i ≤ (near.search tie finer k).exponent ∧
      (near.search tie finer k).exponent ≤ k ∧
      ∀ j e, (near.search tie finer k).exponent < j → j ≤ k → near.contains e j = false := by
  induction finer generalizing k with
  | zero => omega
  | succ finer ih =>
    rw [search]
    split
    case h_1 e he =>
      refine ⟨he, hk, le_rfl, fun j _ hj hle => ?_⟩
      exact absurd hle (by simpa using hj)
    case h_2 none =>
      have missed := pick?_eq_none h none
      have coarser : i ≠ k := by
        rintro rfl
        exact Bool.false_ne_true ((missed d).symm.trans hit)
      obtain ⟨picked, le, ge, first⟩ := ih (k := k - 1) (by omega) (by omega)
      refine ⟨picked, le, by omega, fun j e hj hle => ?_⟩
      rcases eq_or_lt_of_le hle with rfl | hlt
      · exact missed e
      · exact first j e hj (by omega)

/-! ### The leading digit -/

theorem lt_tenTo_length (n : Nat) : n < 10 ^ (Nat.toDigits 10 n).length :=
  (Nat.length_toDigits_le_iff (by omega) Nat.length_toDigits_pos).mp le_rfl

private theorem tenTo_length_le {n : Nat} (hn : 0 < n) :
    10 ^ ((Nat.toDigits 10 n).length - 1) ≤ n := by
  by_contra hlt
  rcases Nat.eq_zero_or_pos ((Nat.toDigits 10 n).length - 1) with h0 | hpos
  · rw [h0] at hlt
    omega
  · have := (Nat.length_toDigits_le_iff (b := 10) (by omega) hpos).mpr (not_le.mp hlt)
    omega

/-- The digits of a quotient say between which powers of ten it lies. -/
private theorem quotient_between {a b : Nat} (hb : 0 < b) (le : b ≤ a) :
    10 ^ ((Nat.toDigits 10 (a / b)).length - 1) * b ≤ a ∧
      a < 10 ^ (Nat.toDigits 10 (a / b)).length * b :=
  ⟨(Nat.le_div_iff_mul_le hb).mp (tenTo_length_le (Nat.div_pos le hb)),
    (Nat.div_lt_iff_lt_mul hb).mp (lt_tenTo_length (a / b))⟩

/-- The leading digit of the centre stands at the place that `leading` gives. -/
theorem leading_spec (h : near.Sound) :
    10 ^ near.leading ≤ near.centre ∧ near.centre < 10 ^ (near.leading + 1) := by
  have unit := h.cast_unit_pos
  unfold leading centre
  split
  case isTrue big =>
    obtain ⟨least, most⟩ := quotient_between h.unit_pos big
    have len : 0 < (Nat.toDigits 10 (near.value / near.unit)).length := Nat.length_toDigits_pos
    generalize (Nat.toDigits 10 (near.value / near.unit)).length = n at *
    have place : (n : Int) - 1 = ((n - 1 : Nat) : Int) := by omega
    rw [sub_add_cancel, place, zpow_natCast, zpow_natCast, le_div_iff₀ unit, div_lt_iff₀ unit]
    exact ⟨by exact_mod_cast least, by exact_mod_cast most⟩
  case isFalse small =>
    obtain ⟨least, most⟩ := quotient_between (a := near.unit - 1) h.value_pos (by omega)
    have len : 0 < (Nat.toDigits 10 ((near.unit - 1) / near.value)).length :=
      Nat.length_toDigits_pos
    generalize (Nat.toDigits 10 ((near.unit - 1) / near.value)).length = n at *
    have place : -(n : Int) + 1 = -((n - 1 : Nat) : Int) := by omega
    have low : near.unit ≤ near.value * 10 ^ n := by
      rw [Nat.mul_comm]
      omega
    have high : near.value * 10 ^ (n - 1) < near.unit := by
      rw [Nat.mul_comm]
      omega
    rw [place, zpow_neg, zpow_neg, zpow_natCast, zpow_natCast, inv_eq_one_div, inv_eq_one_div,
      div_le_div_iff₀ (by positivity) unit, div_lt_div_iff₀ unit (by positivity), one_mul]
    exact ⟨by exact_mod_cast low, by exact_mod_cast high⟩

end Neighbourhood

end Lox.Decimal
