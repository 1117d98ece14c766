import Mathlib
import Lox.Number
import Lox.Proofs.Decimal.Doubles

/-!
# Numbers are told apart by their texts

A text in positional notation reads as one number, whatever number it was written for: its digits
without the point, divided by a power of ten for each place after it. What is written for a double
reads as a number of its neighbourhood, a whole one as itself and any other as its shortest decimal,
so two doubles with one text would share a number.
-/

set_option autoImplicit false

namespace Lox.Decimal

/-! ### Reading -/

/-- The number of digits after the point. -/
def places (text : List Char) : Nat :=
  (text.dropWhile (· != '.')).tail.length

/-- What a text in positional notation reads as. -/
def reading (text : List Char) : ℚ :=
  Nat.ofDigitChars 10 (text.filter (· != '.')) 0 / 10 ^ places text

/-- A digit is not a point. -/
private theorem point_notMem {digits : List Char} (h : ∀ c ∈ digits, c.isDigit = true) :
    ∀ c ∈ digits, (c != '.') = true := by
  intro c hc
  have digit := h c hc
  simp only [bne_iff_ne, ne_eq]
  rintro rfl
  exact absurd digit (by decide)

theorem reading_digits {digits : List Char} (h : ∀ c ∈ digits, c.isDigit = true) :
    reading digits = Nat.ofDigitChars 10 digits 0 := by
  have point := point_notMem h
  have none : digits.dropWhile (· != '.') = [] := List.dropWhile_eq_nil_iff.mpr point
  simp [reading, places, none, List.filter_eq_self.mpr point]

theorem reading_point {before after : List Char} (hb : ∀ c ∈ before, c.isDigit = true)
    (ha : ∀ c ∈ after, c.isDigit = true) :
    reading (before ++ '.' :: after) =
      Nat.ofDigitChars 10 (before ++ after) 0 / 10 ^ after.length := by
  have first := point_notMem hb
  have second := point_notMem ha
  have rest : (before ++ '.' :: after).dropWhile (· != '.') = '.' :: after := by
    rw [List.dropWhile_append_of_pos first]
    simp
  have kept : (before ++ '.' :: after).filter (· != '.') = before ++ after := by
    simp [List.filter_append, List.filter_eq_self.mpr first, List.filter_eq_self.mpr second]
  rw [reading, places, rest, kept, List.tail_cons]

/-! ### Writing -/

theorem isDigit_zeros {n : Nat} : ∀ c ∈ zeros n, c.isDigit = true := by
  intro c hc
  rw [List.eq_of_mem_replicate hc]
  decide

/-- Digits up to the place `10 ^ e` read as that many steps of `10 ^ e`. -/
theorem reading_place {digits : List Char} (h : ∀ c ∈ digits, c.isDigit = true) (e : Int) :
    reading (place digits e) = Nat.ofDigitChars 10 digits 0 * 10 ^ e := by
  unfold place
  split
  case isTrue whole =>
    obtain ⟨n, rfl⟩ := Int.eq_ofNat_of_zero_le whole
    have all : ∀ c ∈ digits ++ zeros n, c.isDigit = true := fun c hc =>
      (List.mem_append.mp hc).elim (h c) (isDigit_zeros c)
    rw [Int.toNat_natCast, reading_digits all, Nat.ofDigitChars_append, zeros,
      Nat.ofDigitChars_replicate_zero, zpow_natCast]
    push_cast
    ring
  case isFalse fraction =>
    obtain ⟨n, rfl⟩ := Int.exists_eq_neg_ofNat (le_of_not_ge fraction)
    simp only [neg_neg, Int.toNat_natCast, zpow_neg, zpow_natCast, ← div_eq_mul_inv]
    split
    case isTrue inside =>
      rw [reading_point (fun c hc => h c (List.mem_of_mem_take hc))
        (fun c hc => h c (List.mem_of_mem_drop hc)), List.take_append_drop, List.length_drop,
        Nat.sub_sub_self (Nat.le_of_lt inside)]
    case isFalse before =>
      have all : ∀ c ∈ zeros (n - digits.length) ++ digits, c.isDigit = true := fun c hc =>
        (List.mem_append.mp hc).elim (isDigit_zeros c) (h c)
      have length : (zeros (n - digits.length) ++ digits).length = n := by
        simp [zeros]
        omega
      have zero : Nat.ofDigitChars 10 ('0' :: (zeros (n - digits.length) ++ digits)) 0 =
          Nat.ofDigitChars 10 digits 0 := by
        rw [Nat.ofDigitChars_cons, Nat.ofDigitChars_append, zeros, Nat.ofDigitChars_replicate_zero]
        simp
      have point := reading_point (isDigit_zeros (n := 1)) all
      rw [length] at point
      exact point.trans (by rw [← zero]; rfl)

/-- The zeros that `significant` takes away are all that it takes away. -/
theorem significant_append (d : Decimal) :
    Nat.toDigits 10 d.digits = d.significant.1 ++
      zeros ((Nat.toDigits 10 d.digits).length - d.significant.1.length) := by
  have taken : (Nat.toDigits 10 d.digits).reverse.takeWhile (· == '0') =
      zeros ((Nat.toDigits 10 d.digits).reverse.takeWhile (· == '0')).length :=
    List.eq_replicate_iff.mpr ⟨rfl, fun c hc => by simpa using List.mem_takeWhile_imp hc⟩
  have split := List.takeWhile_append_dropWhile (p := (· == '0'))
    (l := (Nat.toDigits 10 d.digits).reverse)
  have whole : Nat.toDigits 10 d.digits = d.significant.1 ++
      zeros ((Nat.toDigits 10 d.digits).reverse.takeWhile (· == '0')).length := by
    rw [taken] at split
    have turned := congrArg List.reverse split
    rw [List.reverse_append, List.reverse_reverse, zeros, List.reverse_replicate] at turned
    exact turned.symm
  have length := congrArg List.length whole
  rw [List.length_append, zeros, List.length_replicate] at length
  rw [length, Nat.add_sub_cancel_left]
  exact whole

theorem isDigit_significant (d : Decimal) : ∀ c ∈ d.significant.1, c.isDigit = true := by
  intro c hc
  refine Nat.isDigit_of_mem_toDigits (b := 10) (n := d.digits) (by omega) (by omega) ?_
  rw [significant_append]
  exact List.mem_append_left _ hc

/-- **A decimal reads as its number.** -/
theorem reading_positional (d : Decimal) : reading d.positional.toList = d.number := by
  have exponent : d.significant.2 = d.exponent +
      ((Nat.toDigits 10 d.digits).length - d.significant.1.length : Nat) := rfl
  have digits := Nat.ofDigitChars_ten_toDigits (n := d.digits)
  have split := significant_append d
  generalize (Nat.toDigits 10 d.digits).length - d.significant.1.length = n at *
  rw [split, Nat.ofDigitChars_append, zeros, Nat.ofDigitChars_replicate_zero] at digits
  rw [positional, String.toList_ofList, reading_place (isDigit_significant d), number, exponent,
    zpow_add₀ (by norm_num), zpow_natCast, ← digits]
  push_cast
  ring

/-- A whole number with a zero after the point. -/
theorem reading_whole (n : Nat) : reading (toString n ++ ".0").toList = n := by
  have digits : ∀ c ∈ Nat.toDigits 10 n, c.isDigit = true :=
    fun c hc => Nat.isDigit_of_mem_toDigits (by omega) (by omega) hc
  have point := reading_point digits (isDigit_zeros (n := 1))
  rw [Nat.ofDigitChars_append, Nat.ofDigitChars_ten_toDigits, zeros,
    Nat.ofDigitChars_replicate_zero] at point
  rw [String.toList_append, Nat.toString_eq_ofList_toDigits, String.toList_ofList]
  exact point.trans (by simp)

end Lox.Decimal

namespace Lox.Number

open Binary64 Decimal Decimal.Neighbourhood

variable {negative : Bool} {m : Nat} {q : Int}

/-- The characters of a number without a sign. -/
def Plain (text : String) : Prop :=
  ∀ c ∈ text.toList, c.isDigit = true ∨ c = '.'

theorem plain_whole (n : Nat) : Plain (toString n ++ ".0") := by
  intro c hc
  rw [String.toList_append, Nat.toString_eq_ofList_toDigits, String.toList_ofList,
    List.mem_append] at hc
  rcases hc with digit | zero
  · exact .inl (Nat.isDigit_of_mem_toDigits (by omega) (by omega) digit)
  · simp at zero
    rcases zero with rfl | rfl <;> decide

theorem plain_positional (d : Decimal) : Plain d.positional := by
  intro c hc
  have digits := isDigit_significant d
  rw [positional, String.toList_ofList, place] at hc
  split at hc
  · exact .inl ((List.mem_append.mp hc).elim (digits c) (isDigit_zeros c))
  · dsimp only at hc
    split at hc
    · rcases List.mem_append.mp hc with before | after
      · exact .inl (digits c (List.mem_of_mem_take before))
      · rcases List.mem_cons.mp after with rfl | after
        · exact .inr rfl
        · exact .inl (digits c (List.mem_of_mem_drop after))
    · rcases List.mem_cons.mp hc with rfl | hc
      · exact .inl (by decide)
      · rcases List.mem_cons.mp hc with rfl | hc
        · exact .inr rfl
        · exact .inl ((List.mem_append.mp hc).elim (isDigit_zeros c) (digits c))

/-- The texts of the doubles with one sign: the number with all its digits, if it is whole, and the
shortest decimal otherwise. -/
def body (m : Nat) (q : Int) : String :=
  match whole? m q with
  | some n => toString n ++ ".0"
  | none => (shortest .up m q).positional

/-- Only zero is a whole number without a mantissa. -/
theorem pos_of_whole?_eq_none (h : whole? m q = none) : 0 < m := by
  by_contra zero
  obtain rfl : m = 0 := by omega
  simp [whole?] at h

theorem plain_of_finite {x : Float} (hx : ofFloat x = .finite negative m q) (hm : 0 < m) :
    plain x = signed negative (shortest .up m q).positional := by
  simp only [plain, hx]
  rw [if_neg (by omega)]

/-- What stands in a tree for a finite number. -/
theorem inTree_eq {x : Float} (hx : ofFloat x = .finite negative m q) :
    inTree x = signed negative (body m q) := by
  simp only [inTree, hx, body]
  cases whole : whole? m q with
  | some n => rfl
  | none => exact plain_of_finite hx (pos_of_whole?_eq_none whole)

theorem plain_body (m : Nat) (q : Int) : Plain (body m q) := by
  unfold body
  split
  · exact plain_whole _
  · exact plain_positional _

/-- The text of a double reads as zero for zero, and else as a number that rounds to the double. -/
theorem reading_body (c : Canonical m q) :
    m = 0 ∧ reading (body m q).toList = 0 ∨
      0 < m ∧ (ofDouble m q).Holds (reading (body m q).toList) := by
  unfold body
  cases whole : whole? m q with
  | none =>
    have pos := pos_of_whole?_eq_none whole
    exact .inr ⟨pos, by rw [reading_positional]; exact holds_shortest c pos .up⟩
  | some n =>
    have denoted := whole?_eq_some whole
    rcases Nat.eq_zero_or_pos m with rfl | pos
    · exact .inl ⟨rfl, by rw [reading_whole, ← denoted]; simp [Binary64.number]⟩
    · refine .inr ⟨pos, ?_⟩
      rw [reading_whole, ← denoted, ← centre_eq_number]
      exact (sound_ofDouble pos q).holds_centre

/-- One text stands for one mantissa and exponent. -/
theorem body_inj {m' : Nat} {q' : Int} (c : Canonical m q) (c' : Canonical m' q')
    (same : body m q = body m' q') : m = m' ∧ q = q' := by
  have here := reading_body c
  have there := reading_body c'
  rw [← same] at there
  rcases here with ⟨rfl, zero⟩ | ⟨pos, holds⟩ <;> rcases there with ⟨rfl, zero'⟩ | ⟨pos', holds'⟩
  · have lowest : ∀ e, Canonical 0 e → e = -1074 := fun e canonical => by
      have ge := canonical.ge
      have least : ¬ leastNormal ≤ 0 := by decide
      have bound := mt canonical.normal least
      omega
    exact ⟨rfl, (lowest q c).trans (lowest q' c').symm⟩
  · exact absurd zero (holds'.pos pos').ne'
  · exact absurd zero' (holds.pos pos).ne'
  · exact holds.unique c c' pos pos' holds'

/-- No text of a number without a sign begins with one. -/
theorem signed_inj {negative' : Bool} {a b : String} (ha : Plain a) (hb : Plain b)
    (same : signed negative a = signed negative' b) : negative = negative' ∧ a = b := by
  have unsigned {text rest : String} (h : Plain text) : text ≠ "-" ++ rest := by
    rintro rfl
    rcases h '-' (by simp) with digit | point
    · exact absurd digit (by decide)
    · exact absurd point (by decide)
  cases negative <;> cases negative'
  · exact ⟨rfl, same⟩
  · exact (unsigned ha same).elim
  · exact (unsigned hb same.symm).elim
  · have chars := congrArg String.toList same
    simp only [signed, if_true, String.toList_append] at chars
    exact ⟨rfl, String.toList_inj.mp (List.append_cancel_left chars)⟩

/-- A finite number. -/
def Finite (x : Float) : Prop :=
  ∃ negative m q, ofFloat x = .finite negative m q

instance (x : Float) : Decidable (Finite x) :=
  match here : ofFloat x with
  | .finite negative m q => .isTrue ⟨negative, m, q, here⟩
  | .nan | .infinity _ => .isFalse fun ⟨_, _, _, same⟩ => nomatch here.symm.trans same

/-- The characters of a finite number. -/
theorem mem_inTree {x : Float} (hx : Finite x) {c : Char} (hc : c ∈ (inTree x).toList) :
    c.isDigit = true ∨ c = '.' ∨ c = '-' := by
  obtain ⟨negative, m, q, here⟩ := hx
  rw [inTree_eq here, signed] at hc
  have unsigned := plain_body m q c
  cases negative
  · exact (unsigned hc).imp_right .inl
  · rw [if_pos rfl, String.toList_append] at hc
    rcases List.mem_append.mp hc with sign | rest
    · exact .inr (.inr (List.mem_singleton.mp sign))
    · exact (unsigned rest).imp_right .inl

theorem inTree_ne_nil {x : Float} (hx : Finite x) : (inTree x).toList ≠ [] := by
  obtain ⟨negative, m, q, here⟩ := hx
  intro empty
  have none : (body m q).toList = [] := by
    rw [inTree_eq here, signed] at empty
    cases negative
    · exact empty
    · rw [if_pos rfl, String.toList_append] at empty
      exact (List.append_eq_nil_iff.mp empty).2
  rcases reading_body (canonical_of_ofBits here) with ⟨rfl, -⟩ | ⟨pos, holds⟩
  · obtain ⟨n, whole⟩ : ∃ n, whole? 0 q = some n := by
      unfold whole?
      split <;> simp
    simp [body, whole] at none
  · rw [none] at holds
    exact absurd (holds.pos pos) (by simp [reading])

/-- **Finite numbers are told apart by what stands in a tree for them**, both zeros included. -/
theorem inTree_inj {x y : Float} (hx : Finite x) (hy : Finite y) (same : inTree x = inTree y) :
    x = y := by
  obtain ⟨negative, m, q, here⟩ := hx
  obtain ⟨negative', m', q', there⟩ := hy
  rw [inTree_eq here, inTree_eq there] at same
  obtain ⟨rfl, unsigned⟩ := signed_inj (plain_body m q) (plain_body m' q') same
  obtain ⟨rfl, rfl⟩ := body_inj (canonical_of_ofBits here) (canonical_of_ofBits there) unsigned
  exact ofFloat_inj here there

end Lox.Number
