import Mathlib
import Lox.Syntax.Printer
import Lox.Proofs.Bytes.Respaced
import Lox.Proofs.Decimal.Signs
import Lox.Proofs.Parser.Congruence

/-!
# Numbers in listings and in trees

The number of a token is written once in the listing of tokens and once in the tree of the expression
that is made of it. Both write the shortest decimal of a number that is not whole, and both end a
whole number in a zero after the point, but the listing only below `10 ^ 15`. From there on it writes
the shortest decimal too, which has no point and in general not even the same digits.
-/

set_option autoImplicit false

namespace Lox.Decimal

open Binary64 Neighbourhood

variable {m : Nat} {q : Int}

/-! ### Fewest digits -/

theorem toDigits_tenPow (n : Nat) : Nat.toDigits 10 (10 ^ n) = '1' :: zeros n := by
  induction n with
  | zero => rfl
  | succ n ih =>
    have big : 10 ≤ 10 ^ (n + 1) := Nat.le_self_pow (by omega) 10
    rw [Nat.toDigits_of_base_le (by omega) big, Nat.pow_succ, Nat.mul_div_cancel _ (by omega), ih,
      Nat.mul_mod_left, List.cons_append, zeros, zeros, List.replicate_succ']
    rfl

/-- Zeros at the end do not count, so a power of ten has one digit. -/
theorem length_significant_le {d : Decimal} {n : Nat} (hn : 0 < n) (le : d.digits ≤ 10 ^ n) :
    d.significant.1.length ≤ n := by
  rcases Nat.lt_or_eq_of_le le with lt | same
  · have all := congrArg List.length (significant_append d)
    rw [List.length_append] at all
    have few := (Nat.length_toDigits_le_iff (b := 10) (by omega) hn).mpr lt
    omega
  · have one : d.significant.1 = ['1'] := by
      simp [significant, same, toDigits_tenPow, zeros, List.reverse_cons,
        List.dropWhile_append_of_pos]
    rw [one]
    exact hn

/-- A decimal is below the power of ten that has one digit more. -/
theorem number_le (e : Decimal) :
    e.number ≤ 10 ^ ((Nat.toDigits 10 e.digits).length + e.exponent : Int) := by
  have digits : (e.digits : ℚ) ≤ 10 ^ (Nat.toDigits 10 e.digits).length := by
    exact_mod_cast (lt_tenTo_length e.digits).le
  rw [zpow_add₀ (by norm_num), zpow_natCast, Decimal.number]
  gcongr

/-- A decimal lies on every finer grid too. -/
theorem number_onGrid {e : Decimal} {k : Int} (finer : k ≤ e.exponent) :
    number ⟨e.digits * 10 ^ (e.exponent - k).toNat, k⟩ = e.number := by
  rw [Decimal.number, Decimal.number, Nat.cast_mul, Nat.cast_pow, Nat.cast_ofNat, ← zpow_natCast,
    mul_assoc, ← zpow_add₀ (by norm_num)]
  congr 2
  dsimp only
  omega

/-- What is written for a double: a decimal that reads as the double, with no more digits than any
other one that does. -/
structure IsShortest (d : Decimal) (m : Nat) (q : Int) : Prop where
  readsBack : (ofDouble m q).Holds d.number
  fewest : ∀ e : Decimal, (ofDouble m q).Holds e.number →
    d.significant.1.length ≤ (Nat.toDigits 10 e.digits).length

/-- The shortest decimal has no digit before the leading one of the double. -/
theorem length_shortest_le (c : Canonical m q) (hm : 0 < m) (tie : Tie) :
    (shortest tie m q).significant.1.length ≤
      ((ofDouble m q).leading + 1 - (shortest tie m q).exponent).toNat := by
  have sound := sound_ofDouble hm q
  obtain ⟨picked, -, coarse, -⟩ := shortest_spec c hm tie
  have width : (10 : ℚ) ^ ((ofDouble m q).leading + 1) =
      10 ^ ((ofDouble m q).leading + 1 - (shortest tie m q).exponent).toNat *
        10 ^ (shortest tie m q).exponent := by
    rw [← zpow_natCast, ← zpow_add₀ (by norm_num)]
    congr 1
    omega
  refine length_significant_le (by omega) ((le_of_pick? picked).trans ?_)
  have below := (steps_spec sound (shortest tie m q).exponent).1.trans_lt (leading_spec sound).2
  rw [Decimal.number, width] at below
  exact_mod_cast lt_of_mul_lt_mul_right below (by positivity)

/-- No decimal on a coarser grid reads as the double. Those beyond the grid of the leading digit lie
on that grid too. -/
theorem not_holds_of_coarser (c : Canonical m q) (hm : 0 < m) {tie : Tie} {e : Decimal}
    (within : (shortest tie m q).exponent < (ofDouble m q).leading)
    (coarser : (shortest tie m q).exponent < e.exponent) :
    ¬ (ofDouble m q).Holds e.number := by
  intro holds
  have unit := (sound_ofDouble hm q).unit_pos
  obtain ⟨-, -, -, missed⟩ := shortest_spec c hm tie
  rcases le_or_gt e.exponent (ofDouble m q).leading with searched | beyond
  · have hit := (contains_iff unit).mpr holds
    exact Bool.false_ne_true ((missed _ _ coarser searched).symm.trans hit)
  · rw [← number_onGrid beyond.le] at holds
    have hit := (contains_iff unit).mpr holds
    exact Bool.false_ne_true ((missed _ _ within le_rfl).symm.trans hit)

/-- **The shortest decimal has the fewest digits.** A decimal with fewer would lie on a coarser grid,
or below the power of ten at which the double begins, which is then a hit of the first grid. -/
theorem isShortest_shortest (c : Canonical m q) (hm : 0 < m) (tie : Tie) :
    IsShortest (shortest tie m q) m q := by
  refine ⟨holds_shortest c hm tie, fun e holds => ?_⟩
  by_contra more
  have few := length_shortest_le c hm tie
  have some : 0 < (Nat.toDigits 10 e.digits).length := Nat.length_toDigits_pos
  have within : (shortest tie m q).exponent < (ofDouble m q).leading := by omega
  rcases le_or_gt e.exponent (shortest tie m q).exponent with finer | coarser
  · have sound := sound_ofDouble hm q
    have begins : number ⟨1, (ofDouble m q).leading⟩ ≤ (ofDouble m q).centre := by
      simpa [Decimal.number] using (leading_spec sound).1
    have below := calc e.number
        _ ≤ 10 ^ ((Nat.toDigits 10 e.digits).length + e.exponent : Int) := number_le e
        _ ≤ 10 ^ (ofDouble m q).leading := zpow_le_zpow_right₀ (by norm_num) (by omega)
        _ = number ⟨1, (ofDouble m q).leading⟩ := by simp [Decimal.number]
    exact not_holds_of_coarser c hm within within (holds.between sound (.inl ⟨below, begins⟩))
  · exact not_holds_of_coarser c hm within coarser holds

/-- A whole number has no point if its decimal has no places. -/
theorem point_notMem_positional {d : Decimal} (whole : 0 ≤ d.exponent) :
    '.' ∉ d.positional.toList := by
  have exponent : 0 ≤ d.significant.2 := Int.add_nonneg whole (Int.natCast_nonneg _)
  rw [positional, String.toList_ofList, place, if_pos exponent]
  intro point
  have digit := (List.mem_append.mp point).elim (isDigit_significant d _) (isDigit_zeros _)
  exact absurd digit (by decide)

end Lox.Decimal

/-! ### The two renderings -/

namespace Lox.Number

open Binary64 Decimal

variable {m : Nat} {q : Int} {x : Float}

/-- Infinity stands alike in both. -/
theorem renderings_infinity {negative : Bool} (hx : ofFloat x = .infinity negative) :
    listed x = signed negative "inf" ∧ inTree x = signed negative "inf" := by
  constructor <;> simp only [listed, inTree, plain, hx]

/-- A number that is not whole has its shortest decimal in both. -/
theorem renderings_fraction (hx : ofFloat x = .finite false m q) (fraction : whole? m q = none) :
    ∃ d : Decimal, listed x = d.positional ∧ inTree x = d.positional ∧ d.IsShortest m q := by
  have pos := pos_of_whole?_eq_none fraction
  have shown : plain x = (shortest .up m q).positional := plain_of_finite hx pos
  refine ⟨shortest .up m q, ?_, ?_, isShortest_shortest (canonical_of_ofBits hx) pos .up⟩
  · simpa only [listed, hx, fraction] using shown
  · simpa only [inTree, hx, fraction] using shown

theorem listed_of_small (hx : ofFloat x = .finite false m q) {n : Nat}
    (whole : whole? m q = some n) (small : n < 10 ^ 15) : listed x = toString n ++ ".0" := by
  simp only [listed, hx, whole]
  cases n with
  | zero => rfl
  | succ n => exact if_pos small

theorem listed_of_big (hx : ofFloat x = .finite false m q) {n : Nat}
    (whole : whole? m q = some n) (big : 10 ^ 15 ≤ n) :
    '.' ∉ (listed x).toList ∧ ∃ d : Decimal, listed x = d.positional ∧ d.IsShortest m q := by
  have c := canonical_of_ofBits hx
  have denoted := whole?_eq_some whole
  have pos : 0 < m := by
    by_contra zero
    obtain rfl : m = 0 := by omega
    have none : (n : ℚ) = 0 := by rw [← denoted]; simp [Binary64.number]
    have : n = 0 := by exact_mod_cast none
    omega
  have shown : listed x = plain x := by
    simp only [listed, hx, whole]
    cases n with
    | zero => omega
    | succ n => exact if_neg (Nat.not_lt.mpr big)
  rw [shown, plain_of_finite hx pos]
  exact ⟨point_notMem_positional (exponent_shortest_nonneg c pos .up whole), _, rfl,
    isShortest_shortest c pos .up⟩

/-- A whole number has all its digits and a zero after the point in the tree. -/
theorem inTree_of_whole (hx : ofFloat x = .finite false m q) {n : Nat}
    (whole : whole? m q = some n) : inTree x = toString n ++ ".0" := by
  simp only [inTree, hx, whole]
  rfl

/-- The renderings agree except on large whole numbers. -/
theorem listed_eq_inTree_iff (hx : ofFloat x = .finite false m q) :
    listed x = inTree x ↔ ∀ n, whole? m q = some n → n < 10 ^ 15 := by
  constructor
  · intro same n whole
    by_contra big
    have point := (listed_of_big hx whole (Nat.not_lt.mp big)).1
    rw [same, inTree_of_whole hx whole] at point
    simp at point
  · intro small
    cases whole : whole? m q with
    | none =>
      obtain ⟨d, first, second, -⟩ := renderings_fraction hx whole
      exact first.trans second.symm
    | some n =>
      exact (listed_of_small hx whole (small n whole)).trans (inTree_of_whole hx whole).symm

end Lox.Number

namespace Lox

open Binary64 Decimal

/-- The value of a number token is that of its digits. -/
theorem value_of_mem_scan {source : String} {t : Token} {value : Float}
    (member : t ∈ (scan source).1) (number : t.kind = .number value) :
    ∃ digits places, value = Float.ofScientific digits true places := by
  rcases lexeme_of_mem_scan member with ended | lexeme
  · exact nomatch number.symm.trans ended
  · rw [number] at lexeme
    generalize t.lexeme.toList = text at lexeme
    cases lexeme with
    | whole _ => exact ⟨_, _, rfl⟩
    | decimal _ _ => exact ⟨_, _, rfl⟩

/-- **The two renderings of a number differ for whole numbers from `10 ^ 15` on, and for no others.**
For a number token of any source, of which the parser makes the literal wherever it meets it, both are
`inf` for infinity. A whole number has all its digits and a zero after the point in the tree, and
likewise in the listing below `10 ^ 15`; from there on the listing has the shortest decimal, without a
point. Any other number has the shortest decimal in both. -/
theorem renderings_of_number_token {source : String} {t : Token} {value : Float}
    (member : t ∈ (scan source).1) (number : t.kind = .number value) :
    (∀ expr c, c.current = t →
      Parser.primary expr c = .ok (.literal (.number value)) c.moved) ∧
    (t.literal = (Literal.number value).inTree ↔
      ∀ m q n, ofFloat value = .finite false m q → whole? m q = some n → n < 10 ^ 15) ∧
    ((ofFloat value = .infinity false ∧ t.literal = "inf" ∧ (Literal.number value).inTree = "inf") ∨
      ∃ m q, ofFloat value = .finite false m q ∧
        (∀ n, whole? m q = some n →
          (Literal.number value).inTree = toString n ++ ".0" ∧
          (n < 10 ^ 15 → t.literal = toString n ++ ".0") ∧
          (10 ^ 15 ≤ n → '.' ∉ t.literal.toList ∧
            ∃ d : Decimal, t.literal = d.positional ∧ d.IsShortest m q)) ∧
        (whole? m q = none →
          ∃ d : Decimal, t.literal = d.positional ∧ (Literal.number value).inTree = d.positional ∧
            d.IsShortest m q)) := by
  have listing : t.literal = Number.listed value := by
    unfold Token.literal
    rw [number]
  obtain ⟨digits, places, rfl⟩ := value_of_mem_scan member number
  refine ⟨fun expr c here => Parser.primary_of_literal expr (by rw [here, number]; rfl), ?_⟩
  rw [listing, Literal.inTree]
  rcases ofFloat_ofScientific digits places with infinite | ⟨m, q, finite⟩
  · obtain ⟨first, second⟩ := Number.renderings_infinity infinite
    refine ⟨⟨fun _ m q n finite => ?_, fun _ => first.trans second.symm⟩,
      .inl ⟨infinite, first, second⟩⟩
    exact nomatch infinite.symm.trans finite
  · refine ⟨(Number.listed_eq_inTree_iff finite).trans ⟨fun small m' q' n finite' whole => ?_,
      fun small n whole => small m q n finite whole⟩, .inr ⟨m, q, finite, fun n whole =>
        ⟨Number.inTree_of_whole finite whole, Number.listed_of_small finite whole,
          Number.listed_of_big finite whole⟩, Number.renderings_fraction finite⟩⟩
    cases finite.symm.trans finite'
    exact small n whole

/-- Finds a number token with the given renderings. -/
private theorem exists_of_check {source listing tree : String}
    (found : ((scan source).1.any fun t =>
      match t.kind with
      | .number value => t.literal == listing && (Literal.number value).inTree == tree
      | _ => false) = true) :
    ∃ t ∈ (scan source).1, ∃ value, t.kind = .number value ∧ t.literal = listing ∧
      (Literal.number value).inTree = tree := by
  obtain ⟨t, member, passes⟩ := List.any_eq_true.mp found
  split at passes
  · next value number =>
    simp only [Bool.and_eq_true, beq_iff_eq] at passes
    exact ⟨t, member, value, number, passes⟩
  · cases passes

/-- A number with decimal places, of which the zero at the end is left out in both. -/
theorem fraction_is_rendered_alike :
    ∃ t ∈ (scan "print 2.50;").1, ∃ value, t.kind = .number value ∧
      (∀ expr c, c.current = t →
        Parser.primary expr c = .ok (.literal (.number value)) c.moved) ∧
      t.literal = "2.5" ∧ (Literal.number value).inTree = "2.5" ∧
      ∀ m q n, ofFloat value = .finite false m q → whole? m q = some n → n < 10 ^ 15 := by
  obtain ⟨t, member, value, number, listing, tree⟩ :=
    @exists_of_check "print 2.50;" "2.5" "2.5" (by decide +kernel)
  obtain ⟨literal, alike, -⟩ := renderings_of_number_token member number
  exact ⟨t, member, value, number, literal, listing, tree,
    alike.mp (listing.trans tree.symm)⟩

/-- `10 ^ 15` is listed without the zero that it has in the tree, and of `10 ^ 23` not even the digits
are the same. -/
theorem large_numbers_are_rendered_differently :
    (∃ t ∈ (scan "1000000000000000").1, ∃ value, t.kind = .number value ∧
      t.literal = "1000000000000000" ∧
      (Literal.number value).inTree = "1000000000000000.0") ∧
    ∃ t ∈ (scan "100000000000000000000000").1, ∃ value, t.kind = .number value ∧
      t.literal = "100000000000000000000000" ∧
      (Literal.number value).inTree = "99999999999999991611392.0" :=
  ⟨exists_of_check (by decide +kernel), exists_of_check (by decide +kernel)⟩

end Lox
