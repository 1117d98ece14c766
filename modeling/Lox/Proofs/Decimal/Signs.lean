import Mathlib
import Lox.Proofs.Bytes.Lexemes
import Lox.Proofs.Decimal.Readings

/-!
# Numbers of a source have no sign

A minus is a token of its own, so the value of a number token comes from digits alone. It is rounded
from a quotient of natural numbers with a positive sign, and rounding keeps the sign and makes no NaN:
the value is a finite number without a sign, or infinity.
-/

set_option autoImplicit false

open Float.Model (Format UnpackedFloat)
open Float.Model.UnpackedFloat

namespace Lox.Binary64

/-- Whether an unpacked number is one, and without a sign. -/
def Unsigned : UnpackedFloat → Prop
  | .notANumber => False
  | .infinity sign | .zero sign => sign = .positive
  | .finite sign _ _ _ => sign = .positive

section

variable {spec : Format} {u v : UnpackedFloat}

theorem unsigned_roundWithAccuracy (m : Nat) (e : Int) (accuracy : Accuracy) :
    Unsigned (roundWithAccuracy spec .positive m e accuracy) := by
  unfold roundWithAccuracy
  dsimp only
  split <;> rfl

/-- A quotient by a positive number. -/
theorem unsigned_div (first : Unsigned u) {m : Nat} {e : Int} {pos : 0 < m} :
    Unsigned (div spec u (.finite .positive m e pos)) := by
  cases u with
  | notANumber => exact first
  | infinity sign | zero sign =>
    obtain rfl : sign = .positive := first
    rfl
  | finite sign _ _ _ =>
    obtain rfl : sign = .positive := first
    exact unsigned_roundWithAccuracy _ _ _

theorem unsigned_ofScientific (m : Nat) (e : Int) :
    Unsigned (UnpackedFloat.ofScientific spec m e) := by
  unfold UnpackedFloat.ofScientific
  split
  · rfl
  split
  · rfl
  split
  · rfl
  split <;> exact unsigned_roundWithAccuracy _ _ _

theorem unsigned_ofUInt64 (n : UInt64) : Unsigned (UnpackedFloat.ofUInt64 spec n) := by
  unfold UnpackedFloat.ofUInt64 UnpackedFloat.ofNat UnpackedFloat.ofInt UnpackedFloat.normalize
  split
  · next below =>
    have neg : (n.toNat : Int) < 0 := Int.compare_eq_lt.mp below
    omega
  · rfl
  · exact unsigned_roundWithAccuracy _ _ _

end

/-! ### Packing -/

/-- What is said of packed bits: no sign, and no NaN. -/
structure UnsignedBits (b : BitVec Format.binary64.numBits) : Prop where
  sign : unpackSign b = Sign.toBitVec .positive
  number : unpackExponent b = -1#_ → unpackMantissa b = 0#_

theorem unsignedBits_pack {u : UnpackedFloat} (unsigned : Unsigned u) :
    UnsignedBits (pack .binary64 u) := by
  cases u with
  | notANumber => exact unsigned.elim
  | infinity sign =>
    obtain rfl : sign = .positive := unsigned
    exact ⟨by simp [pack, packedInfinity], by simp [pack, packedInfinity]⟩
  | zero sign =>
    obtain rfl : sign = .positive := unsigned
    exact ⟨by simp [pack, packedZero], by simp [pack, packedZero]⟩
  | finite sign m e pos =>
    obtain rfl : sign = .positive := unsigned
    unfold pack
    dsimp only
    split
    · exact ⟨by simp [packedInfinity], by simp [packedInfinity]⟩
    · next fits =>
      split
      · refine ⟨by simp, fun all => ?_⟩
        rw [unpackExponent_packComponents, BitVec.neg_one_eq_allOnes, ← BitVec.toNat_inj] at all
        simp at all
        omega
      · refine ⟨by simp, fun all => ?_⟩
        simp at all

theorem unsigned_unpack {b : BitVec Format.binary64.numBits} (bits : UnsignedBits b) :
    Unsigned (unpack .binary64 b) := by
  have sign : Sign.ofBitVec (unpackSign b) = .positive := by
    rw [bits.sign]
    rfl
  unfold unpack
  dsimp only
  rw [sign]
  split
  · next all =>
    rw [if_pos (bits.number all)]
    rfl
  · split
    · split <;> rfl
    · rfl

/-- The three fields, cut out of the word. -/
theorem toNat_fields (b : BitVec Format.binary64.numBits) :
    (unpackSign b).toNat = b.toNat / twoTo 63 % 2 ∧
      (unpackExponent b).toNat = b.toNat / leastNormal % 2048 ∧
      (unpackMantissa b).toNat = b.toNat % leastNormal := by
  simp only [unpackSign_def, unpackExponent_def, unpackMantissa_def, BitVec.extractLsb'_toNat,
    Nat.shiftRight_eq_div_pow]
  exact ⟨rfl, rfl, by simp [leastNormal, twoTo]⟩

theorem ofBits_of_unsignedBits {bits : UInt64} (unsigned : UnsignedBits bits.toBitVec) :
    ofBits bits = .infinity false ∨ ∃ m q, ofBits bits = .finite false m q := by
  let b : BitVec Format.binary64.numBits := bits.toBitVec
  obtain ⟨sign, exponent, mantissa⟩ := toNat_fields b
  have size : bits.toNat / twoTo 63 < 2 :=
    Nat.div_lt_of_lt_mul (by simpa [twoTo] using bits.toNat_lt)
  have negative : bits.toNat / twoTo 63 = 0 := by
    have zero := congrArg BitVec.toNat unsigned.sign
    rw [sign] at zero
    exact (Nat.mod_eq_of_lt size).symm.trans zero
  unfold ofBits
  simp only [negative]
  split
  · next all =>
    have ones : unpackExponent b = -1#_ := by
      rw [← BitVec.toNat_inj, exponent]
      exact all
    have none := congrArg BitVec.toNat (unsigned.number ones)
    rw [mantissa] at none
    exact .inl (if_pos none)
  · split
    · exact .inr ⟨_, _, rfl⟩
    · exact .inr ⟨_, _, rfl⟩

/-- The powers of ten that are doubles. -/
theorem powersOfTen_finite (i : Fin 23) :
    ∃ m e pos, Float.Model.unpack (Float.exactlyRepresentablePowersOfTen[i]).toModel =
      .finite .positive m e pos := by
  have check : ∀ i : Fin 23,
      (match Float.Model.unpack (Float.exactlyRepresentablePowersOfTen[i]).toModel with
        | .finite .positive _ _ _ => true
        | _ => false) = true := by
    decide +kernel
  have here := check i
  split at here
  · next m e pos same => exact ⟨m, e, pos, same⟩
  · cases here

/-- **The value of a number token is infinity or a finite number without a sign.** -/
theorem ofFloat_ofScientific (n k : Nat) :
    ofFloat (Float.ofScientific n true k) = .infinity false ∨
      ∃ m q, ofFloat (Float.ofScientific n true k) = .finite false m q := by
  refine ofBits_of_unsignedBits ?_
  unfold Float.ofScientific
  split
  case isTrue small =>
    obtain ⟨m, e, pos, same⟩ := powersOfTen_finite ⟨k, by omega⟩
    have whole : Unsigned (Float.Model.unpack n.toUInt64.toFloat.toModel) :=
      unsigned_unpack (unsignedBits_pack (unsigned_ofUInt64 n.toUInt64))
    refine unsignedBits_pack (u := div .binary64 (Float.Model.unpack n.toUInt64.toFloat.toModel)
      (Float.Model.unpack (Float.exactlyRepresentablePowersOfTen[(⟨k, by omega⟩ : Fin 23)]).toModel))
      ?_
    rw [same]
    exact unsigned_div whole
  case isFalse => exact unsignedBits_pack (unsigned_ofScientific n _)

end Lox.Binary64
