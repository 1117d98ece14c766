import Lox.Text.Utf8

/-!
# Texts as bytes

A text is read byte by byte. What a reader looks for is always a character below 128, and this is
why it need not know where characters begin: such a character is one byte, that of its code, and all
bytes of all other characters are 128 or more (`utf8EncodeChar_cases`). So a search for it among the
bytes finds what a search among the characters finds (`takeWhile_encode`).

Slices are another matter. A slice of the bytes is a text only where it begins and ends between two
characters, and taking any other is an error (`slice?`).
-/

set_option autoImplicit false

namespace Lox.Utf8

/-- The bytes of a text. -/
def encode (cs : List Char) : List UInt8 :=
  cs.flatMap String.utf8EncodeChar

@[simp]
theorem encode_nil : encode [] = [] := rfl

@[simp]
theorem encode_cons (c : Char) (cs : List Char) :
    encode (c :: cs) = String.utf8EncodeChar c ++ encode cs := rfl

@[simp]
theorem encode_append (cs ds : List Char) : encode (cs ++ ds) = encode cs ++ encode ds :=
  List.flatMap_append

/-- Every character has a byte. -/
theorem length_le_encode (cs : List Char) : cs.length ≤ (encode cs).length := by
  induction cs with
  | nil => exact Nat.le_refl 0
  | cons c cs ih =>
    have positive := c.utf8Size_pos
    rw [encode_cons, List.length_append, String.length_utf8EncodeChar, List.length_cons]
    omega

/-- The bytes of a string are those in which it is stored. -/
theorem data_toUTF8 (s : String) : s.toUTF8.data.toList = encode s.toList := by
  rw [String.toUTF8_eq_toByteArray, ← String.utf8Encode_toList]
  simp [List.utf8Encode, encode, List.data_toByteArray]

/-! ## Characters below 128 -/

theorem toNat_ofUInt8 (b : UInt8) : (Char.ofUInt8 b).toNat = b.toNat := by
  unfold Char.ofUInt8 Char.toNat
  simp

/-- A byte that is made by setting some bits is at least those bits. -/
theorem le_or (x y : UInt8) : y ≤ x ||| y := by
  rw [UInt8.le_iff_toNat_le, UInt8.toNat_or]
  exact Nat.right_le_or

/-- A character is one byte of its code, or several bytes that are all 128 or more, the first of
which continues no character. -/
theorem utf8EncodeChar_cases (c : Char) :
    (c.toNat < 128 ∧ ∃ b, String.utf8EncodeChar c = [b] ∧ Char.ofUInt8 b = c) ∨
    (128 ≤ c.toNat ∧ ∃ b bs, String.utf8EncodeChar c = b :: bs ∧ 0xC0 ≤ b ∧
      ∀ x ∈ b :: bs, 128 ≤ x) := by
  have wide {x y z : UInt8} (le : y ≤ z) : y ≤ x ||| z := UInt8.le_trans le (le_or x z)
  -- By the number of bytes. Where there are several, each is made by setting the highest bit, and
  -- the first one by setting the next bit too.
  rcases c.utf8Size_eq with one | two | three | four
  · left
    have small : c.toNat ≤ 127 := Char.utf8Size_eq_one_iff.mp one
    refine ⟨by omega, _, String.utf8EncodeChar_eq_singleton one, ?_⟩
    apply Char.ext
    rw [← UInt32.toNat_inj]
    show (Char.ofUInt8 c.val.toUInt8).toNat = c.toNat
    rw [toNat_ofUInt8, UInt32.toNat_toUInt8]
    exact Nat.mod_eq_of_lt (Nat.lt_of_le_of_lt small (by decide))
  · right
    have large : 127 < c.toNat := (Char.utf8Size_eq_two_iff.mp two).1
    refine ⟨by omega, _, _, String.utf8EncodeChar_eq_cons_cons two, wide (by decide), ?_⟩
    simp only [List.forall_mem_cons, List.not_mem_nil, false_imp_iff, implies_true, and_true]
    exact ⟨wide (by decide), wide (by decide)⟩
  · right
    have large : 0x7ff < c.toNat := (Char.utf8Size_eq_three_iff.mp three).1
    refine ⟨by omega, _, _, String.utf8EncodeChar_eq_cons_cons_cons three, wide (by decide), ?_⟩
    simp only [List.forall_mem_cons, List.not_mem_nil, false_imp_iff, implies_true, and_true]
    exact ⟨wide (by decide), wide (by decide), wide (by decide)⟩
  · right
    have large : 0xffff < c.toNat := Char.utf8Size_eq_four_iff.mp four
    refine ⟨by omega, _, _, String.utf8EncodeChar_eq_cons_cons_cons_cons four, wide (by decide), ?_⟩
    simp only [List.forall_mem_cons, List.not_mem_nil, false_imp_iff, implies_true, and_true]
    exact ⟨wide (by decide), wide (by decide), wide (by decide), wide (by decide)⟩

theorem length_encode_singleton {c : Char} (small : c.toNat < 128) : (encode [c]).length = 1 := by
  rcases utf8EncodeChar_cases c with ⟨-, b, bytes, -⟩ | ⟨large, -⟩
  · rw [encode_cons, bytes]
    rfl
  · omega

/-- Whether a test on characters takes all those from 128 on alike. -/
def Uniform (p : Char → Bool) : Prop :=
  ∃ v, ∀ c, 128 ≤ c.toNat → p c = v

/-- A test that is uniform takes a character for all of its bytes. -/
theorem Uniform.encodeChar {p : Char → Bool} (uniform : Uniform p) (c : Char) :
    ∃ b bs, String.utf8EncodeChar c = b :: bs ∧ ∀ x ∈ b :: bs, p (Char.ofUInt8 x) = p c := by
  rcases utf8EncodeChar_cases c with ⟨-, b, bytes, same⟩ | ⟨large, b, bs, bytes, -, all⟩
  · refine ⟨b, [], bytes, fun x member => ?_⟩
    rw [List.mem_singleton.mp member, same]
  · obtain ⟨v, beyond⟩ := uniform
    refine ⟨b, bs, bytes, fun x member => ?_⟩
    have far : 128 ≤ (Char.ofUInt8 x).toNat := by
      rw [toNat_ofUInt8]
      exact UInt8.le_iff_toNat_le.mp (all x member)
    rw [beyond _ far, beyond _ large]

/-- **A search among the bytes is one among the characters.** -/
theorem takeWhile_encode {p : Char → Bool} (uniform : Uniform p) (cs : List Char) :
    (encode cs).takeWhile (fun b => p (Char.ofUInt8 b)) = encode (cs.takeWhile p) := by
  induction cs with
  | nil => rfl
  | cons c cs ih =>
    obtain ⟨b, bs, bytes, alike⟩ := uniform.encodeChar c
    by_cases passes : p c
    · have all : ∀ x ∈ b :: bs, p (Char.ofUInt8 x) = true := fun x member =>
        (alike x member).trans passes
      rw [List.takeWhile_cons_of_pos passes, encode_cons, encode_cons, bytes,
        List.takeWhile_append_of_pos all, ih]
    · have stops : ¬p (Char.ofUInt8 b) = true := by rwa [alike b List.mem_cons_self]
      rw [List.takeWhile_cons_of_neg passes, encode_cons, bytes, List.cons_append]
      exact List.takeWhile_cons_of_neg stops

/-- The first byte is as good as the first character. -/
theorem any_head?_encode {p : Char → Bool} (uniform : Uniform p) (cs : List Char) :
    (encode cs).head?.any (fun b => p (Char.ofUInt8 b)) = cs.head?.any p := by
  cases cs with
  | nil => rfl
  | cons c cs =>
    obtain ⟨b, bs, bytes, alike⟩ := uniform.encodeChar c
    rw [encode_cons, bytes]
    exact alike b List.mem_cons_self

section

variable {d : Char} (small : d.toNat < 128)
include small

theorem uniform_beq : Uniform (· == d) := by
  refine ⟨false, fun c large => beq_eq_false_iff_ne.mpr fun same => ?_⟩
  rw [same] at large
  omega

/-- The byte of a character below 128 is found in that character and in no other. -/
theorem encodeChar_beq (c : Char) :
    (c = d ∧ ∃ b, String.utf8EncodeChar d = [b] ∧ (Char.ofUInt8 b == d) = true) ∨
    (c ≠ d ∧ ∀ x ∈ String.utf8EncodeChar c, (Char.ofUInt8 x == d) = false) := by
  obtain ⟨b, bs, bytes, alike⟩ := (uniform_beq small).encodeChar c
  by_cases same : c = d
  · left
    rcases utf8EncodeChar_cases d with ⟨-, b, bytes, back⟩ | ⟨large, -⟩
    · exact ⟨same, b, bytes, beq_iff_eq.mpr back⟩
    · omega
  · right
    refine ⟨same, fun x member => ?_⟩
    rw [bytes] at member
    exact (alike x member).trans (beq_eq_false_iff_ne.mpr same)

/-- The bytes of a character below 128 are counted as the character is. -/
theorem count_encode (cs : List Char) :
    (encode cs).countP (fun b => Char.ofUInt8 b == d) = cs.count d := by
  induction cs with
  | nil => rfl
  | cons c cs ih =>
    rw [encode_cons, List.countP_append, ih, List.count_cons, Nat.add_comm]
    congr 1
    rcases encodeChar_beq small c with ⟨rfl, b, bytes, found⟩ | ⟨other, none_⟩
    · simp [bytes, found]
    · rw [if_neg (by simpa using other), List.countP_eq_zero]
      intro x member
      rw [none_ x member]
      exact Bool.false_ne_true

/-- The first byte of a character below 128 is found where the character is. -/
theorem findIdx?_encode (cs : List Char) :
    (encode cs).findIdx? (fun b => Char.ofUInt8 b == d) =
      if (cs.dropWhile (· != d)).isEmpty then none
      else some (encode (cs.takeWhile (· != d))).length := by
  induction cs with
  | nil => rfl
  | cons c cs ih =>
    rcases encodeChar_beq small c with ⟨rfl, b, bytes, found⟩ | ⟨other, none_⟩
    · simp [bytes, List.findIdx?_cons, found]
    · have missing : (String.utf8EncodeChar c).findIdx? (fun b => Char.ofUInt8 b == d) = none :=
        List.findIdx?_eq_none_iff.mpr none_
      rw [encode_cons, List.findIdx?_append, missing, ih, Option.none_or]
      simp only [List.dropWhile_cons, List.takeWhile_cons, bne_iff_ne.mpr other, if_true]
      by_cases last : (cs.dropWhile (· != d)).isEmpty
      · simp [last]
      · simp [last, Nat.add_comm]

end

/-! ## Slices -/

/-- Whether a place among bytes is not inside a character: it is at the end, or the byte there
continues no character. -/
def isBoundary (bytes : List UInt8) (i : Nat) : Bool :=
  match bytes[i]? with
  | some b => !isContinuation b
  | none => i == bytes.length

/-- The text between two places among bytes. It is an error to slice a character. -/
def slice? (bytes : List UInt8) (i j : Nat) : Option String :=
  if i ≤ j && isBoundary bytes i && isBoundary bytes j then
    String.fromUTF8? ((bytes.take j).drop i).toByteArray
  else
    none

/-- Between two characters there is a boundary. -/
theorem isBoundary_encode (before after : List Char) :
    isBoundary (encode (before ++ after)) (encode before).length = true := by
  unfold isBoundary
  rw [encode_append, List.getElem?_append_right (Nat.le_refl _), Nat.sub_self]
  cases after with
  | nil => simp
  | cons c cs =>
    -- The byte is the first one of a character: it is below 128, or 0xC0 or more.
    rcases utf8EncodeChar_cases c with ⟨small, b, bytes, same⟩ | ⟨-, b, bs, bytes, large, -⟩
    · have below : b.toNat < 128 := by rwa [← toNat_ofUInt8, same]
      have alone : ¬0x80 ≤ b := fun le => by
        have : 128 ≤ b.toNat := UInt8.le_iff_toNat_le.mp le
        omega
      rw [encode_cons, bytes]
      simp [isContinuation, alone]
    · have first : ¬b ≤ 0xBF := fun le => by
        have lower : b.toNat ≤ 0xBF := UInt8.le_iff_toNat_le.mp le
        have upper : 0xC0 ≤ b.toNat := UInt8.le_iff_toNat_le.mp large
        omega
      rw [encode_cons, bytes]
      simp [isContinuation, first]

theorem fromUTF8?_encode (cs : List Char) :
    String.fromUTF8? (encode cs).toByteArray = some (String.ofList cs) := by
  have valid : (encode cs).toByteArray.IsValidUTF8 := ⟨cs, rfl⟩
  unfold String.fromUTF8?
  rw [dif_pos valid]
  rfl

/-- **A slice between characters is the text there.** -/
theorem slice?_encode (before inside after : List Char) :
    slice? (encode (before ++ inside ++ after)) (encode before).length
      (encode (before ++ inside)).length = some (String.ofList inside) := by
  have start : isBoundary (encode (before ++ inside ++ after)) (encode before).length = true := by
    rw [List.append_assoc]
    exact isBoundary_encode before (inside ++ after)
  have stop := isBoundary_encode (before ++ inside) after
  unfold slice?
  rw [start, stop, encode_append (before ++ inside), List.take_left, encode_append, List.drop_left,
    fromUTF8?_encode]
  simp

end Lox.Utf8
