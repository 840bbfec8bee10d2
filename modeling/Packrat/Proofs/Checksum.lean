import Mathlib
import Packrat.Checksum

/-!
# What checksums tell apart

Two byte strings that differ in nothing but four adjacent bytes have two checksums. The bytes come
into the remainder as one word, and shifting bits out of a remainder loses nothing.
-/

namespace Packrat

/-- The last bit of a word is set just when the word is odd. -/
theorem and_one_eq_one_iff (r : UInt32) : r &&& 1 = 1 ↔ r.toNat % 2 = 1 := by
  rw [← UInt32.toNat_inj]
  simp

/-- To shift a word by one bit is to halve it. -/
theorem toNat_shiftRight_one (r : UInt32) : (r >>> 1).toNat = r.toNat / 2 := by
  simp [Nat.shiftRight_eq_div_pow]

/-- The high bit of a remainder tells which bit was shifted out. -/
theorem crcBit_injective {r r' : UInt32} (h : crcBit r = crcBit r') : r = r' := by
  have hhigh : ∀ x y : UInt32, (x >>> 1) ^^^ (0xEDB88320 : UInt32) ≠ y >>> 1 := by
    intro x y hxy
    have hpolynomial : (0xEDB88320 : UInt32) = (x >>> 1) ^^^ (y >>> 1) := by
      rw [← hxy, ← UInt32.xor_assoc, UInt32.xor_self, UInt32.zero_xor]
    have hx := x.toNat_lt
    have hy := y.toNat_lt
    have hlt : ((x >>> 1) ^^^ (y >>> 1)).toNat < 2 ^ 31 := by
      rw [UInt32.toNat_xor, toNat_shiftRight_one, toNat_shiftRight_one]
      exact Nat.xor_lt_two_pow (by omega) (by omega)
    rw [← hpolynomial] at hlt
    exact absurd hlt (by decide)
  have hsame : r >>> 1 = r' >>> 1 → (r &&& 1 = 1 ↔ r' &&& 1 = 1) → r = r' := by
    intro hshift hlow
    have hhalf := congrArg UInt32.toNat hshift
    rw [toNat_shiftRight_one, toNat_shiftRight_one] at hhalf
    rw [and_one_eq_one_iff, and_one_eq_one_iff] at hlow
    exact UInt32.toNat_inj.mp (by omega)
  unfold crcBit at h
  split at h <;> split at h
  · exact hsame ((UInt32.xor_left_inj _).mp h) (by simp [*])
  · exact absurd h (hhigh r r')
  · exact absurd h.symm (hhigh r' r)
  · exact hsame h (by simp [*])

/-- No bits that are shifted out of a remainder are lost. -/
theorem repeat_crcBit_injective (n : Nat) {r r' : UInt32}
    (h : Nat.repeat crcBit n r = Nat.repeat crcBit n r') : r = r' := by
  induction n with
  | zero => exact h
  | succ n ih => exact ih (crcBit_injective h)

/-- A bit of a remainder is shifted out apart from what comes in above it. -/
theorem crcBit_xor_double {m : Nat} (hm : 2 * m < UInt32.size) (r : UInt32) :
    crcBit (r ^^^ UInt32.ofNat (2 * m)) = crcBit r ^^^ UInt32.ofNat m := by
  have htoNat : (UInt32.ofNat (2 * m)).toNat = 2 * m := UInt32.toNat_ofNat_of_lt' hm
  have hlow : (r ^^^ UInt32.ofNat (2 * m)) &&& 1 = 1 ↔ r &&& 1 = 1 := by
    rw [and_one_eq_one_iff, and_one_eq_one_iff, UInt32.toNat_xor, htoNat, Nat.xor_mod_two_eq_one]
    omega
  have hhalf : UInt32.ofNat (2 * m) >>> 1 = UInt32.ofNat m := by
    rw [← UInt32.toNat_inj, toNat_shiftRight_one, htoNat,
      UInt32.toNat_ofNat_of_lt' (by omega : m < UInt32.size)]
    omega
  unfold crcBit
  rw [UInt32.shiftRight_xor, hhalf]
  simp only [hlow]
  split
  · rw [UInt32.xor_assoc, UInt32.xor_comm (UInt32.ofNat m), ← UInt32.xor_assoc]
  · rfl

/-- A word without low bits only moves. -/
theorem repeat_crcBit_xor (n : Nat) {m : Nat} (hm : m * 2 ^ n < UInt32.size) (r : UInt32) :
    Nat.repeat crcBit n (r ^^^ UInt32.ofNat (m * 2 ^ n)) =
      Nat.repeat crcBit n r ^^^ UInt32.ofNat m := by
  induction n generalizing m with
  | zero => rw [Nat.pow_zero, Nat.mul_one]; rfl
  | succ n ih =>
    have hword : m * 2 ^ (n + 1) = 2 * m * 2 ^ n := by rw [Nat.pow_succ]; ac_rfl
    have hdouble : 2 * m < UInt32.size :=
      Nat.lt_of_le_of_lt (Nat.le_mul_of_pos_right _ (Nat.two_pow_pos n)) (hword ▸ hm)
    rw [hword] at hm ⊢
    rw [Nat.repeat, ih hm, crcBit_xor_double hdouble]
    rfl

/-- Bits are shifted out one after the other. -/
theorem repeat_crcBit_repeat (m n : Nat) (r : UInt32) :
    Nat.repeat crcBit m (Nat.repeat crcBit n r) = Nat.repeat crcBit (m + n) r := by
  induction m with
  | zero => rw [Nat.zero_add]; rfl
  | succ m ih => rw [Nat.succ_add, Nat.repeat, ih, Nat.repeat]

/-- The word of some bytes, the first of which is the lowest. -/
def word : List UInt8 → Nat
  | [] => 0
  | b :: bytes => b.toNat + word bytes * 2 ^ 8

/-- A word of so many bytes has eight times as many bits. -/
theorem word_lt (bytes : List UInt8) : word bytes < 2 ^ (8 * bytes.length) := by
  induction bytes with
  | nil => decide
  | cons b bytes ih =>
    have hb := b.toNat_lt
    have hpow : 2 ^ (8 * (b :: bytes).length) = 2 ^ (8 * bytes.length) * 2 ^ 8 := by
      rw [List.length_cons, Nat.mul_succ, Nat.pow_add]
    rw [word, hpow]
    omega

/-- Bytes are told by the word that they make. -/
theorem word_injective {bytes bytes' : List UInt8} (hlength : bytes.length = bytes'.length)
    (h : word bytes = word bytes') : bytes = bytes' := by
  induction bytes generalizing bytes' with
  | nil => exact (List.eq_nil_of_length_eq_zero hlength.symm).symm
  | cons b bytes ih =>
    cases bytes' with
    | nil => cases hlength
    | cons b' bytes' =>
      have hb := b.toNat_lt
      have hb' := b'.toNat_lt
      simp only [word] at h
      rw [ih (Nat.succ.inj hlength) (by omega), UInt8.toNat_inj.mp (by omega : b.toNat = b'.toNat)]

/-- A word begins with the lowest byte. -/
theorem word_cons (b : UInt8) (bytes : List UInt8) :
    UInt32.ofNat (word (b :: bytes)) =
      UInt32.ofNat b.toNat ^^^ UInt32.ofNat (word bytes * 2 ^ 8) := by
  have hxor : b.toNat + word bytes * 2 ^ 8 = b.toNat ^^^ word bytes * 2 ^ 8 := by
    refine Nat.eq_of_testBit_eq fun i => ?_
    rw [Nat.testBit_xor, Nat.add_comm, Nat.mul_comm, Nat.testBit_two_pow_mul_add _ b.toNat_lt,
      Nat.testBit_two_pow_mul]
    split
    · rename_i hi
      simp [Nat.not_le.mpr hi]
    · rename_i hi
      rw [Nat.testBit_lt_two_pow (Nat.lt_of_lt_of_le b.toNat_lt
        (Nat.pow_le_pow_right (by decide) (Nat.not_lt.mp hi)))]
      simp [Nat.not_lt.mp hi]
  rw [word, hxor, UInt32.ofNat_xor]

/-- Up to four bytes come into the remainder as one word. -/
theorem foldl_crcByte_eq {bytes : List UInt8} (hlength : bytes.length ≤ 4) (r : UInt32) :
    bytes.foldl crcByte r =
      Nat.repeat crcBit (8 * bytes.length) (r ^^^ UInt32.ofNat (word bytes)) := by
  induction bytes generalizing r with
  | nil => simp [word, Nat.repeat]
  | cons b bytes ih =>
    rw [List.length_cons] at hlength
    have hword : word bytes * 2 ^ 8 < UInt32.size := by
      calc word bytes * 2 ^ 8 < 2 ^ (8 * bytes.length) * 2 ^ 8 :=
            Nat.mul_lt_mul_of_pos_right (word_lt bytes) (by decide)
        _ = 2 ^ (8 * bytes.length + 8) := (Nat.pow_add _ _ _).symm
        _ ≤ 2 ^ 32 := Nat.pow_le_pow_right (by decide) (by omega)
    rw [List.foldl_cons, ih (by omega), crcByte, ← repeat_crcBit_xor 8 hword, repeat_crcBit_repeat,
      word_cons, UInt32.xor_assoc, List.length_cons, Nat.mul_succ 8 bytes.length]

/-- Bytes that come into two remainders leave distinct ones distinct. -/
theorem foldl_crcByte_injective (bytes : List UInt8) {r r' : UInt32}
    (h : bytes.foldl crcByte r = bytes.foldl crcByte r') : r = r' := by
  induction bytes generalizing r r' with
  | nil => exact h
  | cons b bytes ih => exact (UInt32.xor_left_inj _).mp (repeat_crcBit_injective 8 (ih h))

/-- Byte strings of one checksum that differ only between a common beginning and a common end
differ there in more than four bytes. -/
theorem eq_of_crc32_eq {front mid mid' behind : List UInt8}
    (h : crc32 (front ++ mid ++ behind) = crc32 (front ++ mid' ++ behind))
    (hlength : mid.length = mid'.length) (hfour : mid.length ≤ 4) : mid = mid' := by
  have hfold := (UInt32.xor_left_inj _).mp h
  simp only [List.foldl_append] at hfold
  have hmid := foldl_crcByte_injective behind hfold
  generalize front.foldl crcByte 0xFFFFFFFF = r at hmid
  rw [foldl_crcByte_eq hfour, foldl_crcByte_eq (hlength ▸ hfour), hlength] at hmid
  have hword := (UInt32.xor_right_inj _).mp (repeat_crcBit_injective _ hmid)
  have hlt : ∀ bytes : List UInt8, bytes.length ≤ 4 → word bytes < UInt32.size := fun bytes hle =>
    calc word bytes < 2 ^ (8 * bytes.length) := word_lt bytes
      _ ≤ 2 ^ 32 := Nat.pow_le_pow_right (by decide) (by omega)
  have hsame := congrArg UInt32.toNat hword
  rw [UInt32.toNat_ofNat_of_lt' (hlt mid hfour),
    UInt32.toNat_ofNat_of_lt' (hlt mid' (hlength ▸ hfour))] at hsame
  exact word_injective hlength hsame

end Packrat
