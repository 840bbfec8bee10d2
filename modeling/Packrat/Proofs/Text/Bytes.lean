import Mathlib.Algebra.Group.Nat.Defs
import Packrat.Proofs.Text.Position

/-!
# The bytes of a text

The first byte of a character tells how many bytes it takes, and each further byte one digit of the
code point to the base of 64. So characters that begin with the same bytes have the same size and
the same leading digits, and two texts whose first bytes are the same have the same characters, up
to one that only begins with the same bytes.
-/

namespace Packrat

/-- The bytes of a character behind its first one, `k` of them, as numbers. -/
def continuation (code : Nat) : (k : Nat) → List Nat
  | 0 => []
  | k + 1 => (code / 64 ^ k % 64 + 128) :: continuation code k

/-- The number from which the first byte of a character of some size counts. -/
def leadOfSize : Nat → Nat
  | 1 => 0
  | 2 => 192
  | 3 => 224
  | _ => 240

/-- How many bytes a character takes is told by the range of its code point. -/
theorem utf8Size_cases (c : Char) :
    c.utf8Size = 1 ∧ c.toNat < 0x80 ∨ c.utf8Size = 2 ∧ 0x80 ≤ c.toNat ∧ c.toNat < 0x800 ∨
      c.utf8Size = 3 ∧ 0x800 ≤ c.toNat ∧ c.toNat < 0x10000 ∨
      c.utf8Size = 4 ∧ 0x10000 ≤ c.toNat ∧ c.toNat < 0x110000 := by
  have hsize : c.utf8Size = if c.toNat ≤ 0x7F then 1 else if c.toNat ≤ 0x7FF then 2
      else if c.toNat ≤ 0xFFFF then 3 else 4 := rfl
  have hlt : c.toNat < 0x110000 := by
    have hvalid := c.valid
    simp only [UInt32.isValidChar, Nat.isValidChar] at hvalid
    simp only [Char.toNat]
    omega
  by_cases h₁ : c.toNat ≤ 0x7F
  · rw [if_pos h₁] at hsize
    omega
  · by_cases h₂ : c.toNat ≤ 0x7FF
    · rw [if_neg h₁, if_pos h₂] at hsize
      omega
    · by_cases h₃ : c.toNat ≤ 0xFFFF
      · rw [if_neg h₁, if_neg h₂, if_pos h₃] at hsize
        omega
      · rw [if_neg h₁, if_neg h₂, if_neg h₃] at hsize
        omega

/-- The bytes of a character are its first one and those behind it. -/
theorem map_toNat_utf8EncodeChar (c : Char) :
    (String.utf8EncodeChar c).map UInt8.toNat =
      (c.toNat / 64 ^ (c.utf8Size - 1) + leadOfSize c.utf8Size) ::
        continuation c.toNat (c.utf8Size - 1) := by
  have hcode : c.val.toNat = c.toNat := rfl
  simp only [String.utf8EncodeChar, hcode]
  rcases utf8Size_cases c with ⟨hs, hc⟩ | ⟨hs, hc⟩ | ⟨hs, hc⟩ | ⟨hs, hc⟩
  · simp [hs, continuation, leadOfSize, show c.toNat ≤ 127 by omega]
    omega
  · simp [hs, continuation, leadOfSize, show ¬ c.toNat ≤ 127 by omega,
      show c.toNat ≤ 2047 by omega]
    omega
  · simp [hs, continuation, leadOfSize, show ¬ c.toNat ≤ 127 by omega,
      show ¬ c.toNat ≤ 2047 by omega, show c.toNat ≤ 65535 by omega]
    omega
  · simp [hs, continuation, leadOfSize, show ¬ c.toNat ≤ 127 by omega,
      show ¬ c.toNat ≤ 2047 by omega, show ¬ c.toNat ≤ 65535 by omega]
    omega

/-- Characters with the same first byte have the same size. -/
theorem utf8Size_eq_of_first {c d : Char}
    (h : d.toNat / 64 ^ (d.utf8Size - 1) + leadOfSize d.utf8Size =
      c.toNat / 64 ^ (c.utf8Size - 1) + leadOfSize c.utf8Size) : d.utf8Size = c.utf8Size := by
  rcases utf8Size_cases c with ⟨hsc, hc⟩ | ⟨hsc, hc⟩ | ⟨hsc, hc⟩ | ⟨hsc, hc⟩ <;>
    rcases utf8Size_cases d with ⟨hsd, hd⟩ | ⟨hsd, hd⟩ | ⟨hsd, hd⟩ | ⟨hsd, hd⟩ <;>
    simp only [hsc, hsd, leadOfSize] at h ⊢ <;> omega

/-- Code points with the same leading digit, and then the same bytes, have the same leading
digits. -/
theorem div_eq_of_take_continuation {m n k j : Nat} (hj : j ≤ k) (hlead : n / 64 ^ k = m / 64 ^ k)
    (h : (continuation n k).take j = (continuation m k).take j) :
    n / 64 ^ (k - j) = m / 64 ^ (k - j) := by
  induction k generalizing j with
  | zero => simpa using hlead
  | succ k ih =>
    cases j with
    | zero => exact hlead
    | succ j =>
      simp only [continuation, List.take_succ_cons, List.cons.injEq] at h
      obtain ⟨hdigit, hrest⟩ := h
      have hdigits : n / 64 ^ k = m / 64 ^ k := by
        rw [Nat.pow_succ, ← Nat.div_div_eq_div_mul, ← Nat.div_div_eq_div_mul] at hlead
        omega
      rw [Nat.add_sub_add_right]
      exact ih (by omega) hdigits hrest

/-- Characters that begin with the same bytes have the same size and the same leading digits. -/
theorem of_take_utf8EncodeChar {c d : Char} {k : Nat} (hpos : 0 < k) (hk : k ≤ c.utf8Size)
    (h : (String.utf8EncodeChar d).take k = (String.utf8EncodeChar c).take k) :
    d.utf8Size = c.utf8Size ∧
      d.toNat / 64 ^ (c.utf8Size - k) = c.toNat / 64 ^ (c.utf8Size - k) := by
  obtain ⟨j, rfl⟩ : ∃ j, k = j + 1 := ⟨k - 1, by omega⟩
  have hbytes := congrArg (List.map UInt8.toNat) h
  rw [List.map_take, List.map_take, map_toNat_utf8EncodeChar, map_toNat_utf8EncodeChar,
    List.take_succ_cons, List.take_succ_cons, List.cons.injEq] at hbytes
  obtain ⟨hfirst, hrest⟩ := hbytes
  have hsize := utf8Size_eq_of_first hfirst
  rw [hsize] at hfirst hrest
  refine ⟨hsize, ?_⟩
  have hdigits := div_eq_of_take_continuation (by omega) (Nat.add_right_cancel hfirst) hrest
  rwa [show c.utf8Size - 1 - j = c.utf8Size - (j + 1) by omega] at hdigits

/-- A character is known by its bytes. -/
theorem utf8EncodeChar_inj {c d : Char} (h : String.utf8EncodeChar d = String.utf8EncodeChar c) :
    d = c := by
  obtain ⟨-, hcode⟩ := of_take_utf8EncodeChar c.utf8Size_pos (Nat.le_refl _) (congrArg _ h)
  rw [Nat.sub_self, Nat.pow_zero, Nat.div_one, Nat.div_one] at hcode
  exact Char.toNat_inj.mp hcode

/-- The last byte of a character is its code point, or above all those of a single byte. -/
theorem getLast?_utf8EncodeChar (c : Char) : ∃ b, (String.utf8EncodeChar c).getLast? = some b ∧
    (c.utf8Size = 1 ∧ b.toNat = c.toNat ∧ b.toNat < 128 ∨ 1 < c.utf8Size ∧ 128 ≤ b.toNat) := by
  have hne : String.utf8EncodeChar c ≠ [] := String.utf8EncodeChar_ne_nil
  refine ⟨_, List.getLast?_eq_some_getLast hne, ?_⟩
  have hlast : ((String.utf8EncodeChar c).getLast hne).toNat =
      ((String.utf8EncodeChar c).map UInt8.toNat).getLast (by simp) := by
    rw [List.getLast_map]
  simp only [map_toNat_utf8EncodeChar] at hlast
  rw [hlast]
  rcases utf8Size_cases c with ⟨hs, hc⟩ | ⟨hs, hc⟩ | ⟨hs, hc⟩ | ⟨hs, hc⟩ <;>
    simp [hs, continuation, leadOfSize, hc]

/-- The bytes of some characters. -/
def utf8 (cs : List Char) : List UInt8 := cs.flatMap String.utf8EncodeChar

/-- No characters have no bytes. -/
@[simp] theorem utf8_nil : utf8 [] = [] := rfl

/-- The bytes of a first character stand before those of the others. -/
@[simp] theorem utf8_cons (c : Char) (cs : List Char) :
    utf8 (c :: cs) = String.utf8EncodeChar c ++ utf8 cs := rfl

/-- Characters one behind the other have their bytes one behind the other. -/
@[simp] theorem utf8_append (xs ys : List Char) : utf8 (xs ++ ys) = utf8 xs ++ utf8 ys :=
  List.flatMap_append

/-- Characters have as many bytes as they take. -/
@[simp] theorem length_utf8 (cs : List Char) : (utf8 cs).length = utf8Length cs := by
  induction cs with
  | nil => rfl
  | cons c cs ih => rw [utf8_cons, List.length_append, ih, String.length_utf8EncodeChar]; rfl

/-- Whether the first `n` bytes of some characters are those of others, or all of both are, where
there are not as many. -/
def SharesBytes (n : Nat) (us vs : List Char) : Prop := (utf8 vs).take n = (utf8 us).take n

namespace SharesBytes

variable {n : Nat} {c : Char} {us vs ws : List Char}

/-- Characters share the bytes of those with which both begin. -/
theorem of_append (ws us vs : List Char) : SharesBytes (utf8Length ws) (ws ++ us) (ws ++ vs) := by
  unfold SharesBytes
  rw [utf8_append, utf8_append, ← length_utf8, List.take_left, List.take_left]

/-- Characters that share some bytes at the beginning share fewer. -/
theorem mono {m : Nat} (h : SharesBytes n us vs) (hm : m ≤ n) : SharesBytes m us vs := by
  have htake := congrArg (List.take m) h
  rwa [List.take_take, List.take_take, Nat.min_eq_left hm] at htake

/-- Only no characters share the end of the text with no characters. -/
theorem eq_nil (h : SharesBytes n [] vs) (hn : 0 < n) : vs = [] := by
  cases vs with
  | nil => rfl
  | cons d ds =>
    have hlength := congrArg List.length h
    have hpos := d.utf8Size_pos
    simp only [utf8_nil, List.take_nil, List.length_nil, List.length_take, length_utf8,
      utf8Length_cons] at hlength
    omega

/-- Characters that share a byte begin with characters of the same size. The characters are the
same if all of their bytes are shared, and share those bytes in any case. -/
theorem exists_cons (h : SharesBytes n (c :: us) vs) (hn : 0 < n) :
    ∃ d ds, vs = d :: ds ∧ d.utf8Size = c.utf8Size ∧
      (n < c.utf8Size → (String.utf8EncodeChar d).take n = (String.utf8EncodeChar c).take n) ∧
      (c.utf8Size ≤ n → d = c ∧ SharesBytes (n - c.utf8Size) us ds) := by
  have hposc := c.utf8Size_pos
  have hlengthc := String.length_utf8EncodeChar c
  cases vs with
  | nil =>
    have hlength := congrArg List.length h
    simp only [utf8_nil, List.take_nil, List.length_nil, List.length_take, length_utf8,
      utf8Length_cons] at hlength
    omega
  | cons d ds =>
    have hposd := d.utf8Size_pos
    have hlengthd := String.length_utf8EncodeChar d
    have hshares : ∀ k, k ≤ n → k ≤ c.utf8Size → k ≤ d.utf8Size →
        (String.utf8EncodeChar d).take k = (String.utf8EncodeChar c).take k := by
      intro k hkn hkc hkd
      have htake : (utf8 (d :: ds)).take k = (utf8 (c :: us)).take k := h.mono hkn
      rwa [utf8_cons, utf8_cons, List.take_append_of_le_length (by omega),
        List.take_append_of_le_length (by omega)] at htake
    obtain ⟨hsize, -⟩ := of_take_utf8EncodeChar (Nat.zero_lt_one) (by omega)
      (hshares 1 (by omega) (by omega) (by omega))
    refine ⟨d, ds, rfl, hsize, fun hlt => hshares n (Nat.le_refl _) (by omega) (by omega),
      fun hle => ?_⟩
    have hsame : d = c := by
      have hall := hshares c.utf8Size hle (Nat.le_refl _) (by omega)
      rw [List.take_of_length_le (by omega), List.take_of_length_le (by omega)] at hall
      exact utf8EncodeChar_inj hall
    subst hsame
    refine ⟨rfl, ?_⟩
    unfold SharesBytes at h ⊢
    rw [utf8_cons, utf8_cons, List.take_append, List.take_append, hlengthd] at h
    exact List.append_cancel_left h

/-- Characters that share the bytes of some characters with which others begin do so too. -/
theorem exists_append (h : SharesBytes n (ws ++ us) vs) (hn : utf8Length ws ≤ n) :
    ∃ xs, vs = ws ++ xs ∧ SharesBytes (n - utf8Length ws) us xs := by
  induction ws generalizing n vs with
  | nil => exact ⟨vs, rfl, h⟩
  | cons c ws ih =>
    have hpos := c.utf8Size_pos
    rw [utf8Length_cons] at hn
    have hcons : SharesBytes n (c :: (ws ++ us)) vs := h
    obtain ⟨d, ds, rfl, -, -, hwhole⟩ := hcons.exists_cons (by omega)
    obtain ⟨rfl, hrest⟩ := hwhole (by omega)
    obtain ⟨xs, rfl, hshares⟩ := ih hrest (by omega)
    refine ⟨xs, rfl, ?_⟩
    rwa [utf8Length_cons, ← Nat.sub_sub]

end SharesBytes

/-- The bytes of a text. -/
def Text.bytes (t : Text) : List UInt8 := utf8 t.chars

/-- A text has as many bytes as its size says. -/
@[simp] theorem Text.length_bytes (t : Text) : t.bytes.length = t.size := by
  rw [bytes, length_utf8, t.size_eq]

namespace Text.Splits

variable {t : Text} {p : Nat} {xs ys : List Char}

/-- The bytes from an offset on. -/
theorem drop_bytes (h : t.Splits p xs ys) : t.bytes.drop p = utf8 ys := by
  rw [bytes, h.1, utf8_append, ← h.2, ← length_utf8, List.drop_left]

/-- The byte before an offset is the last one of the character before it. -/
theorem bytes_before {c : Char} (h : t.Splits p (xs ++ [c]) ys) :
    t.bytes[p - 1]? = (String.utf8EncodeChar c).getLast? := by
  have hpos := c.utf8Size_pos
  have hp := h.2
  simp only [utf8Length_append, utf8Length_cons, utf8Length_nil, Nat.add_zero] at hp
  have hindex : p - 1 = (utf8 xs).length + (c.utf8Size - 1) := by
    rw [length_utf8]
    omega
  have hlength : (utf8 xs ++ String.utf8EncodeChar c).length = utf8Length xs + c.utf8Size := by
    rw [List.length_append, length_utf8, String.length_utf8EncodeChar]
  rw [bytes, h.1, utf8_append, utf8_append, utf8_cons, utf8_nil, List.append_nil,
    List.getElem?_append_left (by omega), hindex,
    List.getElem?_append_right (Nat.le_add_right _ _), Nat.add_sub_cancel_left,
    List.getLast?_eq_getElem?, String.length_utf8EncodeChar]

end Text.Splits

end Packrat
