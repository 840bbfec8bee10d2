import Packrat.Text.Basic

/-!
# Positions as divisions of a text

A byte offset is a boundary of a text if it divides the characters of the text into those before
it and those behind it. The lemmas here turn what `spot?`, `charsFrom` and `slice` answer into
such divisions.
-/

namespace Packrat

/-- No characters take no bytes. -/
@[simp] theorem utf8Length_nil : utf8Length [] = 0 := rfl

/-- Characters take the bytes of the first one and those of the others. -/
@[simp] theorem utf8Length_cons (c : Char) (cs : List Char) :
    utf8Length (c :: cs) = c.utf8Size + utf8Length cs := rfl

/-- Only no characters at all take no bytes. -/
@[simp] theorem utf8Length_eq_zero {cs : List Char} : utf8Length cs = 0 ↔ cs = [] := by
  cases cs with
  | nil => simp
  | cons c cs =>
    have := c.utf8Size_pos
    simp
    omega

/-- The bytes of a string are those of its characters. -/
theorem utf8Length_toList (s : String) : utf8Length s.toList = s.utf8ByteSize := by
  have h : ∀ cs : List Char, (String.ofList cs).utf8ByteSize = utf8Length cs := by
    intro cs
    induction cs with
    | nil => rfl
    | cons c cs ih =>
      rw [← List.singleton_append, String.ofList_append, String.utf8ByteSize_append, ih]
      simp
  rw [← h, String.ofList_toList]

/-- The leading bytes of characters are those characters, if no character is split. -/
theorem takeBytes_append (xs ys : List Char) : takeBytes (xs ++ ys) (utf8Length xs) = xs := by
  induction xs with
  | nil => cases ys <;> rfl
  | cons c cs ih =>
    have hpos := c.utf8Size_pos
    obtain ⟨n, hn⟩ : ∃ n, utf8Length (c :: cs) = n + 1 := ⟨utf8Length (c :: cs) - 1, by simp; omega⟩
    have hsub : n + 1 - c.utf8Size = utf8Length cs := by simp at hn; omega
    rw [hn, List.cons_append, takeBytes, hsub, ih]

/-- The spot behind some characters. -/
theorem spotFrom?_append (before : Option Char) (xs ys : List Char) :
    spotFrom? before (xs ++ ys) (utf8Length xs) = some ⟨xs.getLast?.or before, ys⟩ := by
  induction xs generalizing before with
  | nil => cases ys <;> simp [spotFrom?]
  | cons c cs ih =>
    have hpos := c.utf8Size_pos
    obtain ⟨n, hn⟩ : ∃ n, utf8Length (c :: cs) = n + 1 := ⟨utf8Length (c :: cs) - 1, by simp; omega⟩
    have hsub : n + 1 - c.utf8Size = utf8Length cs := by simp at hn; omega
    have hnot : ¬ n + 1 < c.utf8Size := by simp at hn; omega
    rw [hn, List.cons_append, spotFrom?, if_neg hnot, hsub, ih]
    cases cs with
    | nil => simp
    | cons d ds => cases h : (d :: ds).getLast? <;> simp_all [List.getLast?_cons_cons]

/-- Every spot lies behind some of the characters. -/
theorem exists_of_spotFrom? {before : Option Char} {cs : List Char} {n : Nat} {spot : Spot}
    (h : spotFrom? before cs n = some spot) :
    ∃ xs, cs = xs ++ spot.rest ∧ utf8Length xs = n := by
  induction cs generalizing before n with
  | nil =>
    cases n with
    | zero =>
      simp only [spotFrom?, Option.some.injEq] at h
      exact ⟨[], by simp [← h], rfl⟩
    | succ n => simp [spotFrom?] at h
  | cons c cs ih =>
    cases n with
    | zero =>
      simp only [spotFrom?, Option.some.injEq] at h
      exact ⟨[], by simp [← h], rfl⟩
    | succ n =>
      rw [spotFrom?] at h
      split at h
      · simp at h
      · obtain ⟨xs, hcs, hn⟩ := ih h
        exact ⟨c :: xs, by rw [hcs, List.cons_append], by simp only [utf8Length_cons, hn]; omega⟩

namespace Text

/-- The characters of a text before and behind an offset. -/
def Splits (t : Text) (p : Nat) (xs ys : List Char) : Prop :=
  t.chars = xs ++ ys ∧ utf8Length xs = p

variable {t : Text} {p q : Nat} {xs ys : List Char}

/-- An offset that divides a text is found as the place between these characters. -/
theorem Splits.spot? (h : t.Splits p xs ys) : t.spot? p = some ⟨xs.getLast?, ys⟩ := by
  rw [spot?_eq, h.1, ← h.2, spotFrom?_append, Option.or_none]

/-- The characters from a boundary on are those behind it. -/
theorem Splits.charsFrom (h : t.Splits p xs ys) : t.charsFrom p = ys := by
  rw [Text.charsFrom, h.spot?]

/-- An offset that divides a text is a boundary. -/
theorem Splits.isBoundary (h : t.Splits p xs ys) : t.isBoundary p = true := by
  rw [Text.isBoundary, h.spot?, Option.isSome_some]

/-- The boundaries are the offsets at which the text can be divided. -/
theorem isBoundary_iff : t.isBoundary p = true ↔ ∃ xs ys, t.Splits p xs ys := by
  constructor
  · intro h
    obtain ⟨spot, hspot⟩ := Option.isSome_iff_exists.mp h
    rw [spot?_eq] at hspot
    obtain ⟨xs, hchars, hp⟩ := exists_of_spotFrom? hspot
    exact ⟨xs, spot.rest, hchars, hp⟩
  · rintro ⟨xs, ys, h⟩
    exact h.isBoundary

/-- An offset that is no boundary has no spot. -/
theorem spot?_of_not_isBoundary (h : ¬ t.isBoundary p = true) : t.spot? p = none := by
  simpa [isBoundary] using h

/-- A text ends as far behind a boundary as the characters behind it take bytes. -/
theorem Splits.size_eq (h : t.Splits p xs ys) : t.size = p + utf8Length ys := by
  rw [t.size_eq, h.1, utf8Length_append, h.2]

/-- No boundary lies behind the end. -/
theorem Splits.le_size (h : t.Splits p xs ys) : p ≤ t.size := by
  rw [h.size_eq]
  omega

/-- Going on by some characters from an offset reaches another offset. -/
theorem Splits.advance {ws : List Char} (h : t.Splits p xs (ws ++ ys)) :
    t.Splits (p + utf8Length ws) (xs ++ ws) ys :=
  ⟨by rw [h.1, List.append_assoc], by rw [utf8Length_append, h.2]⟩

/-- Of two offsets the second lies some characters behind the first. -/
theorem Splits.exists_between {xs' ys' : List Char} (h : t.Splits p xs ys)
    (h' : t.Splits q xs' ys') (hpq : p ≤ q) :
    ∃ ws, ys = ws ++ ys' ∧ xs' = xs ++ ws ∧ q = p + utf8Length ws := by
  have hsame : xs ++ ys = xs' ++ ys' := h.1.symm.trans h'.1
  rcases List.append_eq_append_iff.mp hsame with ⟨ws, hxs', hys⟩ | ⟨ws, hxs, hys'⟩
  · exact ⟨ws, hys, hxs', by rw [← h'.2, hxs', utf8Length_append, h.2]⟩
  · have hlength : utf8Length ws = 0 := by
      have := h.2
      rw [hxs, utf8Length_append, h'.2] at this
      omega
    rw [utf8Length_eq_zero.mp hlength] at hxs hys'
    exact ⟨[], by simp_all, by simp_all, by rw [← h.2, ← h'.2]; simp_all⟩

/-- In front of a text there are no characters. -/
theorem splits_zero (t : Text) : t.Splits 0 [] t.chars := ⟨rfl, rfl⟩

/-- Behind a text there are no characters. -/
theorem splits_size (t : Text) : t.Splits t.size t.chars [] :=
  ⟨(List.append_nil _).symm, t.size_eq.symm⟩

/-- The start of a text is a boundary. -/
@[simp] theorem isBoundary_zero (t : Text) : t.isBoundary 0 = true := t.splits_zero.isBoundary

/-- The end of a text is a boundary. -/
@[simp] theorem isBoundary_size (t : Text) : t.isBoundary t.size = true :=
  t.splits_size.isBoundary

/-- A boundary of a text does not lie behind its end. -/
theorem le_size_of_isBoundary (h : t.isBoundary p = true) : p ≤ t.size := by
  obtain ⟨xs, ys, hsplit⟩ := isBoundary_iff.mp h
  exact hsplit.le_size

/-- There are no characters behind the end of a text only. -/
theorem eq_size_of_charsFrom (hp : t.isBoundary p = true) (h : t.charsFrom p = []) :
    p = t.size := by
  obtain ⟨xs, ys, hsplit⟩ := isBoundary_iff.mp hp
  rw [hsplit.charsFrom] at h
  rw [hsplit.size_eq, h, utf8Length_nil, Nat.add_zero]

/-- No boundary lies inside of a character. -/
theorem eq_of_lt_charsFrom {char : Char} {rest : List Char} (hp : t.isBoundary p = true)
    (h : t.charsFrom p = char :: rest) (hq : t.isBoundary q = true) (hpq : p ≤ q)
    (hlt : q < p + char.utf8Size) : q = p := by
  obtain ⟨xs, ys, hsplit⟩ := isBoundary_iff.mp hp
  obtain ⟨xs', ys', hsplit'⟩ := isBoundary_iff.mp hq
  obtain ⟨ws, rfl, -, rfl⟩ := hsplit.exists_between hsplit' hpq
  rw [hsplit.charsFrom] at h
  cases ws with
  | nil => simp
  | cons c ws =>
    have hchar : c = char := (List.cons.inj h).1
    rw [utf8Length_cons, hchar] at hlt
    omega

/-- What lies between two offsets is the characters by which they differ. -/
theorem Splits.slice {ws : List Char} (h : t.Splits p xs (ws ++ ys)) :
    t.slice p (p + utf8Length ws) = String.ofList ws := by
  rw [Text.slice, h.charsFrom, Nat.add_sub_cancel_left, takeBytes_append]

/-- Neighbouring slices make one slice. -/
theorem slice_append_slice {r : Nat} (hp : t.isBoundary p = true) (hq : t.isBoundary q = true)
    (hr : t.isBoundary r = true) (hpq : p ≤ q) (hqr : q ≤ r) :
    t.slice p q ++ t.slice q r = t.slice p r := by
  obtain ⟨xs₁, ys₁, h₁⟩ := isBoundary_iff.mp hp
  obtain ⟨xs₂, ys₂, h₂⟩ := isBoundary_iff.mp hq
  obtain ⟨xs₃, ys₃, h₃⟩ := isBoundary_iff.mp hr
  obtain ⟨ws, rfl, rfl, rfl⟩ := h₁.exists_between h₂ hpq
  obtain ⟨vs, rfl, rfl, rfl⟩ := h₂.exists_between h₃ hqr
  have h := h₁
  rw [← List.append_assoc] at h
  rw [h₁.slice, h₂.slice, Nat.add_assoc, ← utf8Length_append, h.slice, String.ofList_append]

/-- Between an offset and itself there is no text. -/
theorem slice_self (t : Text) (p : Nat) : t.slice p p = "" := by
  rw [slice, Nat.sub_self]
  cases t.charsFrom p <;> rfl

/-- The bytes of a slice are those between its ends. -/
theorem utf8ByteSize_slice (hp : t.isBoundary p = true) (hq : t.isBoundary q = true)
    (hpq : p ≤ q) : (t.slice p q).utf8ByteSize = q - p := by
  obtain ⟨xs₁, ys₁, h₁⟩ := isBoundary_iff.mp hp
  obtain ⟨xs₂, ys₂, h₂⟩ := isBoundary_iff.mp hq
  obtain ⟨ws, rfl, rfl, rfl⟩ := h₁.exists_between h₂ hpq
  rw [h₁.slice, ← utf8Length_toList, String.toList_ofList, Nat.add_sub_cancel_left]

/-- The whole of a text is its string. -/
theorem slice_ofString (s : String) : (ofString s).slice 0 (ofString s).size = s := by
  have h : (ofString s).Splits 0 [] ((ofString s).chars ++ []) := by
    rw [List.append_nil]
    exact splits_zero _
  have hsize : (ofString s).size = 0 + utf8Length (ofString s).chars := by
    rw [(ofString s).size_eq, Nat.zero_add]
  rw [hsize, h.slice]
  exact String.ofList_toList

/-- A text is as long as its string has bytes. -/
theorem size_ofString (s : String) : (ofString s).size = s.utf8ByteSize := utf8Length_toList s

end Text

end Packrat
