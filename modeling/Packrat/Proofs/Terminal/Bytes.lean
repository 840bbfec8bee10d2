import Packrat.Proofs.Terminal.Scan
import Packrat.Proofs.Text.Bytes

/-!
# Scans see bytes

What a scan comes to depends on the bytes that it looked at and on nothing behind them, even if
they end inside of a character. Of what stands before it only the last byte matters. No scan looks
further than one byte behind the end of a text.
-/

namespace Packrat

/-- A character of several bytes is neither the end of a line nor part of a word. -/
theorem Neighbour.ofChar_of_lt {c : Char} (h : 1 < c.utf8Size) : ofChar c = other := by
  have hcode : 128 ≤ c.toNat := by
    rcases utf8Size_cases c with ⟨hs, hc⟩ | ⟨hs, hc⟩ | ⟨hs, hc⟩ | ⟨hs, hc⟩ <;> omega
  have hne : ∀ d : Char, d.toNat < 128 → c ≠ d := by
    rintro d hd rfl
    omega
  have hlf : (c == '\n') = false := beq_eq_false_iff_ne.mpr (hne _ (by decide))
  have hcr : (c == '\r') = false := beq_eq_false_iff_ne.mpr (hne _ (by decide))
  have hword : isWordChar c = false := by
    have hunderscore : (c == '_') = false := beq_eq_false_iff_ne.mpr (hne _ (by decide))
    have hval : c.toNat = c.val.toNat := rfl
    have halpha : c.isAlpha = (decide ('A'.val ≤ c.val ∧ c.val ≤ 'Z'.val) ||
        decide ('a'.val ≤ c.val) && decide (c.val ≤ 'z'.val)) := rfl
    simp only [isWordChar, hunderscore, Char.isAlphanum, halpha, Char.isDigit, Bool.or_false,
      Bool.or_eq_false_iff, Bool.and_eq_false_iff, decide_eq_false_iff_not,
      UInt32.le_iff_toNat_le, ge_iff_le, UInt32.reduceToNat, Char.reduceVal]
    omega
  simp only [ofChar, hlf, hcr, hword, Bool.false_eq_true, if_false]

/-- The kind of a neighbour is told by its last byte. -/
theorem Neighbour.ofChar_eq_of_last {c d : Char}
    (h : (String.utf8EncodeChar d).getLast? = (String.utf8EncodeChar c).getLast?) :
    ofChar d = ofChar c := by
  obtain ⟨b, hb, hcases⟩ := getLast?_utf8EncodeChar c
  obtain ⟨b', hb', hcases'⟩ := getLast?_utf8EncodeChar d
  obtain rfl : b' = b := Option.some.inj (hb'.symm.trans (h.trans hb))
  rcases hcases with ⟨-, hc, hsmall⟩ | ⟨hc, hlarge⟩
  · rcases hcases' with ⟨-, hd, -⟩ | ⟨-, hlarge⟩
    · rw [Char.toNat_inj.mp (hd.symm.trans hc)]
    · omega
  · rcases hcases' with ⟨-, -, hsmall⟩ | ⟨hd, -⟩
    · omega
    · rw [ofChar_of_lt hc, ofChar_of_lt hd]

/-- Where lists first differ depends on the items up to there only. -/
theorem commonLength_of_take (as : List UInt8) {bs bs' : List UInt8} {n : Nat}
    (h : bs'.take n = bs.take n) (hlt : commonLength as bs < n) :
    commonLength as bs' = commonLength as bs := by
  induction as generalizing bs bs' n with
  | nil => rfl
  | cons a as ih =>
    obtain ⟨m, rfl⟩ : ∃ m, n = m + 1 := ⟨n - 1, by omega⟩
    cases bs with
    | nil =>
      cases bs' with
      | nil => rfl
      | cons b bs' => simp at h
    | cons b bs =>
      cases bs' with
      | nil => simp at h
      | cons b' bs' =>
        simp only [List.take_succ_cons, List.cons.injEq] at h
        obtain ⟨rfl, hrest⟩ := h
        simp only [commonLength] at hlt ⊢
        split
        · rename_i hab
          rw [if_pos hab] at hlt
          rw [ih hrest (by omega)]
        · rfl

/-- Two rows of bytes share no more of them than the second one has. -/
theorem commonLength_le_right (as bs : List UInt8) : commonLength as bs ≤ bs.length := by
  induction as generalizing bs with
  | nil => exact Nat.zero_le _
  | cons a as ih =>
    cases bs with
    | nil => exact Nat.zero_le _
    | cons b bs =>
      have hrest := ih bs
      simp only [commonLength, List.length_cons]
      split <;> omega

/-- A row of bytes shares all of them with itself. -/
theorem commonLength_self (as : List UInt8) : commonLength as as = as.length := by
  induction as with
  | nil => rfl
  | cons a as ih => simp [commonLength, ih]

/-- A literal sees the bytes that it looked at only. -/
theorem literalScan_of_shares {literal us vs : List Char} {offset n : Nat}
    (hshares : SharesBytes n us vs) (h : (literalScan literal us offset).reach ≤ offset + n) :
    literalScan literal vs offset = literalScan literal us offset := by
  induction literal generalizing us vs offset n with
  | nil => rfl
  | cons c cs ih =>
    have hpos := c.utf8Size_pos
    cases us with
    | nil =>
      simp only [literalScan] at h
      rw [hshares.eq_nil (by omega)]
    | cons d ds =>
      by_cases hcd : c = d
      · -- the character of the literal is found, so all of it was looked at
        subst hcd
        have hreach := le_reach_literalScan cs ds (offset + c.utf8Size)
        simp only [literalScan, if_true] at h ⊢
        obtain ⟨d', ds', rfl, -, -, hwhole⟩ := hshares.exists_cons (by omega)
        obtain ⟨rfl, hrest⟩ := hwhole (by omega)
        simp only [literalScan, if_true]
        exact ih hrest (by omega)
      · simp only [literalScan, if_neg hcd] at h ⊢
        obtain ⟨d', ds', rfl, hsize, hpart, hwhole⟩ := hshares.exists_cons (by omega)
        by_cases hn : d.utf8Size ≤ n
        · obtain ⟨rfl, -⟩ := hwhole hn
          simp only [literalScan, if_neg hcd]
        · have hbytes := hpart (by omega)
          have hcommon := commonLength_of_take (String.utf8EncodeChar c) hbytes (by omega)
          have hcd' : c ≠ d' := by
            rintro rfl
            rw [commonLength_self, String.length_utf8EncodeChar] at hcommon
            omega
          simp only [literalScan, if_neg hcd', hcommon]

/-- A scan for a literal looks no further than one byte behind the text. -/
theorem reach_literalScan_le (literal rest : List Char) (offset : Nat) :
    (literalScan literal rest offset).reach ≤ offset + utf8Length rest + 1 := by
  induction literal generalizing rest offset with
  | nil =>
    simp only [literalScan]
    omega
  | cons c cs ih =>
    cases rest with
    | nil => simp [literalScan]
    | cons d ds =>
      rw [literalScan]
      split
      · rename_i hcd
        have hrest := ih ds (offset + c.utf8Size)
        rw [utf8Length_cons, ← hcd]
        omega
      · have hcommon :=
          commonLength_le_right (String.utf8EncodeChar c) (String.utf8EncodeChar d)
        rw [String.length_utf8EncodeChar] at hcommon
        simp only [utf8Length_cons]
        omega

namespace Regex

variable {heads : List (CharSet × Regex)} {c d : Char} {n k : Nat} {ended : Bool}

/-- Whether a match can go on behind some bytes of a character depends on these bytes only. -/
theorem goesOn_of_take (hpos : 0 < k) (hk : k < c.utf8Size)
    (h : (String.utf8EncodeChar d).take k = (String.utf8EncodeChar c).take k) :
    goesOn heads d k = goesOn heads c k := by
  obtain ⟨hsize, hcode⟩ := of_take_utf8EncodeChar hpos (Nat.le_of_lt hk) h
  have hblock : prefixBlock d k = prefixBlock c k := by
    simp only [prefixBlock, hsize, Nat.pow_eq, hcode]
  have hkind : Neighbour.ofChar d = Neighbour.ofChar c := by
    rw [Neighbour.ofChar_of_lt (by omega), Neighbour.ofChar_of_lt (by omega)]
  simp only [goesOn, hblock, hkind]

/-- A scan that stops inside of a character stops there whatever the rest of the character is. -/
theorem stopsWithin_of_take (hn : n < c.utf8Size)
    (h : (String.utf8EncodeChar d).take n = (String.utf8EncodeChar c).take n)
    (hstop : stopsWithin heads c ended = some k) (hk : k ≤ n) :
    stopsWithin heads d ended = some k := by
  have hkpos := stopsWithin_pos hstop
  have hsize : d.utf8Size = c.utf8Size :=
    (of_take_utf8EncodeChar (by omega) (Nat.le_of_lt hn) h).1
  have hgoes : ∀ j, j + 1 ≤ n → goesOn heads d (j + 1) = goesOn heads c (j + 1) := by
    intro j hj
    have htake := congrArg (List.take (j + 1)) h
    rw [List.take_take, List.take_take, Nat.min_eq_left hj] at htake
    exact goesOn_of_take (Nat.succ_pos j) (by omega) htake
  simp only [stopsWithin, List.find?_map, Option.map_eq_some_iff,
    List.find?_range_eq_some] at hstop ⊢
  obtain ⟨j, ⟨hj, hrange, hbefore⟩, rfl⟩ := hstop
  refine ⟨j, ⟨?_, by rw [hsize]; exact hrange, fun i hi => ?_⟩, rfl⟩
  · simp only [Function.comp_apply] at hj ⊢
    rw [hgoes j hk]
    exact hj
  · have hearlier := hbefore i hi
    simp only [Function.comp_apply] at hearlier ⊢
    rw [hgoes i (by omega)]
    exact hearlier

/-- A scan for a pattern sees the bytes that it looked at only. -/
theorem scanFrom_of_shares {states : List Regex} {before : Neighbour} {offset : Nat}
    {last : Option Nat} {us vs : List Char} (hshares : SharesBytes n us vs)
    (h : (scanFrom states before offset last us).reach ≤ offset + n) :
    scanFrom states before offset last vs = scanFrom states before offset last us := by
  induction us generalizing states before offset last vs n with
  | nil =>
    simp only [scanFrom] at h
    rw [hshares.eq_nil (by omega)]
  | cons c cs ih =>
    have hlooked := lt_reach_scanFrom states before offset last (c :: cs)
    obtain ⟨d, ds, rfl, hsize, hpart, hwhole⟩ := hshares.exists_cons (by omega)
    by_cases hn : c.utf8Size ≤ n
    · obtain ⟨rfl, hrest⟩ := hwhole hn
      rw [scanFrom] at h ⊢
      rw [scanFrom]
      cases hstop : stopsWithin (states.flatMap (·.heads before (.ofChar d))) d
          (states.any (·.matchesEmpty before (.ofChar d))) with
      | some k => rfl
      | none =>
        simp only [hstop] at h ⊢
        exact ih hrest (by omega)
    · -- the scan stops inside of the character, which is one of several bytes
      have hkind : Neighbour.ofChar d = Neighbour.ofChar c := by
        rw [Neighbour.ofChar_of_lt (by omega), Neighbour.ofChar_of_lt (by omega)]
      rw [scanFrom] at h ⊢
      rw [scanFrom, hkind]
      cases hstop : stopsWithin (states.flatMap (·.heads before (.ofChar c))) c
          (states.any (·.matchesEmpty before (.ofChar c))) with
      | some k =>
        simp only [hstop] at h ⊢
        rw [stopsWithin_of_take (by omega) (hpart (by omega)) hstop (by omega)]
      | none =>
        simp only [hstop] at h
        have hbeyond := lt_reach_scanFrom
          (residuals (states.flatMap (·.heads before (.ofChar c))) c) (.ofChar c)
          (offset + c.utf8Size)
          (if states.any (·.matchesEmpty before (.ofChar c)) then some offset else last) cs
        omega

/-- A scan for a pattern looks no further than one byte behind the text. -/
theorem reach_scanFrom_le (states : List Regex) (before : Neighbour) (offset : Nat)
    (last : Option Nat) (rest : List Char) :
    (scanFrom states before offset last rest).reach ≤ offset + utf8Length rest + 1 := by
  induction rest generalizing states before offset last with
  | nil => simp [scanFrom]
  | cons c cs ih =>
    rw [scanFrom]
    split
    · rename_i k hk
      have hmem := List.mem_of_find?_eq_some hk
      simp only [List.mem_map, List.mem_range] at hmem
      obtain ⟨i, hi, rfl⟩ := hmem
      simp only [utf8Length_cons]
      omega
    · refine Nat.le_trans (ih _ _ _ _) ?_
      simp only [utf8Length_cons]
      omega

end Regex

namespace Terminal

/-- A terminal sees the kind of what stands before it and the bytes that it looked at only. -/
theorem scan_of_shares {t : Terminal} {before before' : Option Char} {us vs : List Char} {n : Nat}
    (hbefore : Neighbour.of before' = Neighbour.of before) (hshares : SharesBytes n us vs)
    (h : (t.scan before us).reach ≤ n) : t.scan before' vs = t.scan before us := by
  cases t with
  | literal text =>
    rw [← Nat.zero_add n] at h
    exact literalScan_of_shares hshares h
  | pattern p =>
    rw [← Nat.zero_add n] at h
    simp only [scan, Regex.scan, hbefore] at h ⊢
    exact Regex.scanFrom_of_shares hshares h

/-- No terminal looks further than one byte behind the end of a text. -/
theorem reach_scanAt_le {t : Terminal} {text : Text} {p : Nat} (hp : text.isBoundary p = true) :
    p + (t.scanAt text p).reach ≤ text.size + 1 := by
  obtain ⟨xs, ys, hsplit⟩ := Text.isBoundary_iff.mp hp
  rw [scanAt, hsplit.spot?, hsplit.size_eq]
  cases t with
  | literal literal =>
    have hreach := reach_literalScan_le literal.toList ys 0
    simp only [scan]
    omega
  | pattern pattern =>
    have hreach := Regex.reach_scanFrom_le [pattern.regex] (.of xs.getLast?) 0 none ys
    simp only [scan, Regex.scan]
    omega

end Terminal

end Packrat
