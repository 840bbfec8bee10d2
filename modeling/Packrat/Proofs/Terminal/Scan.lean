import Packrat.Terminal
import Packrat.Proofs.Text.Position

/-!
# What a scan looks at

A terminal matches whole characters, never ends behind what it looked at, and looks at something
when it fails.
-/

namespace Packrat

/-- A scan that stops in a character has looked at a byte of it. -/
theorem stopsWithin_pos {heads : List (CharSet × Regex)} {c : Char} {ended : Bool} {k : Nat}
    (h : Regex.stopsWithin heads c ended = some k) : 0 < k := by
  have hmem := List.mem_of_find?_eq_some h
  simp only [List.mem_map, List.mem_range] at hmem
  obtain ⟨i, _, rfl⟩ := hmem
  omega

namespace Regex

/-- A scan looks at a byte at least, or at the end of the text. -/
theorem lt_reach_scanFrom (states : List Regex) (before : Neighbour) (offset : Nat)
    (last : Option Nat) (rest : List Char) :
    offset < (scanFrom states before offset last rest).reach := by
  induction rest generalizing states before offset last with
  | nil => simp [scanFrom]
  | cons c cs ih =>
    rw [scanFrom]
    split
    · rename_i k hk
      have := stopsWithin_pos hk
      simp only
      omega
    · exact Nat.lt_of_le_of_lt (Nat.le_add_right _ _) (ih _ _ _ _)

/-- A match that a scan finds ends before the end of what was looked at. -/
theorem length_lt_reach_scanFrom {states : List Regex} {before : Neighbour} {offset : Nat}
    {last : Option Nat} {rest : List Char} {n : Nat} (hlast : ∀ m, last = some m → m ≤ offset)
    (h : (scanFrom states before offset last rest).length = some n) :
    n < (scanFrom states before offset last rest).reach := by
  induction rest generalizing states before offset last with
  | nil =>
    simp only [scanFrom] at h ⊢
    split at h
    · simp only [Option.some.injEq] at h
      omega
    · have := hlast n h
      omega
  | cons c cs ih =>
    have hnext : ∀ m, (if states.any (·.matchesEmpty before (.ofChar c)) then some offset
        else last) = some m → m ≤ offset := by
      intro m hm
      split at hm
      · simp only [Option.some.injEq] at hm
        omega
      · exact hlast m hm
    rw [scanFrom] at h ⊢
    split at h
    · rename_i k hk
      have hpos := stopsWithin_pos hk
      have := hnext n h
      simp only
      omega
    · exact ih (fun m hm => Nat.le_trans (hnext m hm) (Nat.le_add_right _ _)) h

/-- A match that a scan finds is one found before or takes some of the characters. -/
theorem exists_of_scanFrom_length {states : List Regex} {before : Neighbour} {offset : Nat}
    {last : Option Nat} {rest : List Char} {n : Nat}
    (h : (scanFrom states before offset last rest).length = some n) :
    last = some n ∨ ∃ ws ys, rest = ws ++ ys ∧ n = offset + utf8Length ws := by
  induction rest generalizing states before offset last with
  | nil =>
    simp only [scanFrom] at h
    split at h
    · exact .inr ⟨[], [], rfl, by simpa using h.symm⟩
    · exact .inl h
  | cons c cs ih =>
    have hnext : (if states.any (·.matchesEmpty before (.ofChar c)) then some offset
        else last) = some n → last = some n ∨ ∃ ws ys, c :: cs = ws ++ ys ∧
          n = offset + utf8Length ws := by
      intro hn
      split at hn
      · exact .inr ⟨[], c :: cs, rfl, by simpa using hn.symm⟩
      · exact .inl hn
    rw [scanFrom] at h
    split at h
    · exact hnext h
    · rcases ih h with hn | ⟨ws, ys, rfl, hn⟩
      · exact hnext hn
      · exact .inr ⟨c :: ws, ys, rfl, by rw [hn, utf8Length_cons, Nat.add_assoc]⟩

end Regex

/-- A scan for a literal does not look back. -/
theorem le_reach_literalScan (literal rest : List Char) (offset : Nat) :
    offset ≤ (literalScan literal rest offset).reach := by
  induction literal generalizing rest offset with
  | nil => simp [literalScan]
  | cons c cs ih =>
    cases rest with
    | nil => simp [literalScan]
    | cons d ds =>
      rw [literalScan]
      split
      · exact Nat.le_trans (Nat.le_add_right _ _) (ih _ _)
      · simp only
        omega

/-- A scan for a literal that fails has looked at something. -/
theorem lt_reach_literalScan {literal rest : List Char} {offset : Nat}
    (h : (literalScan literal rest offset).length = none) :
    offset < (literalScan literal rest offset).reach := by
  induction literal generalizing rest offset with
  | nil => simp [literalScan] at h
  | cons c cs ih =>
    cases rest with
    | nil => simp [literalScan]
    | cons d ds =>
      rw [literalScan] at h ⊢
      split
      · rename_i hcd
        rw [if_pos hcd] at h
        exact Nat.lt_of_le_of_lt (Nat.le_add_right _ _) (ih h)
      · simp only
        omega

/-- A literal that is found has been looked at to its end, and takes whole characters. -/
theorem exists_of_literalScan_length {literal rest : List Char} {offset n : Nat}
    (h : (literalScan literal rest offset).length = some n) :
    (literalScan literal rest offset).reach = n ∧
      ∃ ws ys, rest = ws ++ ys ∧ n = offset + utf8Length ws := by
  induction literal generalizing rest offset with
  | nil =>
    simp only [literalScan, Option.some.injEq] at h ⊢
    exact ⟨h, [], rest, rfl, by simpa using h.symm⟩
  | cons c cs ih =>
    cases rest with
    | nil => simp [literalScan] at h
    | cons d ds =>
      rw [literalScan] at h ⊢
      split at h
      · rename_i hcd
        obtain ⟨hreach, ws, ys, rfl, hn⟩ := ih h
        rw [if_pos hcd]
        refine ⟨hreach, d :: ws, ys, rfl, ?_⟩
        rw [hn, utf8Length_cons, hcd, Nat.add_assoc]
      · simp at h

namespace Terminal

/-- A match takes some of the characters behind the position. -/
theorem exists_of_scan_length {t : Terminal} {before : Option Char} {rest : List Char} {n : Nat}
    (h : (t.scan before rest).length = some n) :
    ∃ ws ys, rest = ws ++ ys ∧ n = utf8Length ws := by
  cases t with
  | literal text => simpa using (exists_of_literalScan_length h).2
  | pattern p => simpa [Terminal.scan, Regex.scan] using Regex.exists_of_scanFrom_length h

/-- A match does not end behind what was looked at. -/
theorem length_le_reach {t : Terminal} {before : Option Char} {rest : List Char} {n : Nat}
    (h : (t.scan before rest).length = some n) : n ≤ (t.scan before rest).reach := by
  cases t with
  | literal text => exact Nat.le_of_eq (exists_of_literalScan_length h).1.symm
  | pattern p => exact Nat.le_of_lt (Regex.length_lt_reach_scanFrom (by simp) h)

/-- A terminal that fails has looked at something. -/
theorem reach_pos {t : Terminal} {before : Option Char} {rest : List Char}
    (h : (t.scan before rest).length = none) : 0 < (t.scan before rest).reach := by
  cases t with
  | literal text => exact lt_reach_literalScan h
  | pattern p => exact Regex.lt_reach_scanFrom _ _ _ _ _

variable {t : Terminal} {text : Text} {position n : Nat}

/-- A match at a position ends at a boundary, and both ends are boundaries. -/
theorem isBoundary_of_scanAt_length (h : (t.scanAt text position).length = some n) :
    text.isBoundary position = true ∧ text.isBoundary (position + n) = true := by
  by_cases hb : text.isBoundary position = true
  · obtain ⟨xs, ys, hsplit⟩ := Text.isBoundary_iff.mp hb
    rw [scanAt, hsplit.spot?] at h
    obtain ⟨ws, zs, rfl, rfl⟩ := exists_of_scan_length h
    exact ⟨hb, hsplit.advance.isBoundary⟩
  · rw [scanAt, Text.spot?_of_not_isBoundary hb] at h
    simp at h

/-- A match does not end behind what was looked at. -/
theorem length_le_reach_scanAt (h : (t.scanAt text position).length = some n) :
    n ≤ (t.scanAt text position).reach := by
  unfold scanAt at h ⊢
  split at h
  · exact length_le_reach h
  · simp at h

/-- A scan that finds nothing has looked at something. -/
theorem reach_pos_scanAt (h : (t.scanAt text position).length = none) :
    0 < (t.scanAt text position).reach := by
  unfold scanAt at h ⊢
  split at h
  · exact reach_pos h
  · simp

end Terminal

end Packrat
