import Mathlib.Data.List.Basic
import Packrat.Regex.Reading
import Packrat.Unicode.CharSet

/-!
# Members of sets of characters

Sorting and joining ranges of code points adds none and loses none, so a set that is put together of
ranges holds what one of them holds.
-/

namespace Packrat

namespace CharSet

/-- Joining sorted ranges adds no code point. -/
theorem exists_of_mem_mergeSorted {current r : Nat × Nat} {rest : List (Nat × Nat)} {n : Nat}
    (hr : r ∈ mergeSorted current rest) (hn : r.1 ≤ n ∧ n ≤ r.2) :
    ∃ s ∈ current :: rest, s.1 ≤ n ∧ n ≤ s.2 := by
  induction rest generalizing current with
  | nil => exact ⟨r, hr, hn⟩
  | cons next rest ih =>
    obtain ⟨lo, hi⟩ := current
    obtain ⟨lo', hi'⟩ := next
    rw [mergeSorted] at hr
    split at hr
    · rename_i htouch
      obtain ⟨s, hs, hsn⟩ := ih hr
      rcases List.mem_cons.mp hs with rfl | hs
      · -- what the joined range holds one of the two does
        rcases Nat.lt_or_ge hi n with hlt | hle
        · exact ⟨(lo', hi'), by simp, by dsimp only at hsn ⊢; omega⟩
        · exact ⟨(lo, hi), by simp, by dsimp only at hsn ⊢; omega⟩
      · exact ⟨s, by simp [hs], hsn⟩
    · rcases List.mem_cons.mp hr with rfl | hr
      · exact ⟨(lo, hi), by simp, hn⟩
      · obtain ⟨s, hs, hsn⟩ := ih hr
        exact ⟨s, List.mem_cons_of_mem _ hs, hsn⟩

/-- Sorting and joining ranges adds no code point. -/
theorem exists_of_mem_normalize {ranges : List (Nat × Nat)} {r : Nat × Nat} {n : Nat}
    (hr : r ∈ normalize ranges) (hn : r.1 ≤ n ∧ n ≤ r.2) :
    ∃ s ∈ ranges, s.1 ≤ n ∧ n ≤ s.2 := by
  unfold normalize at hr
  split at hr
  · cases hr
  · rename_i first rest hsorted
    obtain ⟨s, hs, hsn⟩ := exists_of_mem_mergeSorted hr hn
    rw [← hsorted, List.mem_mergeSort] at hs
    exact ⟨s, (List.mem_filter.mp hs).1, hsn⟩

/-- Joining sorted ranges loses no code point. -/
theorem exists_mem_mergeSorted {current s : Nat × Nat} {rest : List (Nat × Nat)} {n : Nat}
    (hsorted : (current :: rest).Pairwise fun a b => a.1 ≤ b.1) (hs : s ∈ current :: rest)
    (hn : s.1 ≤ n ∧ n ≤ s.2) : ∃ r ∈ mergeSorted current rest, r.1 ≤ n ∧ n ≤ r.2 := by
  induction rest generalizing current s with
  | nil => exact ⟨s, hs, hn⟩
  | cons next rest ih =>
    obtain ⟨lo, hi⟩ := current
    obtain ⟨lo', hi'⟩ := next
    obtain ⟨hfirst, hrest⟩ := List.pairwise_cons.mp hsorted
    have hle : lo ≤ lo' := hfirst _ List.mem_cons_self
    rw [mergeSorted]
    split
    · have hjoined : ((lo, max hi hi') :: rest).Pairwise fun a b => a.1 ≤ b.1 :=
        List.pairwise_cons.mpr ⟨fun r hr => hfirst r (List.mem_cons_of_mem _ hr),
          (List.pairwise_cons.mp hrest).2⟩
      -- the joined range holds what the two hold
      rcases List.mem_cons.mp hs with rfl | hs
      · exact ih hjoined List.mem_cons_self (by dsimp only at hn ⊢; omega)
      · rcases List.mem_cons.mp hs with rfl | hs
        · exact ih hjoined List.mem_cons_self (by dsimp only at hn ⊢; omega)
        · exact ih hjoined (List.mem_cons_of_mem _ hs) hn
    · rcases List.mem_cons.mp hs with rfl | hs
      · exact ⟨(lo, hi), List.mem_cons_self, hn⟩
      · obtain ⟨r, hr, hrn⟩ := ih hrest hs hn
        exact ⟨r, List.mem_cons_of_mem _ hr, hrn⟩

/-- Sorting and joining ranges loses no code point. -/
theorem exists_mem_normalize {ranges : List (Nat × Nat)} {s : Nat × Nat} {n : Nat}
    (hs : s ∈ ranges) (hn : s.1 ≤ n ∧ n ≤ s.2) : ∃ r ∈ normalize ranges, r.1 ≤ n ∧ n ≤ r.2 := by
  have hmem : s ∈ (ranges.filter fun r => r.1 ≤ r.2).mergeSort fun a b => a.1 ≤ b.1 :=
    List.mem_mergeSort.mpr (List.mem_filter.mpr ⟨hs, by simpa using Nat.le_trans hn.1 hn.2⟩)
  have hsorted : ((ranges.filter fun r => r.1 ≤ r.2).mergeSort fun a b => a.1 ≤ b.1).Pairwise
      fun a b => decide (a.1 ≤ b.1) = true := by
    apply List.pairwise_mergeSort
    · intro a b c hab hbc
      simp only [decide_eq_true_eq] at hab hbc ⊢
      omega
    · intro a b
      simp only [Bool.or_eq_true, decide_eq_true_eq]
      omega
  unfold normalize
  split
  · rename_i hnil
    rw [hnil] at hmem
    cases hmem
  · rename_i first rest hcons
    rw [hcons] at hmem hsorted
    exact exists_mem_mergeSorted (hsorted.imp of_decide_eq_true) hmem hn

/-- A set holds a character when one of its ranges does. -/
theorem contains_iff {s : CharSet} {c : Char} :
    s.contains c = true ↔ ∃ r ∈ s.ranges, r.1 ≤ c.toNat ∧ c.toNat ≤ r.2 := by
  simp [contains]

/-- The set of one character holds this character only. -/
@[simp] theorem contains_singleton {c d : Char} : (singleton c).contains d = true ↔ d = c := by
  simp only [contains_iff, singleton, List.mem_singleton, exists_eq_left]
  constructor
  · rintro ⟨hle, hge⟩
    exact Char.toNat_inj.mp (Nat.le_antisymm hge hle)
  · rintro rfl
    exact ⟨Nat.le_refl _, Nat.le_refl _⟩

/-- A union holds what one of the sets does. -/
theorem contains_unions {sets : List CharSet} {c : Char} :
    (unions sets).contains c = true ↔ ∃ s ∈ sets, s.contains c = true := by
  simp only [contains_iff]
  constructor
  · rintro ⟨r, hr, hc⟩
    obtain ⟨q, hq, hqc⟩ := exists_of_mem_normalize hr hc
    obtain ⟨s, hs, hqs⟩ := List.mem_flatMap.mp hq
    exact ⟨s, hs, q, hqs, hqc⟩
  · rintro ⟨s, hs, q, hqs, hqc⟩
    exact exists_mem_normalize (List.mem_flatMap.mpr ⟨s, hs, hqs⟩) hqc

/-- The set of some ranges holds nothing outside them. -/
theorem exists_of_contains_ofRanges {ranges : List (Nat × Nat)} {c : Char}
    (h : (ofRanges ranges).contains c = true) :
    ∃ r ∈ ranges, r.1 ≤ c.toNat ∧ c.toNat ≤ r.2 := by
  simp only [contains, ofRanges, List.any_eq_true, Bool.and_eq_true, decide_eq_true_eq] at h
  obtain ⟨r, hr, hc⟩ := h
  obtain ⟨s, hs, hsc⟩ := exists_of_mem_normalize hr hc
  obtain ⟨q, hq, hs⟩ := List.mem_flatMap.mp hs
  refine ⟨q, hq, ?_⟩
  have hmem := (List.mem_filter.mp hs).1
  simp only [List.mem_cons, List.not_mem_nil, or_false] at hmem
  rcases hmem with rfl | rfl <;> simp only at hsc <;> omega

end CharSet

end Packrat

/-!
## Blanks

A set holds only what its table lists. In particular no mark, letter or digit of ASCII is a blank.
-/

namespace Packrat

namespace Regex

/-- The blanks among the first characters are control characters and the space. -/
theorem isBlank_eq_false {c : Char} (h : 0x21 ≤ c.toNat) (h' : c.toNat < 0x80) :
    isBlank c = false := by
  have hrow : (Unicode.findRow? Unicode.propertyRows (Unicode.looseName "White_Space")).map
      (fun row => Unicode.readRanges row.table) = some [(0x9, 0xD), (0x20, 0x20), (0x85, 0x85),
        (0xA0, 0xA0), (0x1680, 0x1680), (0x2000, 0x200A), (0x2028, 0x2029), (0x202F, 0x202F),
        (0x205F, 0x205F), (0x3000, 0x3000)] := by decide +kernel
  obtain ⟨row, hfound, hranges⟩ := Option.map_eq_some_iff.mp hrow
  by_contra hblank
  rw [Bool.not_eq_false, isBlank, Unicode.whiteSpace, Unicode.listedProperty, hfound] at hblank
  obtain ⟨r, hr, hc⟩ := CharSet.exists_of_contains_ofRanges hblank
  rw [hranges] at hr
  simp only [List.mem_cons, List.not_mem_nil, or_false] at hr
  rcases hr with rfl | rfl | rfl | rfl | rfl | rfl | rfl | rfl | rfl | rfl <;>
    dsimp only at hc <;> omega

end Regex

end Packrat
