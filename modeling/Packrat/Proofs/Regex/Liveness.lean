import Mathlib.Data.Finset.Card
import Mathlib.Data.Fintype.Prod
import Packrat.Proofs.Regex.Heads
import Packrat.Proofs.Text.Bytes

/-!
# What can still be matched

An expression that matches a stretch of some text is live behind what stands before it. The
positions that a repetition reaches are told by their neighbours, of which there are 25 pairs, so
they are found in 25 rounds. A scan goes on as long as some rest that the next character leaves is
live.
-/

namespace Packrat

/-- A set meets a range in which it has a character. -/
theorem CharSet.meets_of_contains {s : CharSet} {c : Char} {lo hi : Nat}
    (h : s.contains c = true) (hlo : lo ≤ c.toNat) (hhi : c.toNat ≤ hi) :
    s.meets lo hi = true := by
  obtain ⟨r, hr, hc⟩ := contains_iff.mp h
  simp only [meets, List.any_eq_true, Bool.and_eq_true, decide_eq_true_eq]
  exact ⟨r, hr, by omega, by omega⟩

namespace Neighbour

instance : Fintype Neighbour where
  elems := all.toFinset
  complete n := by cases n <;> decide

/-- A character is among those of its kind. -/
theorem exists_range (c : Char) : ∃ r ∈ (ofChar c).ranges, r.1 ≤ c.toNat ∧ c.toNat ≤ r.2 := by
  have hval : c.toNat = c.val.toNat := rfl
  have hlast : c.toNat < 0x110000 := by
    rcases utf8Size_cases c with h | h | h | h <;> omega
  have heq : ∀ d : Char, (c == d) = decide (c.toNat = d.toNat) := by
    intro d
    rw [Bool.eq_iff_iff, beq_iff_eq, decide_eq_true_eq, Char.toNat_inj]
  have halpha : c.isAlpha = (decide ('A'.val ≤ c.val ∧ c.val ≤ 'Z'.val) ||
      decide ('a'.val ≤ c.val) && decide (c.val ≤ 'z'.val)) := rfl
  have hword : isWordChar c = true ↔ (0x30 ≤ c.toNat ∧ c.toNat ≤ 0x39) ∨
      (0x41 ≤ c.toNat ∧ c.toNat ≤ 0x5A) ∨ c.toNat = 0x5F ∨
        (0x61 ≤ c.toNat ∧ c.toNat ≤ 0x7A) := by
    simp only [isWordChar, Char.isAlphanum, halpha, Char.isDigit, heq, Bool.or_eq_true,
      Bool.and_eq_true, decide_eq_true_eq, UInt32.le_iff_toNat_le, ge_iff_le,
      UInt32.reduceToNat, Char.reduceVal, Char.reduceToNat]
    omega
  unfold ofChar
  split_ifs <;>
    simp only [heq, hword, decide_eq_true_eq, Char.reduceToNat] at * <;>
    simp only [ranges, List.exists_mem_cons_iff, List.not_mem_nil, false_and, exists_false,
      or_false] <;>
    omega

/-- A set has characters of the kind that its characters are of. -/
theorem occursIn_ofChar {s : CharSet} {c : Char} (h : s.contains c = true) :
    (ofChar c).occursIn s = true := by
  obtain ⟨r, hr, hlo, hhi⟩ := exists_range c
  exact List.any_eq_true.mpr ⟨r, hr, CharSet.meets_of_contains h hlo hhi⟩

end Neighbour

/-- Steps are some of them and then the others. -/
theorem Text.Steps.split {t : Text} {R : Nat → Nat → Prop} {a b p q : Nat}
    (hR : ∀ p q, R p q → t.isBoundary p = true) (h : t.Steps R (a + b) p q) :
    ∃ m, t.Steps R a p m ∧ t.Steps R b m q := by
  induction a generalizing p with
  | zero =>
    rw [Nat.zero_add] at h
    refine ⟨p, ⟨?_, rfl⟩, h⟩
    cases b with
    | zero => exact h.1
    | succ b =>
      obtain ⟨m, hfirst, -⟩ := h
      exact hR p m hfirst
  | succ a ih =>
    rw [Nat.succ_add] at h
    obtain ⟨m, hfirst, hrest⟩ := h
    obtain ⟨i, ha, hb⟩ := ih hrest
    exact ⟨i, ⟨m, hfirst, ha⟩, hb⟩

namespace Regex

section Rounds

variable {f : List Junction → List Junction} {js js' : List Junction} {n : Nat}

/-- There are five neighbours, so 25 pairs of them. -/
theorem card_junctions : Fintype.card Junction = 25 := by decide

/-- What is known at first is known in the end. -/
theorem subset_closure (n : Nat) (js : List Junction) : js ⊆ closure f n js := by
  induction n generalizing js with
  | zero => exact List.Subset.refl js
  | succ n ih =>
    intro j hj
    exact ih _ (List.mem_eraseDups.mpr (List.mem_append_left _ hj))

/-- Rounds from positions that are kept add none. -/
theorem closure_subset (hf : ∀ js js', js ⊆ js' → f js ⊆ f js') (h : f js ⊆ js) (n : Nat)
    (hjs' : js' ⊆ js) : closure f n js' ⊆ js := by
  induction n generalizing js' with
  | zero => exact hjs'
  | succ n ih =>
    refine ih fun j hj => ?_
    rcases List.mem_append.mp (List.mem_eraseDups.mp hj) with hj | hj
    · exact hjs' hj
    · exact h (hf _ _ hjs' hj)

/-- More to begin with gives no less in the end. -/
theorem closure_mono (hf : ∀ js js', js ⊆ js' → f js ⊆ f js') (n : Nat) (h : js ⊆ js') :
    closure f n js ⊆ closure f n js' := by
  induction n generalizing js js' with
  | zero => exact h
  | succ n ih =>
    refine ih fun j hj => List.mem_eraseDups.mpr ?_
    rcases List.mem_append.mp (List.mem_eraseDups.mp hj) with hj | hj
    · exact List.mem_append_left _ (h hj)
    · exact List.mem_append_right _ (hf _ _ h hj)

/-- More to begin with gives no less after any number of rounds. -/
theorem times_mono (hf : ∀ js js', js ⊆ js' → f js ⊆ f js') (n : Nat) (h : js ⊆ js') :
    times f n js ⊆ times f n js' := by
  induction n generalizing js js' with
  | zero => exact h
  | succ n ih => exact ih (hf _ _ h)

/-- As long as a round adds something the positions become more, so enough rounds keep them. -/
theorem closed_closure (hf : ∀ js js', js ⊆ js' → f js ⊆ f js')
    (h : 25 ≤ n + js.toFinset.card) : f (closure f n js) ⊆ closure f n js := by
  induction n generalizing js with
  | zero =>
    -- all positions are there
    have hall : js.toFinset = Finset.univ := by
      refine Finset.eq_univ_of_card _ (Nat.le_antisymm (Finset.card_le_univ _) ?_)
      rw [card_junctions]
      omega
    intro j _
    exact List.mem_toFinset.mp (hall ▸ Finset.mem_univ j)
  | succ n ih =>
    by_cases hclosed : f js ⊆ js
    · have hsame : closure f (n + 1) js ⊆ js := closure_subset hf hclosed _ (List.Subset.refl js)
      exact fun j hj => subset_closure _ _ (hclosed (hf _ _ hsame hj))
    · obtain ⟨j, hj, hnew⟩ : ∃ j ∈ f js, j ∉ js := by
        simpa [List.subset_def] using hclosed
      refine ih ?_
      have hmore : js.toFinset ⊂ (js ++ f js).eraseDups.toFinset := by
        refine (Finset.ssubset_iff_of_subset fun i hi => ?_).mpr ⟨j, ?_, ?_⟩
        · exact List.mem_toFinset.mpr
            (List.mem_eraseDups.mpr (List.mem_append_left _ (List.mem_toFinset.mp hi)))
        · exact List.mem_toFinset.mpr (List.mem_eraseDups.mpr (List.mem_append_right _ hj))
        · rwa [List.mem_toFinset]
      have hcard := Finset.card_lt_card hmore
      omega

end Rounds

section Junctions

variable {r : Regex} {text : Text} {p q : Nat} {js js' : List Junction}

/-- More to begin with gives no less behind an expression. -/
theorem advance_mono (r : Regex) (js js' : List Junction) (h : js ⊆ js') :
    r.advance js ⊆ r.advance js' := by
  induction r generalizing js js' with
  | empty => exact h
  | look l =>
    intro j hj
    rw [advance, List.mem_filter] at hj ⊢
    exact hj.imp_left (h ·)
  | chars s =>
    intro j hj
    rw [advance, List.mem_eraseDups, List.mem_flatMap] at hj ⊢
    obtain ⟨i, hi, hj⟩ := hj
    exact ⟨i, h hi, hj⟩
  | seq a b iha ihb => exact ihb _ _ (iha _ _ h)
  | alt a b iha ihb =>
    intro j hj
    rw [advance, List.mem_eraseDups, List.mem_append] at hj ⊢
    exact hj.imp (fun hj => iha _ _ h hj) (fun hj => ihb _ _ h hj)
  | rep body least most ih => exact closure_mono ih _ (times_mono ih _ h)

/-- A round leads from a position to where a match from it ends. -/
def Follows (f : List Junction → List Junction) (text : Text) (R : Nat → Nat → Prop) : Prop :=
  ∀ js p q, R p q → text.junction p ∈ js → text.junction q ∈ f js

/-- As many steps as rounds lead to what the rounds find. -/
theorem Follows.times {f : List Junction → List Junction} {R : Nat → Nat → Prop} {n : Nat}
    (hf : Follows f text R) (h : text.Steps R n p q) (hp : text.junction p ∈ js) :
    text.junction q ∈ times f n js := by
  induction n generalizing p js with
  | zero =>
    obtain ⟨-, rfl⟩ := h
    exact hp
  | succ n ih =>
    obtain ⟨m, hfirst, hrest⟩ := h
    exact ih hrest (hf _ _ _ hfirst hp)

/-- No step leads out of what a further round adds nothing to. -/
theorem Follows.closed {f : List Junction → List Junction} {R : Nat → Nat → Prop} {n : Nat}
    (hf : Follows f text R) (hclosed : f js ⊆ js) (h : text.Steps R n p q)
    (hp : text.junction p ∈ js) : text.junction q ∈ js := by
  induction n generalizing p with
  | zero =>
    obtain ⟨-, rfl⟩ := h
    exact hp
  | succ n ih =>
    obtain ⟨m, hfirst, hrest⟩ := h
    exact ih hrest (hclosed (hf _ _ _ hfirst hp))

/-- Some steps are followed in as many rounds. -/
theorem Follows.closure {f : List Junction → List Junction} {R : Nat → Nat → Prop} {n k : Nat}
    (hf : Follows f text R) (hk : k ≤ n) (h : text.Steps R k p q)
    (hp : text.junction p ∈ js) : text.junction q ∈ closure f n js := by
  induction n generalizing k p js with
  | zero =>
    obtain rfl := Nat.le_zero.mp hk
    obtain ⟨-, rfl⟩ := h
    exact hp
  | succ n ih =>
    cases k with
    | zero =>
      obtain ⟨-, rfl⟩ := h
      exact subset_closure _ _ hp
    | succ k =>
      obtain ⟨m, hfirst, hrest⟩ := h
      exact ih (Nat.le_of_succ_le_succ hk) hrest
        (List.mem_eraseDups.mpr (List.mem_append_right _ (hf _ _ _ hfirst hp)))

/-- Any number of steps is followed in 25 rounds. -/
theorem Follows.closure_all {f : List Junction → List Junction} {R : Nat → Nat → Prop} {k : Nat}
    (hmono : ∀ js js', js ⊆ js' → f js ⊆ f js') (hf : Follows f text R)
    (h : text.Steps R k p q) (hp : text.junction p ∈ js) :
    text.junction q ∈ Regex.closure f 25 js :=
  hf.closed (closed_closure hmono (Nat.le_add_right _ _)) h (subset_closure _ _ hp)

/-- Where a match ends is among the positions that the expression leads to. -/
theorem follows_advance (r : Regex) (text : Text) : Follows r.advance text (r.Spans text) := by
  induction r with
  | empty =>
    intro js p q h hp
    obtain ⟨-, rfl⟩ := spans_empty.mp h
    exact hp
  | look l =>
    intro js p q h hp
    obtain ⟨-, rfl, hl⟩ := spans_look.mp h
    exact List.mem_filter.mpr ⟨hp, hl⟩
  | chars s =>
    intro js p q h hp
    obtain ⟨xs, c, ys, ⟨hsplit, rfl⟩, hc⟩ := spans_chars.mp h
    have hnext : text.Splits (p + utf8Length [c]) (xs ++ [c]) ys := hsplit.advance
    rw [hsplit.junction] at hp
    rw [advance, List.mem_eraseDups, List.mem_flatMap]
    refine ⟨_, hp, ?_⟩
    have hoccurs : (Neighbour.of ([c] ++ ys).head?).occursIn s = true :=
      Neighbour.occursIn_ofChar hc
    rw [if_pos hoccurs, List.mem_map, hnext.junction]
    exact ⟨.of ys.head?, List.mem_toFinset.mp (Fintype.complete _), by simp [Neighbour.of]⟩
  | seq a b iha ihb =>
    intro js p q h hp
    obtain ⟨m, ha, hb⟩ := spans_seq.mp h
    exact ihb _ _ _ hb (iha _ _ _ ha hp)
  | alt a b iha ihb =>
    intro js p q h hp
    rw [advance, List.mem_eraseDups, List.mem_append]
    exact (spans_alt.mp h).imp (fun h => iha _ _ _ h hp) (fun h => ihb _ _ _ h hp)
  | rep body least most ih =>
    intro js p q h hp
    obtain ⟨n, hleast, hmost, hsteps⟩ := spans_rep.mp h
    obtain ⟨k, rfl⟩ := Nat.exists_eq_add_of_le hleast
    obtain ⟨m, hfirst, hrest⟩ := hsteps.split fun _ _ h => h.isBoundary.1
    have hm := ih.times hfirst hp
    have hall := ih.closure_all (advance_mono body) hrest hm
    cases most with
    | none => exact hall
    | some most =>
      have hle := hmost most rfl
      simp only [advance]
      by_cases hfew : most - least ≤ 25
      · rw [Nat.min_eq_left hfew]
        exact ih.closure (by omega) hrest hm
      · rw [Nat.min_eq_right (by omega)]
        exact hall

/-- An expression that matches something can match something. -/
theorem isInhabited_of_matches {before after : Neighbour} {w : List Char}
    (h : r.Matches before w after) : r.isInhabited = true := by
  induction h with
  | empty => rfl
  | look => rfl
  | chars hc =>
    obtain ⟨range, hrange, -⟩ := CharSet.contains_iff.mp hc
    simpa [isInhabited, CharSet.isEmpty] using List.ne_nil_of_mem hrange
  | seq _ _ iha ihb => simp [isInhabited, iha, ihb]
  | left _ ih => simp [isInhabited, ih]
  | right _ ih => simp [isInhabited, ih]
  | done => simp [isInhabited]
  | more _ _ _ ih => simp [isInhabited, ih]

/-- What matches a stretch of some text is live. -/
theorem isLive_of_spans (h : r.Spans text p q) : r.isLive (text.junction p).1 = true := by
  unfold isLive
  split
  · obtain ⟨xs, w, ys, -, hmatches⟩ := h
    exact isInhabited_of_matches hmatches
  · have hstart : text.junction p ∈
        Neighbour.all.map fun after => ((text.junction p).1, after) :=
      List.mem_map.mpr ⟨_, List.mem_toFinset.mp (Fintype.complete (text.junction p).2), rfl⟩
    have hend := follows_advance r text _ p q h hstart
    simpa using List.ne_nil_of_mem hend

end Junctions

section Stopping

variable {heads : List (CharSet × Regex)} {h : CharSet × Regex} {c : Char}

/-- A head that takes the next character and has a live rest keeps a scan going. -/
theorem goesOn_of_mem (hmem : h ∈ heads) (hc : h.1.contains c = true)
    (hlive : h.2.isLive (.ofChar c) = true) (k : Nat) : goesOn heads c k = true := by
  have hpos : 0 < Nat.pow 64 (c.utf8Size - k) := Nat.pow_pos (by decide)
  have hfirst : firstOfSize c.utf8Size ≤ c.toNat := by
    rcases utf8Size_cases c with ⟨hs, hc⟩ | ⟨hs, hc⟩ | ⟨hs, hc⟩ | ⟨hs, hc⟩ <;> rw [hs] <;>
      simp only [firstOfSize] <;> omega
  have hlo := Nat.div_mul_le_self c.toNat (Nat.pow 64 (c.utf8Size - k))
  have hhi := Nat.lt_div_mul_add hpos (a := c.toNat)
  refine List.any_eq_true.mpr ⟨h, hmem, ?_⟩
  rw [Bool.and_eq_true]
  refine ⟨CharSet.meets_of_contains hc ?_ ?_, hlive⟩
  · exact Nat.max_le.mpr ⟨hlo, hfirst⟩
  · simp only [prefixBlock]
    omega

/-- Where a scan stops, no head takes the next character and has a live rest. -/
theorem not_live_of_stopsWithin {ended : Bool} {k : Nat}
    (hstop : stopsWithin heads c ended = some k) (hmem : h ∈ heads)
    (hc : h.1.contains c = true) : h.2.isLive (.ofChar c) = false := by
  have hgoes := List.find?_some hstop
  simp only [Bool.and_eq_true, Bool.not_eq_true'] at hgoes
  refine Bool.eq_false_iff.mpr fun hlive => ?_
  rw [goesOn_of_mem hmem hc hlive] at hgoes
  cases hgoes.2

/-- A rest is what remains of a beginning that takes the character, if it is live behind it. -/
theorem mem_residuals {r : Regex} : r ∈ residuals heads c ↔
    ∃ h ∈ heads, h.1.contains c = true ∧ h.2.isLive (.ofChar c) = true ∧ h.2 = r := by
  simp only [residuals, List.mem_eraseDups, List.mem_filterMap, Option.ite_none_right_eq_some,
    Bool.and_eq_true, Option.some.injEq, and_assoc]

end Stopping

end Regex

end Packrat
