import Packrat.Proofs.Grammar.Recursion
import Packrat.Regex.Pattern

/-!
# Empty matches

When the parts of an expression match nothing at all, told by how they are put together, and what a
scan that takes nothing has found.
-/

namespace Packrat

namespace Regex

variable {before after : Neighbour} {flags flags' : Flags}

/-- Two expressions one after the other match nothing when both do. -/
theorem matchesEmpty_cat (a b : Regex) : (a.cat b).matchesEmpty before after =
    (a.matchesEmpty before after && b.matchesEmpty before after) := by
  cases a <;> cases b <;> simp [cat, matchesEmpty]

/-- A sequence matches nothing when all of its members do. -/
theorem matchesEmpty_sequence (rs : List Regex) :
    (sequence rs).matchesEmpty before after = rs.all (·.matchesEmpty before after) := by
  induction rs with
  | nil => rfl
  | cons r rs ih => rw [sequence, List.foldr_cons, matchesEmpty_cat, List.all_cons, ← ih, sequence]

/-- A sequence of one expression is this expression. -/
theorem sequence_singleton (r : Regex) : sequence [r] = r := by
  cases r <;> rfl

/-- A repetition matches nothing if it may be left out, or if what is repeated does. -/
theorem matchesEmpty_repeated {r : Regex} {min : Nat} {max : Option Nat}
    (h : (r.repeated min max).matchesEmpty before after = true) :
    max = some 0 ∨ min = 0 ∨ r.matchesEmpty before after = true := by
  unfold repeated at h
  split at h
  · exact .inl ‹_›
  · split at h
    · exact .inr (.inr h)
    · simpa [matchesEmpty] using Or.inr h

/-- When alternatives match nothing, one of them does. -/
theorem matchesEmpty_alternatives {r : Regex} {rs : List Regex}
    (h : (alternatives r rs).matchesEmpty before after = true) :
    ∃ x ∈ r :: rs, x.matchesEmpty before after = true := by
  induction rs generalizing r with
  | nil => exact ⟨r, List.mem_singleton_self r, h⟩
  | cons s rs ih =>
    simp only [alternatives, matchesEmpty, Bool.or_eq_true] at h
    rcases h with h | h
    · exact ⟨r, List.mem_cons_self, h⟩
    · obtain ⟨x, hx, hempty⟩ := ih h
      exact ⟨x, List.mem_cons_of_mem r hx, hempty⟩

/-- When a choice matches nothing, one of its members does. -/
theorem matchesEmpty_choice {rs : List Regex}
    (h : (choice rs).matchesEmpty before after = true) :
    ∃ r ∈ rs, r.matchesEmpty before after = true := by
  unfold choice at h
  split at h
  · cases h
  · split at h
    · exact matchesEmpty_alternatives h
    · cases h

/-- Parts in a row have the meaning of their sequence. -/
theorem meaning?_ofParts (parts : List Written) : (Written.ofParts parts).meaning? flags =
    (meanings? flags parts).map fun x => (sequence x.1, x.2) := by
  match parts with
  | [] => rfl
  | [part] =>
    simp only [Written.ofParts, meanings?]
    cases part.meaning? flags with
    | none => rfl
    | some x =>
      obtain ⟨r, flags'⟩ := x
      cases r <;> rfl
  | a :: b :: parts =>
    simp only [Written.ofParts, Written.meaning?]
    cases meanings? flags (a :: b :: parts) <;> rfl

/-- Alternatives beside each other; a single one stands for itself. -/
def alternation : List Regex → Regex
  | [r] => r
  | rs => choice rs

/-- When an alternation matches nothing, one of its members does. -/
theorem matchesEmpty_alternation {rs : List Regex}
    (h : (alternation rs).matchesEmpty before after = true) :
    ∃ r ∈ rs, r.matchesEmpty before after = true := by
  unfold alternation at h
  split at h
  · exact ⟨_, List.mem_singleton_self _, h⟩
  · exact matchesEmpty_choice h

/-- Branches beside each other have the meaning of their alternatives. -/
theorem meaning?_ofBranches {branches : List Written} (hne : branches ≠ []) {r : Regex}
    (h : (Written.ofBranches branches).meaning? flags = some (r, flags')) :
    ∃ rs, meanings? flags branches = some (rs, flags') ∧ r = alternation rs := by
  match branches with
  | [] => exact absurd rfl hne
  | [branch] =>
    refine ⟨[r], ?_, rfl⟩
    simp only [Written.ofBranches] at h
    simp [meanings?, h]
  | a :: b :: branches =>
    simp only [Written.ofBranches, Written.meaning?] at h
    obtain ⟨⟨rs, flags₁⟩, hrs, h⟩ := Option.bind_eq_some_iff.mp h
    cases h
    refine ⟨rs, hrs, ?_⟩
    -- two branches have two meanings
    obtain ⟨⟨x, flags₂⟩, -, hrs⟩ := Option.bind_eq_some_iff.mp hrs
    obtain ⟨⟨ys, flags₃⟩, hys, hrs⟩ := Option.bind_eq_some_iff.mp hrs
    obtain ⟨⟨y, flags₄⟩, -, hys⟩ := Option.bind_eq_some_iff.mp hys
    obtain ⟨⟨zs, flags₅⟩, -, hys⟩ := Option.bind_eq_some_iff.mp hys
    cases hys
    cases hrs
    rfl

/-- Parts one behind the other mean expressions one behind the other, under the flags that the first
ones leave. -/
theorem of_meanings?_append {as bs : List Written} {rs : List Regex}
    (h : meanings? flags (as ++ bs) = some (rs, flags')) :
    ∃ xs between ys, meanings? flags as = some (xs, between) ∧
      meanings? between bs = some (ys, flags') ∧ rs = xs ++ ys := by
  induction as generalizing flags rs with
  | nil => exact ⟨[], flags, rs, rfl, h, rfl⟩
  | cons a as ih =>
    obtain ⟨⟨x, flags₁⟩, hx, h⟩ := Option.bind_eq_some_iff.mp h
    obtain ⟨⟨zs, flags₂⟩, hzs, h⟩ := Option.bind_eq_some_iff.mp h
    cases h
    obtain ⟨xs, between, ys, hxs, hys, rfl⟩ := ih hzs
    exact ⟨x :: xs, between, ys, by simp [meanings?, hx, hxs], hys, rfl⟩

/-- An expression that matches nothing at all has no greater least length than that. -/
theorem minLength?_eq_zero {r : Regex} {n : Nat} (h : r.matchesEmpty before after = true)
    (hn : r.minLength? = some n) : n = 0 := by
  induction r generalizing n with
  | empty => exact (Option.some.inj hn).symm
  | look => exact (Option.some.inj hn).symm
  | chars => cases h
  | seq a b iha ihb =>
    obtain ⟨ha, hb⟩ := Bool.and_eq_true_iff.mp h
    obtain ⟨i, hi, hn⟩ := Option.bind_eq_some_iff.mp hn
    obtain ⟨j, hj, hn⟩ := Option.bind_eq_some_iff.mp hn
    cases hn
    rw [iha ha hi, ihb hb hj]
  | alt a b iha ihb =>
    obtain ⟨i, hi, hn⟩ := Option.bind_eq_some_iff.mp hn
    obtain ⟨j, hj, hn⟩ := Option.bind_eq_some_iff.mp hn
    cases hn
    rcases Bool.or_eq_true_iff.mp h with ha | hb
    · rw [iha ha hi, Nat.zero_min]
    · rw [ihb hb hj, Nat.min_zero]
  | rep body least most ih =>
    obtain ⟨i, hi, hn⟩ := Option.bind_eq_some_iff.mp hn
    cases hn
    rcases Bool.or_eq_true_iff.mp h with hleast | hbody
    · rw [beq_iff_eq.mp hleast, Nat.mul_zero]
    · rw [ih hbody hi, Nat.zero_mul]

/-- A scan that takes nothing has found that nothing is matched. -/
theorem exists_matchesEmpty_of_scan {r : Regex} {previous : Option Char} {rest : List Char}
    (h : (r.scan previous rest).length = some 0) :
    ∃ before after, r.matchesEmpty before after = true := by
  have hany : ∀ next, (if [r].any (·.matchesEmpty (.of previous) next) then some 0 else none) =
      some 0 → ∃ before after, r.matchesEmpty before after = true := by
    intro next hsome
    refine ⟨.of previous, next, ?_⟩
    simpa using hsome
  cases rest with
  | nil => exact hany _ h
  | cons c cs =>
    simp only [scan, scanFrom] at h
    split at h
    · exact hany _ h
    · -- a match that is found later takes something
      rcases exists_of_scanFrom_length h with hlast | ⟨ws, -, -, hlength⟩
      · exact hany _ hlast
      · have hpos := Char.utf8Size_pos c
        omega

end Regex

/-- A pattern that matches nothing somewhere matches it between some neighbours. -/
theorem Terminal.exists_matchesEmpty {p : Pattern} (h : (pattern p).MayBeEmpty) :
    ∃ before after, p.regex.matchesEmpty before after = true := by
  obtain ⟨text, position, hlength⟩ := h
  unfold scanAt at hlength
  split at hlength
  · exact Regex.exists_matchesEmpty_of_scan hlength
  · cases hlength

end Packrat
