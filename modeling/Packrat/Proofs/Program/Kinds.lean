import Mathlib.Data.List.Nodup
import Mathlib.Data.List.Perm.Subperm
import Mathlib.Data.Set.Function
import Mathlib.Order.Interval.Set.Defs
import Packrat.Proofs.Program.Compiled
import Packrat.Proofs.Program.Lowered

/-!
# The kinds of rules

The names of the rules of a grammar that has passed its analysis are distinct, and so are the kinds
of the rules. As no more kinds can be entered than there may be, there are no more rules either.
-/

namespace Packrat

/-- Where no first repeated thing is found, nothing comes twice. -/
theorem nodup_of_firstRepeated? {α : Type} [BEq α] [LawfulBEq α] {seen l : List α}
    (h : firstRepeated? seen l = none) : l.Nodup ∧ ∀ a ∈ l, a ∉ seen := by
  induction l generalizing seen with
  | nil => exact ⟨List.nodup_nil, by simp⟩
  | cons a l ih =>
    rw [firstRepeated?] at h
    split at h
    · cases h
    · rename_i hnew
      obtain ⟨hnodup, hrest⟩ := ih h
      refine ⟨List.nodup_cons.mpr ⟨fun hmem => hrest a hmem List.mem_cons_self, hnodup⟩, ?_⟩
      exact List.forall_mem_cons.mpr
        ⟨by simpa using hnew, fun b hb hseen => hrest b hb (List.mem_cons_of_mem a hseen)⟩

namespace Grammar

variable {g : Grammar}

/-- A grammar whose names pass their check has distinct ones. -/
theorem nodup_of_checkNames (h : g.checkNames = .ok ()) : (g.rules.map (·.1)).Nodup := by
  unfold checkNames at h
  split at h
  · cases h
  · split at h
    · cases h
    · rename_i hnone
      exact (nodup_of_firstRepeated? hnone).1

/-- A grammar with an analysis has rules with distinct names. -/
theorem nodup_of_analyze {name : Option String} {a : Analysis} (h : g.analyze name = .ok a) :
    (g.rules.map (·.1)).Nodup := nodup_of_checkNames (accepted_of_analyze h).names

end Grammar

namespace Tables

variable {t t' : Tables}

/-- No more kinds are entered than there may be. -/
theorem size_kinds_of_enter {m : Mention} (h : t.enter m = .ok t')
    (ht : t.kinds.size ≤ kindLimit) : t'.kinds.size ≤ kindLimit := by
  cases enters_of_enter h with
  | knownKind => exact ht
  | knownTerminal => exact ht
  | newTerminal => exact ht
  | @newKind kind new =>
    rcases t with ⟨kinds, forms, terminals⟩
    simp only [enter, new, Option.isSome_none, Bool.false_eq_true, if_false] at h
    split at h
    · rename_i hroom
      rw [Numbering.size, Numbering.items_add new, Array.size_push]
      exact hroom
    · cases h

/-- No more kinds are entered than there may be. -/
theorem size_kinds_of_foldlM {ms : List Mention} (h : ms.foldlM enter t = .ok t')
    (ht : t.kinds.size ≤ kindLimit) : t'.kinds.size ≤ kindLimit := by
  induction ms generalizing t with
  | nil =>
    cases h
    exact ht
  | cons m ms ih =>
    rw [List.foldlM_cons] at h
    obtain ⟨t₁, hm, hrest⟩ := Except.of_bind_ok h
    exact ih hrest (size_kinds_of_enter hm ht)

/-- Distinct kinds that were entered are no more than there are. -/
theorem length_le_of_knows {kinds : List Kind} (hnodup : kinds.Nodup)
    (hknows : ∀ kind ∈ kinds, t.Knows (.kind kind)) : kinds.length ≤ t.kinds.size := by
  have hsubset : kinds ⊆ t.kinds.items.toList := fun kind hkind => by
    obtain ⟨i, hi⟩ := hknows kind hkind
    rw [Array.mem_toList_iff, Array.mem_iff_getElem?]
    exact ⟨i, Numbering.number?_eq_some.mp hi⟩
  exact hnodup.length_le_of_subset hsubset

end Tables

namespace Analysed

variable {a : Analysed}

/-- The kinds of all rules. -/
def ruleKinds (a : Analysed) : List Kind := (List.range a.grammar.rules.length).map a.ruleKind

/-- Rules with distinct names have distinct kinds. -/
theorem nodup_ruleKinds (h : (a.grammar.rules.map (·.1)).Nodup) : a.ruleKinds.Nodup := by
  have hnames : a.ruleKinds.map Kind.name = a.grammar.rules.map (·.1) := by
    refine List.ext_getElem (by simp [ruleKinds]) fun i hi _ => ?_
    have hi : i < a.grammar.rules.length := by simpa [ruleKinds] using hi
    simp [ruleKinds, ruleKind, Grammar.ruleName, hi]
  exact .of_map Kind.name (hnames ▸ h)

/-- There are no more rules than there may be kinds. -/
theorem length_rules_le {t t' : Tables} {ms : List Mention}
    (hnames : (a.grammar.rules.map (·.1)).Nodup) (hrules : ∀ kind ∈ a.ruleKinds, .kind kind ∈ ms)
    (h : ms.foldlM Tables.enter t = .ok t') (heven : t.Even) (ht : t.kinds.size ≤ kindLimit) :
    a.grammar.rules.length ≤ kindLimit := by
  obtain ⟨-, hknows, -⟩ := Tables.of_foldlM_enter h heven
  have hlength := Tables.length_le_of_knows (nodup_ruleKinds hnames)
    fun kind hkind => hknows _ (hrules kind hkind)
  rw [ruleKinds, List.length_map, List.length_range] at hlength
  exact Nat.le_trans hlength (Tables.size_kinds_of_foldlM h ht)

end Analysed

end Packrat

/-!
## What tables hold

Entering what is mentioned puts it into the tables and nothing else, and each item has its place
there as its number. It fails only for a terminal that cannot be made or a kind that there is no
room for.
-/

namespace Packrat

namespace Numbering

variable {α : Type} [BEq α] [LawfulBEq α] [Hashable α] {n : Numbering α}

/-- Nothing is entered twice. -/
theorem nodup_items (n : Numbering α) : n.items.toList.Nodup := by
  refine List.nodup_iff_getElem?_ne_getElem?.mpr fun i j hij hj heq => ?_
  rw [Array.length_toList] at hj
  simp only [Array.getElem?_toList] at heq
  have hitem : n.items[j]? = some n.items[j] := Array.getElem?_eq_getElem hj
  have hi := number?_eq_some.mpr (heq.trans hitem)
  have hj := number?_eq_some.mpr hitem
  exact absurd (Option.some.inj (hi.symm.trans hj)) (Nat.ne_of_lt hij)

/-- The numbers of the items are the numbers below their count, one for each. -/
theorem bijOn_number (n : Numbering α) :
    Set.BijOn (fun a => (n.number? a).getD 0) {a | a ∈ n.items} (Set.Iio n.size) := by
  have hplace : ∀ a ∈ n.items, n.items[(n.number? a).getD 0]? = some a := by
    intro a ha
    cases hnumber : n.number? a with
    | none => exact absurd ha (number?_eq_none.mp hnumber)
    | some i => exact number?_eq_some.mp hnumber
  refine ⟨fun a ha => ?_, fun a ha b hb hab => ?_, fun i hi => ?_⟩
  · exact (Array.getElem?_eq_some_iff.mp (hplace a ha)).1
  · have hb' := hplace b hb
    rw [← show (n.number? a).getD 0 = (n.number? b).getD 0 from hab, hplace a ha] at hb'
    exact Option.some.inj hb'
  · have hitem : n.items[i]? = some n.items[i] := Array.getElem?_eq_getElem hi
    refine ⟨n.items[i], Array.getElem_mem hi, ?_⟩
    simp only [number?_eq_some.mpr hitem, Option.getD_some]

end Numbering

namespace Tables

variable {t t' : Tables} {ms : List Mention}

/-- In the tables stands what was there before and what is entered. -/
theorem mem_items_enter {m : Mention} (h : t.enter m = .ok t') :
    (∀ kind, kind ∈ t'.kinds.items ↔ kind ∈ t.kinds.items ∨ .kind kind = m) ∧
      ∀ form, form ∈ t'.forms.items ↔ form ∈ t.forms.items ∨
        ∃ use, .terminal use = m ∧ use.form = form := by
  cases enters_of_enter h with
  | @knownKind kind i known =>
    have hmem := Array.mem_of_getElem? (Numbering.number?_eq_some.mp known)
    refine ⟨fun kind' => ⟨.inl, ?_⟩, by simp⟩
    rintro (hkind | heq)
    · exact hkind
    · cases heq
      exact hmem
  | newKind new =>
    simp [Numbering.items_add new, eq_comm]
  | @knownTerminal use i known =>
    have hmem := Array.mem_of_getElem? (Numbering.number?_eq_some.mp known)
    refine ⟨by simp, fun form => ⟨.inl, ?_⟩⟩
    rintro (hform | ⟨use', heq, rfl⟩)
    · exact hform
    · cases heq
      exact hmem
  | newTerminal new reads =>
    simp [Numbering.items_add new, eq_comm]

/-- The tables hold what is mentioned, and what they have held before. -/
theorem mem_items_foldlM (h : ms.foldlM enter t = .ok t') :
    (∀ kind, kind ∈ t'.kinds.items ↔ kind ∈ t.kinds.items ∨ .kind kind ∈ ms) ∧
      ∀ form, form ∈ t'.forms.items ↔ form ∈ t.forms.items ∨
        ∃ use, .terminal use ∈ ms ∧ use.form = form := by
  induction ms generalizing t with
  | nil =>
    cases h
    simp
  | cons m ms ih =>
    rw [List.foldlM_cons] at h
    obtain ⟨t₁, hm, hrest⟩ := Except.of_bind_ok h
    obtain ⟨hkinds, hforms⟩ := mem_items_enter hm
    obtain ⟨hkinds', hforms'⟩ := ih hrest
    simp only [hkinds', hkinds, hforms', hforms, List.mem_cons, or_assoc, or_and_right, exists_or,
      implies_true, and_self]

/-- Entering fails for a terminal that cannot be made, and for a new kind without room. -/
theorem enter_cases {m : Mention}
    (hbuild : ∀ use, .terminal use = m → ∃ x, use.form.terminal = .ok x) :
    (∃ t', t.enter m = .ok t') ∨ t.enter m = .error .tooManyKinds ∧
      ∃ kind, .kind kind = m ∧ kind ∉ t.kinds.items ∧ kindLimit ≤ t.kinds.size := by
  rcases t with ⟨kinds, forms, terminals⟩
  cases m with
  | kind kind =>
    cases hknown : kinds.number? kind with
    | some i => exact .inl (by simp [enter, hknown])
    | none =>
      by_cases hroom : kinds.size < kindLimit
      · exact .inl (by simp [enter, hknown, hroom])
      · exact .inr ⟨by simp [enter, hknown, hroom], kind, rfl, Numbering.number?_eq_none.mp hknown,
          Nat.le_of_not_lt hroom⟩
  | terminal use =>
    obtain ⟨x, hx⟩ := hbuild use rfl
    cases hknown : forms.number? use.form with
    | some i => exact .inl (by simp [enter, hknown])
    | none => exact .inl (by simp [enter, hknown, hx])

/-- If all terminals can be made, entering fails only for kinds that are too many. -/
theorem foldlM_enter_cases (hbuild : ∀ use, .terminal use ∈ ms → ∃ x, use.form.terminal = .ok x) :
    (∃ t', ms.foldlM enter t = .ok t') ∨ ms.foldlM enter t = .error .tooManyKinds ∧
      ∃ kinds : List Kind, kinds.Nodup ∧ kindLimit < kinds.length ∧
        ∀ kind ∈ kinds, kind ∈ t.kinds.items ∨ .kind kind ∈ ms := by
  induction ms generalizing t with
  | nil => exact .inl ⟨t, rfl⟩
  | cons m ms ih =>
    rw [List.foldlM_cons]
    rcases enter_cases (t := t) fun use huse => hbuild use (huse ▸ List.mem_cons_self) with
      ⟨t₁, hm⟩ | ⟨hfull, kind, rfl, hnew, hsize⟩
    · rw [hm]
      rcases ih (t := t₁) fun use huse => hbuild use (List.mem_cons_of_mem m huse) with
        hrest | ⟨hfull, kinds, hnodup, hmany, hkinds⟩
      · exact .inl hrest
      · refine .inr ⟨hfull, kinds, hnodup, hmany, fun kind hkind => ?_⟩
        rcases hkinds kind hkind with hold | hlater
        · rcases ((mem_items_enter hm).1 kind).mp hold with hold | rfl
          · exact .inl hold
          · exact .inr List.mem_cons_self
        · exact .inr (List.mem_cons_of_mem m hlater)
    · rw [hfull]
      refine .inr ⟨rfl, kind :: t.kinds.items.toList, ?_, ?_, ?_⟩
      · exact List.nodup_cons.mpr ⟨by simpa using hnew, t.kinds.nodup_items⟩
      · simpa [Numbering.size] using Nat.lt_succ_of_le hsize
      · refine List.forall_mem_cons.mpr ⟨.inr List.mem_cons_self, fun k hk => .inl ?_⟩
        exact Array.mem_toList_iff.mp hk

end Tables

end Packrat
