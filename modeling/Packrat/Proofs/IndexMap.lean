import Mathlib.Data.List.Nodup

/-!
# Maps by insertion

A map that keeps its entries in the order in which they were inserted, save that the last one takes
the place of one that is removed. While no two entries have one key, what is found for a key does
not depend on the order.
-/

namespace Packrat

/-- A map by its entries. -/
abbrev IndexMap (κ α : Type) : Type := Array (κ × α)

namespace IndexMap

section Entries

variable {κ α : Type}

/-- Puts the last entry in the place of another one. -/
def removeAt (m : IndexMap κ α) (place : Nat) (h : place < m.size) : IndexMap κ α :=
  (m.swap place (m.size - 1)).pop

/-- Whether no two entries have one key. -/
def Distinct (m : IndexMap κ α) : Prop := (m.toList.map (·.1)).Nodup

/-- One entry goes and the others stay. -/
theorem perm_removeAt (m : IndexMap κ α) (place : Nat) (h : place < m.size) :
    m.toList.Perm (m[place] :: (m.removeAt place h).toList) := by
  have hswap := Array.perm_iff_toList_perm.mp (Array.swap_perm h (by omega : m.size - 1 < m.size))
  have hlast : (m.swap place (m.size - 1)).toList =
      (m.removeAt place h).toList ++ [m[place]] := by
    have hne : (m.swap place (m.size - 1)).toList ≠ [] := by
      rw [ne_eq, ← List.length_eq_zero_iff, Array.length_toList, Array.size_swap]
      omega
    have hback : (m.swap place (m.size - 1)).toList.getLast hne = m[place] := by
      rw [List.getLast_eq_getElem, Array.getElem_toList]
      simp
    rw [removeAt, Array.toList_pop, ← hback, List.dropLast_append_getLast]
  refine hswap.symm.trans ?_
  rw [hlast]
  exact List.perm_append_singleton _ _

variable {m : IndexMap κ α} {place : Nat} {h : place < m.size}

/-- A map is smaller by the entry that goes. -/
theorem size_removeAt : (m.removeAt place h).size = m.size - 1 := by
  simp [removeAt]

/-- Keys stay distinct when an entry goes. -/
theorem Distinct.removeAt (hm : m.Distinct) : (m.removeAt place h).Distinct := by
  have hkeys := ((m.perm_removeAt place h).map Prod.fst).nodup_iff.mp hm
  exact (List.nodup_cons.mp hkeys).2

end Entries

section Keys

variable {κ α : Type} [BEq κ]

/-- What is kept for a key. -/
def get? (m : IndexMap κ α) (k : κ) : Option α :=
  (Array.find? (fun entry => entry.1 == k) m).map (·.2)

/-- Keeps something for a key, in place of what was kept for it. -/
def insert (m : IndexMap κ α) (k : κ) (a : α) : IndexMap κ α :=
  match m.findFinIdx? fun entry => entry.1 == k with
  | some place => m.set place (k, a)
  | none => m.push (k, a)

/-- Keeps nothing for a key any longer. -/
def swapRemove (m : IndexMap κ α) (k : κ) : IndexMap κ α :=
  match m.findFinIdx? fun entry => entry.1 == k with
  | some place => m.removeAt place place.isLt
  | none => m

variable {m : IndexMap κ α} {k j : κ} {a : α}

/-- Keys stay distinct when one is removed. -/
theorem Distinct.swapRemove (hm : m.Distinct) : (m.swapRemove k).Distinct := by
  unfold IndexMap.swapRemove
  split
  · exact hm.removeAt
  · exact hm

variable [LawfulBEq κ]

/-- Nothing is found for a key that no entry has. -/
theorem get?_eq_none : m.get? k = none ↔ ∀ entry ∈ m, entry.1 ≠ k := by
  simp [get?]

/-- Where keys are distinct, what is found for a key is what an entry has for it. -/
theorem get?_eq_some (hm : m.Distinct) : m.get? k = some a ↔ (k, a) ∈ m := by
  constructor
  · intro h
    obtain ⟨entry, hfind, rfl⟩ := Option.map_eq_some_iff.mp h
    have hkey := Array.find?_some hfind
    rw [beq_iff_eq] at hkey
    subst hkey
    exact Array.mem_of_find?_eq_some hfind
  · intro hmem
    cases hfind : m.get? k with
    | none => exact absurd rfl (get?_eq_none.mp hfind _ hmem)
    | some b =>
      obtain ⟨entry, hentry, rfl⟩ := Option.map_eq_some_iff.mp hfind
      have hkey := Array.find?_some hentry
      rw [beq_iff_eq] at hkey
      have heq : entry = (k, a) := List.inj_on_of_nodup_map hm
        (Array.mem_toList_iff.mpr (Array.mem_of_find?_eq_some hentry))
        (Array.mem_toList_iff.mpr hmem) hkey
      rw [heq]

/-- Keys stay distinct when a new one comes last. -/
theorem Distinct.push (hm : m.Distinct) (hk : m.get? k = none) : Distinct (m.push (k, a)) := by
  rw [Distinct, Array.toList_push, List.map_append, List.nodup_append]
  refine ⟨hm, by simp, ?_⟩
  rintro _ hmem _ hlast rfl
  obtain ⟨entry, hentry, rfl⟩ := List.mem_map.mp hmem
  rw [List.map_singleton, List.mem_singleton] at hlast
  exact get?_eq_none.mp hk entry (Array.mem_toList_iff.mp hentry) hlast

/-- What is kept for a new key comes last. -/
theorem insert_of_get?_eq_none (hk : m.get? k = none) : m.insert k a = m.push (k, a) := by
  unfold insert
  split
  · rename_i place hplace
    exact absurd (by simpa using (Array.findFinIdx?_eq_some_iff.mp hplace).1)
      (get?_eq_none.mp hk m[place] (Array.getElem_mem _))
  · rfl

variable [DecidableEq κ]

/-- An entry that comes last is found unless an earlier one has its key. -/
theorem get?_push : get? (m.push (j, a)) k =
    (m.get? k).or (if j = k then some a else none) := by
  rw [get?, get?, Array.find?_push]
  cases Array.find? (fun entry => entry.1 == k) m <;> by_cases h : j = k <;> simp [h]

/-- What is found among the entries that stay. -/
theorem get?_removeAt {place : Nat} {h : place < m.size} (hm : m.Distinct) :
    (m.removeAt place h).get? k = if m[place].1 = k then none else m.get? k := by
  have hperm := m.perm_removeAt place h
  have hkeys := (hperm.map Prod.fst).nodup_iff.mp hm
  rw [List.map_cons, List.nodup_cons] at hkeys
  split
  · rename_i hkey
    subst hkey
    refine get?_eq_none.mpr fun entry hentry hsame => hkeys.1 ?_
    exact List.mem_map.mpr ⟨entry, Array.mem_toList_iff.mpr hentry, hsame⟩
  · rename_i hkey
    refine Option.ext fun a => ?_
    rw [get?_eq_some hm, get?_eq_some hm.removeAt, ← Array.mem_toList_iff,
      ← Array.mem_toList_iff, hperm.mem_iff, List.mem_cons]
    refine ⟨.inr, ?_⟩
    rintro (hsame | hmem)
    · exact absurd (congrArg Prod.fst hsame).symm hkey
    · exact hmem

/-- A key that is removed is found no longer, and nothing else changes. -/
theorem get?_swapRemove (hm : m.Distinct) :
    (m.swapRemove k).get? j = if k = j then none else m.get? j := by
  unfold IndexMap.swapRemove
  split
  · rename_i place hplace
    have hkey : m[place.val].1 = k := by
      simpa using (Array.findFinIdx?_eq_some_iff.mp hplace).1
    rw [get?_removeAt hm, hkey]
  · rename_i hnone
    split
    · rename_i hkj
      subst hkj
      refine get?_eq_none.mpr fun entry hentry => ?_
      simpa using Array.findFinIdx?_eq_none_iff.mp hnone entry hentry
    · rfl

end Keys

end IndexMap

end Packrat
