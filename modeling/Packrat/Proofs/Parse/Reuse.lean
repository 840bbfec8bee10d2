import Packrat.Proofs.Parse.Lossless
import Packrat.Proofs.Text.Edit

/-!
# What survives an edit

The results that are carried over an edit are those of the old text whose look at the text was
carried over, kept as they are or moved. They fit the new text as they fitted the old one.
-/

namespace Packrat

namespace Edit

variable {edit : Edit} {old : Results} {key : MemoKey} {entry : Entry}

/-- What becomes of a result, in its place in a table. -/
def carried (edit : Edit) (r : MemoKey × Entry) : Option (MemoKey × Entry) :=
  edit.carry? r.1 r.2

/-- The results of a list that still hold after the edit, put into a table one after another. -/
def carryAll (edit : Edit) (rs : List (MemoKey × Entry)) : Results :=
  rs.foldl (fun new r =>
    match edit.carry? r.1 r.2 with
    | some (key, entry) => new.insert key entry
    | none => new) {}

/-- All results in the listing of a table are carried over with the table. -/
theorem carryAll_toList (edit : Edit) (old : Results) :
    edit.carryAll old.toList = edit.carryOver old := by
  rw [carryOver, Std.HashMap.fold_eq_foldl_toList]
  rfl

/-- Results can be carried over one by one or moved first and entered together. -/
theorem insertMany_equiv_carryAll (edit : Edit) (rs : List (MemoKey × Entry)) :
    ((∅ : Results).insertMany (rs.filterMap edit.carried)).Equiv (edit.carryAll rs) := by
  have hfold : edit.carryAll rs =
      (rs.filterMap edit.carried).foldl (fun new r => new.insert r.1 r.2) ∅ := by
    rw [carryAll, List.foldl_filterMap]
    congr
    funext new r
    rw [carried]
    cases edit.carry? r.1 r.2 <;> rfl
  rw [hfold]
  exact Std.HashMap.insertMany_list_equiv_foldl

/-- The results that still hold are put into a new table one after another. -/
theorem insertMany_equiv_carryOver (edit : Edit) (old : Results) :
    ((∅ : Results).insertMany (old.toList.filterMap edit.carried)).Equiv (edit.carryOver old) := by
  rw [← carryAll_toList]
  exact insertMany_equiv_carryAll edit old.toList

/-- A table that results are put into has no others. -/
theorem mem_of_getElem?_insertMany {rs : List (MemoKey × Entry)}
    (h : ((∅ : Results).insertMany rs)[key]? = some entry) : (key, entry) ∈ rs := by
  rw [Std.HashMap.getElem?_insertMany_list, Std.HashMap.getElem?_empty, Option.or_none,
    List.findSomeRev?_eq_findSome?_reverse] at h
  obtain ⟨⟨key', entry'⟩, hmem, hkey⟩ := List.exists_of_findSome?_eq_some h
  rw [List.mem_reverse] at hmem
  simp only [beq_iff_eq, Option.ite_none_right_eq_some, Option.some.injEq] at hkey
  obtain ⟨rfl, rfl⟩ := hkey
  exact hmem

/-- A result that still holds after an edit became of one that held before. -/
theorem of_getElem?_carryOver (h : (edit.carryOver old)[key]? = some entry) :
    ∃ key₀ entry₀, old[key₀]? = some entry₀ ∧ edit.carry? key₀ entry₀ = some (key, entry) := by
  rw [← (insertMany_equiv_carryOver edit old).getElem?_eq] at h
  obtain ⟨⟨key₀, entry₀⟩, hold, hcarry⟩ :=
    List.mem_filterMap.mp (mem_of_getElem?_insertMany h)
  exact ⟨key₀, entry₀, Std.HashMap.mem_toList_iff_getElem?_eq_some.mp hold, hcarry⟩

/-- What becomes of a result is carried over. -/
theorem mem_carryOver {key₀ : MemoKey} {entry₀ : Entry} (h : old[key₀]? = some entry₀)
    (hcarry : edit.carry? key₀ entry₀ = some (key, entry)) : key ∈ edit.carryOver old := by
  have hmem : (key, entry) ∈ old.toList.filterMap edit.carried :=
    List.mem_filterMap.mpr
      ⟨(key₀, entry₀), Std.HashMap.mem_toList_iff_getElem?_eq_some.mpr h, hcarry⟩
  rw [← (insertMany_equiv_carryOver edit old).mem_iff, Std.HashMap.mem_insertMany_list]
  exact .inr (List.contains_iff_mem.mpr (List.mem_map_of_mem hmem))

/-- A result is carried over where what it looked at is. -/
theorem carry?_eq_some {key₀ : MemoKey} {entry₀ : Entry}
    (h : edit.carry? key₀ entry₀ = some (key, entry)) :
    (entry₀.reach ≤ edit.start ∧ key = key₀ ∧ entry = entry₀) ∨
      (edit.start + edit.removed < key₀.2 ∧ key = (key₀.1, edit.move key₀.2) ∧
        entry = entry₀.moved edit) := by
  unfold carry? at h
  split at h
  · rename_i hreach
    simp only [Option.some.injEq, Prod.mk.injEq] at h
    exact .inl ⟨hreach, h.1.symm, h.2.symm⟩
  · split at h
    · rename_i hbehind
      simp only [Option.some.injEq, Prod.mk.injEq] at h
      exact .inr ⟨hbehind, h.1.symm, h.2.symm⟩
    · cases h

end Edit

section

variable {edit : Edit} {old : Text} {new : String}

/-- A result whose look ends before the edit fits the new text where it is. -/
theorem Entry.FitsStrict.kept {entry : Entry} {p : Nat} (h : entry.FitsStrict old p)
    (happly : edit.apply old = .ok new) (hsize : old.size < maxOffset)
    (hreach : entry.reach ≤ edit.start) : entry.FitsStrict (.ofString new) p := by
  have hlooks := (Edit.carries_before happly hsize).looksLike
  have hp := h.reach
  refine ⟨⟨h.reach, h.far, fun t ht => ?_⟩, ?_, h.within⟩
  · have hstop := (h.within t ht).1
    exact Tree.TilesAll.carry hlooks (Nat.zero_le _) (by omega) _ (h.tiles t ht)
  · exact hlooks.isBoundary (Nat.zero_le _) (by omega) h.boundary

/-- A result that begins behind the edit fits the new text where it is moved to. -/
theorem Entry.FitsStrict.moved {entry : Entry} {p : Nat} (h : entry.FitsStrict old p)
    (happly : edit.apply old = .ok new) (hsize : old.size < maxOffset)
    (hp : edit.start + edit.removed < p) :
    (entry.moved edit).FitsStrict (.ofString new) (edit.move p) := by
  have hlooks := (Edit.carries_behind happly hsize entry.reach).looksLike
  have hreach := h.reach
  refine ⟨⟨hlooks.move_le_move hp hreach, fun f hf => ?_, fun t ht => ?_⟩,
    hlooks.isBoundary hp hreach h.boundary, fun t ht => ?_⟩
  · obtain ⟨f₀, hf₀, rfl⟩ := Option.map_eq_some_iff.mp hf
    obtain ⟨hle, hlt⟩ := h.far f₀ hf₀
    have hmove := hlooks.move_eq (by omega) (Nat.le_of_lt hlt)
    exact ⟨hlooks.move_le_move hp hle, by simp only [Entry.moved]; omega⟩
  · obtain ⟨t₀, ht₀, rfl⟩ := Option.map_eq_some_iff.mp ht
    exact Tree.TilesAll.carry hlooks hp (h.within t₀ ht₀).1 _ (h.tiles t₀ ht₀)
  · obtain ⟨t₀, ht₀, rfl⟩ := Option.map_eq_some_iff.mp ht
    obtain ⟨hstop, herrors⟩ := h.within t₀ ht₀
    have hle := Tree.TilesAll.le _ (h.tiles t₀ ht₀)
    exact ⟨hlooks.move_le_move (by omega) hstop, by simp [herrors]⟩

/-- Results that are carried over an edit fit the new text. -/
theorem Results.Fit.carryOver {results : Results} (h : Results.Fit old results)
    (happly : edit.apply old = .ok new) (hsize : old.size < maxOffset) :
    Results.Fit (.ofString new) (edit.carryOver results) := by
  intro key entry hentry
  obtain ⟨key₀, entry₀, hold, hcarry⟩ := Edit.of_getElem?_carryOver hentry
  have hfits := h key₀ entry₀ hold
  rcases Edit.carry?_eq_some hcarry with ⟨hreach, rfl, rfl⟩ | ⟨hp, rfl, rfl⟩
  · exact hfits.kept happly hsize hreach
  · exact hfits.moved happly hsize hp

end

/-- Parsing again comes to a result as soon as the edit applies. -/
theorem Program.reparse_eq_ok {p : Program} {o : ParseOptions} {old r : Parsed} {edit : Edit} :
    p.reparse o old edit = .ok r ↔ ∃ text, edit.apply (Text.ofString old.text) = .ok text ∧
      r = p.parseWith o (if old.fingerprint = p.fingerprint then edit.carryOver old.results else {})
        false (Text.ofString text) := by
  unfold reparse
  cases happly : edit.apply (Text.ofString old.text) with
  | error e => simp [bind, Except.bind]
  | ok text =>
    simp only [bind, Except.bind, pure, Except.pure, Except.ok.injEq, exists_eq_left']
    exact eq_comm

end Packrat
