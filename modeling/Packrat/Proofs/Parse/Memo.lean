import Packrat.Proofs.Parse.Notes
import Packrat.Proofs.Parse.State

/-!
# What a memo holds

The kept result that a rule finds, and what is held after keeping one more.
-/

namespace Packrat

namespace Memo

variable {m : Memo} {key key' : MemoKey} {entry : Entry}

/-- A result that error points had a part in does not go to the strict ones. -/
theorem insert_strict (recovering : Bool) :
    (m.insert recovering key entry).strict =
      if recovering then m.strict else m.strict.insert key entry := by
  cases recovering <;> rfl

/-- A strict result does not go to those that error points had a part in. -/
theorem insert_recovering (recovering : Bool) :
    (m.insert recovering key entry).recovering =
      if recovering then m.recovering.insert key entry else m.recovering := by
  cases recovering <;> rfl

/-- Strict results outlive a round. -/
@[simp] theorem settle_strict (m : Memo) : m.settle.strict = m.strict := rfl

/-- Results that error points had a part in do not outlive a round. -/
@[simp] theorem settle_recovering (m : Memo) : m.settle.recovering = {} := rfl

end Memo

/-- A kept result is one of those that error points had a part in, or a strict one for a quiet
stretch. -/
theorem of_known? {c : Setting} {rule p : Nat} {s : State} {entry : Entry} {recovering : Bool}
    (h : known? c rule p s = some (entry, recovering)) :
    c.memoize = true ∧
      (recovering = true ∧ c.recovering = true ∧ s.memo.recovering[(rule, p)]? = some entry ∨
        recovering = false ∧ s.memo.strict[(rule, p)]? = some entry ∧ c.Quiet p entry.reach ∧
          (c.recovering = true → s.memo.recovering[(rule, p)]? = none)) := by
  unfold known? at h
  split at h
  · rename_i hmemo
    refine ⟨hmemo, ?_⟩
    unfold Memo.find? at h
    split at h
    · rename_i hrec
      split at h
      · rename_i e he
        simp only [Option.some.injEq, Prod.mk.injEq] at h
        exact .inl ⟨h.2.symm, hrec, by rw [he, h.1]⟩
      · rename_i hnone
        obtain ⟨e, he, hpair⟩ := Option.map_eq_some_iff.mp h
        simp only [Prod.mk.injEq] at hpair
        obtain ⟨rfl, rfl⟩ := hpair
        obtain ⟨hstrict, hclear⟩ := Option.filter_eq_some_iff.mp he
        exact .inr ⟨rfl, hstrict, fun _ => by simpa using hclear, fun _ => hnone⟩
    · rename_i hrec
      obtain ⟨e, he, hpair⟩ := Option.map_eq_some_iff.mp h
      simp only [Prod.mk.injEq] at hpair
      obtain ⟨rfl, rfl⟩ := hpair
      exact .inr ⟨rfl, he, fun h => absurd h hrec, fun h => absurd h hrec⟩
  · simp at h

/-- A result that an error point had a part in is found first in a recovering round. -/
theorem known?_of_recovering {c : Setting} {rule p : Nat} {s : State} {entry : Entry}
    (hmemo : c.memoize = true) (hrec : c.recovering = true)
    (h : s.memo.recovering[(rule, p)]? = some entry) :
    known? c rule p s = some (entry, true) := by
  simp [known?, hmemo, Memo.find?, hrec, h]

/-- A strict result for a quiet stretch is found unless there is one that an error point had a
part in. -/
theorem known?_of_strict {c : Setting} {rule p : Nat} {s : State} {entry : Entry}
    (hmemo : c.memoize = true) (h : s.memo.strict[(rule, p)]? = some entry)
    (hquiet : c.Quiet p entry.reach)
    (hnone : c.recovering = true → s.memo.recovering[(rule, p)]? = none) :
    known? c rule p s = some (entry, false) := by
  cases hrec : c.recovering with
  | true => simp [known?, hmemo, Memo.find?, Memo.findClear?, hrec, h, hnone hrec, hquiet hrec]
  | false => simp [known?, hmemo, Memo.find?, hrec, h]

/-- A result that is kept among those that error points had a part in saw one. -/
theorem getElem?_keep_recovering {c : Setting} {rule p : Nat} {entry e : Entry} {s : State}
    {key : MemoKey} (h : (keep c rule p entry s).memo.recovering[key]? = some e) :
    s.memo.recovering[key]? = some e ∨
      key = (rule, p) ∧ e = entry ∧ c.recovering = true ∧
        anyBetween c.points p entry.reach = true := by
  rw [keep_memo] at h
  split at h
  · rw [Memo.insert_recovering] at h
    split at h
    · rename_i hclear
      rw [Std.HashMap.getElem?_insert] at h
      split at h
      · rename_i hkey
        exact .inr ⟨(eq_of_beq hkey).symm, (Option.some.inj h).symm, Bool.and_eq_true_iff.mp hclear⟩
      · exact .inl h
    · exact .inl h
  · exact .inl h

/-- A result that is kept as a strict one saw no error point that could have had a part in it. -/
theorem getElem?_keep_strict {c : Setting} {rule p : Nat} {entry e : Entry} {s : State}
    {key : MemoKey} (h : (keep c rule p entry s).memo.strict[key]? = some e) :
    s.memo.strict[key]? = some e ∨
      key = (rule, p) ∧ e = entry ∧ c.Quiet p entry.reach ∧ c.memoize = true ∧
        s.halted = none := by
  rw [keep_memo] at h
  split at h
  · rename_i hkeep
    rw [Memo.insert_strict] at h
    split at h
    · exact .inl h
    · rename_i hclear
      rw [Std.HashMap.getElem?_insert] at h
      split at h
      · rename_i hkey
        refine .inr ⟨(eq_of_beq hkey).symm, (Option.some.inj h).symm, fun hrec => ?_, hkeep⟩
        simpa [hrec] using hclear
      · exact .inl h
  · exact .inl h

/-- Keeping a result loses none. -/
theorem mem_keep_strict {c : Setting} {rule p : Nat} {entry : Entry} {s : State} {key : MemoKey}
    (h : key ∈ s.memo.strict) : key ∈ (keep c rule p entry s).memo.strict := by
  rw [keep_memo]
  split
  · rw [Memo.insert_strict]
    split
    · exact h
    · exact Std.HashMap.mem_insert.mpr (.inr h)
  · exact h

/-- A result that saw no error point that could have had a part in it is kept as a strict one. -/
theorem mem_keep_self {c : Setting} {rule p : Nat} {entry : Entry} {s : State}
    (hlive : s.halted = none) (hmemo : c.memoize = true) (hquiet : c.Quiet p entry.reach) :
    (rule, p) ∈ (keep c rule p entry s).memo.strict := by
  rw [keep_memo, if_pos ⟨hmemo, hlive⟩, Memo.insert_strict, hquiet.and_eq_false]
  simp

/-- The strict results after keeping one are those from before and perhaps this one. -/
theorem of_mem_keep_strict {c : Setting} {rule p : Nat} {entry : Entry} {s : State} {key : MemoKey}
    (h : key ∈ (keep c rule p entry s).memo.strict) : key ∈ s.memo.strict ∨ key = (rule, p) := by
  rw [Std.HashMap.mem_iff_isSome_getElem?, Option.isSome_iff_exists] at h
  obtain ⟨e, he⟩ := h
  rcases getElem?_keep_strict he with hold | ⟨hkey, -⟩
  · exact .inl (Std.HashMap.mem_iff_isSome_getElem?.mpr (Option.isSome_iff_exists.mpr ⟨e, hold⟩))
  · exact .inr hkey

/-- A result that saw no error point that could have had a part in it is kept apart from those
that did. -/
theorem keep_recovering {c : Setting} {rule p : Nat} {entry : Entry} {s : State}
    (hquiet : c.Quiet p entry.reach) :
    (keep c rule p entry s).memo.recovering = s.memo.recovering := by
  rw [keep_memo, hquiet.and_eq_false]
  split <;> rfl

/-- Strict results that were kept stay so. -/
theorem Run.mem_strict {c : Setting} {d : Nat} {job : Job} {p : Nat} {s s' : State}
    {out : Outcome} (h : Run c d job p s out s') {key : MemoKey} (hkey : key ∈ s.memo.strict) :
    key ∈ s'.memo.strict := by
  induction h with
  | refused tick => rwa [(State.of_tick_false tick).2]
  | tooDeep tick => rwa [State.stop_memo, (State.of_tick_true tick).2.2.1]
  | ticked tick _ ih => exact ih (by rwa [(State.of_tick_true tick).2.2.1])
  | token =>
    obtain ⟨e, he⟩ := runToken_state _ _ _ _ _ _
    rwa [he]
  | cancelled ask => rwa [(State.of_ask_false ask).2]
  | hit ask => rwa [State.record_memo, (State.of_ask_true ask).2.2.1]
  | body ask _ _ ih =>
    exact mem_keep_strict (ih (by rwa [State.record_memo, (State.of_ask_true ask).2.2.1]))
  | lookRefused tick => rwa [(State.of_tick_false tick).2]
  | lookFound tick _ ih => exact ih (by rwa [(State.of_tick_true tick).2.2.1])
  | lookStopped tick _ _ ih => exact ih (by rwa [(State.of_tick_true tick).2.2.1])
  | lookPassed tick _ _ ih => exact ih (by rwa [(State.of_tick_true tick).2.2.1])
  | _ => simp_all

end Packrat
