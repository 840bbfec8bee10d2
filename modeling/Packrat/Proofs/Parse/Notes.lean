import Packrat.Parse.State

/-!
# Joined notes

The furthest of two failures stands where one of them does. A stretch of the text without error
points is quiet: no failure inside it is recovered from.
-/

namespace Packrat

/-- The furthest failure stands where one of the two failures stands. -/
theorem furthest_position {a b : Option Failure} {f : Failure} (h : furthest a b = some f) :
    (∃ g, a = some g ∧ f.position = g.position) ∨ (∃ g, b = some g ∧ f.position = g.position) := by
  cases a with
  | none => exact .inr ⟨f, h, rfl⟩
  | some g =>
    cases b with
    | none =>
      have hfg : g = f := by simpa [furthest] using h
      exact .inl ⟨g, rfl, by rw [hfg]⟩
    | some k =>
      simp only [furthest, Failure.join, Option.some.injEq] at h
      split at h
      · exact .inl ⟨g, rfl, by rw [h]⟩
      · split at h
        · exact .inr ⟨k, rfl, by rw [h]⟩
        · exact .inl ⟨g, rfl, by rw [← h]⟩

/-- Next to no failure, a failure is the furthest. -/
@[simp] theorem furthest_none (a : Option Failure) : furthest a none = a := by
  cases a <;> rfl

/-- Of two stretches, the furthest failure of both is noted. -/
@[simp] theorem Notes.join_far (a b : Notes) : (a.join b).far = furthest a.far b.far := rfl

/-- Two stretches have looked as far as the one that looked further. -/
@[simp] theorem Notes.join_reach (a b : Notes) : (a.join b).reach = max a.reach b.reach := rfl

/-- The frontier of two stretches is the further one. -/
@[simp] theorem Notes.join_frontier (a b : Notes) :
    (a.join b).frontier = greater a.frontier b.frontier := rfl

/-- Having looked at text is no failure. -/
@[simp] theorem Notes.seen_far (reach : Nat) : (Notes.seen reach).far = none := rfl

/-- What has been looked at is noted as it is. -/
@[simp] theorem Notes.seen_reach (reach : Nat) : (Notes.seen reach).reach = reach := rfl

/-- Having looked at text moves no frontier. -/
@[simp] theorem Notes.seen_frontier (reach : Nat) : (Notes.seen reach).frontier = none := rfl

namespace Setting

/-- Whether no error point can have a part in what looks at a stretch of the text. -/
def Quiet (c : Setting) (start stop : Nat) : Prop :=
  c.recovering = true → anyBetween c.points start stop = false

/-- There is no point in a stretch when each that is not before its start is not before its end. -/
theorem anyBetween_eq_false {points : List Nat} {start stop : Nat} :
    anyBetween points start stop = false ↔ ∀ p ∈ points, start ≤ p → ¬ p < stop := by
  simp [anyBetween]

/-- A stretch without points has none in any part of it. -/
theorem anyBetween_mono {points : List Nat} {start stop start' stop' : Nat}
    (h : anyBetween points start stop = false) (hstart : start ≤ start') (hstop : stop' ≤ stop) :
    anyBetween points start' stop' = false := by
  rw [anyBetween_eq_false] at h ⊢
  intro p hp hle
  have := h p hp (by omega)
  omega

/-- Part of a quiet stretch is quiet. -/
theorem Quiet.mono {c : Setting} {start stop start' stop' : Nat} (h : c.Quiet start stop)
    (hstart : start ≤ start') (hstop : stop' ≤ stop) : c.Quiet start' stop' :=
  fun hrec => anyBetween_mono (h hrec) hstart hstop

/-- In a quiet stretch the parse has no reason to set a result aside. -/
theorem Quiet.and_eq_false {c : Setting} {start stop : Nat} (h : c.Quiet start stop) :
    (c.recovering && anyBetween c.points start stop) = false := by
  cases hrec : c.recovering with
  | true => simpa using h hrec
  | false => rfl

/-- Without recovery, every stretch is quiet. -/
theorem quiet_of_strict {c : Setting} {start stop : Nat} (h : c.recovering = false) :
    c.Quiet start stop := by
  simp [Quiet, h]

/-- With recovery switched off, every stretch is quiet. -/
@[simp] theorem quiet_strict (c : Setting) (start stop : Nat) : c.strict.Quiet start stop :=
  quiet_of_strict rfl

/-- A failure from which to recover is the furthest one and stands at an error point. -/
theorem of_recoverable? {c : Setting} {notes : Notes} {f : Failure}
    (h : c.recoverable? notes = some f) :
    c.recovering = true ∧ notes.far = some f ∧ f.position ∈ c.points := by
  unfold recoverable? at h
  split at h
  · rename_i hrec
    obtain ⟨hfar, hpoint⟩ := Option.filter_eq_some_iff.mp h
    exact ⟨hrec, hfar, by simpa [isPoint] using hpoint⟩
  · simp at h

/-- Nothing is recovered from without recovery. -/
theorem recoverable?_ne_some {c : Setting} {notes : Notes} {f : Failure}
    (hstrict : c.recovering = false) : c.recoverable? notes ≠ some f := by
  intro h
  rw [(of_recoverable? h).1] at hstrict
  cases hstrict

/-- Nothing is recovered from in a quiet stretch. -/
theorem not_quiet_of_recoverable? {c : Setting} {notes : Notes} {f : Failure} {start stop : Nat}
    (h : c.recoverable? notes = some f) (hstart : start ≤ f.position) (hstop : f.position < stop) :
    ¬ c.Quiet start stop := by
  obtain ⟨hrec, _, hpoint⟩ := of_recoverable? h
  intro hquiet
  exact anyBetween_eq_false.mp (hquiet hrec) _ hpoint hstart hstop

end Setting

end Packrat

/-!
## Notes are joined in any grouping

`addNew` puts each new item behind the known ones once, so joining failures at one place, the
furthest of several failures and the notes of several parts do not depend on how the parts are
grouped. What is noted piece by piece is what is noted of the parts as a whole.
-/

namespace Packrat

section

variable {α : Type} [BEq α]

/-- Adding nothing leaves what is known. -/
@[simp] theorem addNew_nil (known : List α) : addNew known [] = known := rfl

/-- Things are added one after the other, each unless it is known. -/
theorem addNew_cons (known more : List α) (a : α) :
    addNew known (a :: more) = addNew (addNew known [a]) more := rfl

/-- Adding two lists is adding the second after the first. -/
theorem addNew_append (known as bs : List α) :
    addNew known (as ++ bs) = addNew (addNew known as) bs := List.foldl_append

variable [LawfulBEq α]

/-- One item is put behind the known ones if it is not there yet. -/
theorem addNew_singleton [DecidableEq α] (known : List α) (a : α) :
    addNew known [a] = if a ∈ known then known else known ++ [a] := by
  by_cases ha : a ∈ known <;> simp [addNew, ha]

/-- What is known after an addition was known before or was added. -/
theorem mem_addNew [DecidableEq α] {known more : List α} {a : α} :
    a ∈ addNew known more ↔ a ∈ known ∨ a ∈ more := by
  induction more generalizing known with
  | nil => simp
  | cons b more ih =>
    have hone : a ∈ addNew known [b] ↔ a ∈ known ∨ a = b := by
      rw [addNew_singleton]
      by_cases hb : b ∈ known
      · rw [if_pos hb]
        exact ⟨.inl, fun h => h.elim id fun hab => hab ▸ hb⟩
      · rw [if_neg hb, List.mem_append, List.mem_singleton]
    rw [addNew_cons, ih, hone, List.mem_cons, or_assoc]

/-- It does not matter whether what is to be added is gathered first. -/
theorem addNew_assoc [DecidableEq α] (as bs cs : List α) :
    addNew (addNew as bs) cs = addNew as (addNew bs cs) := by
  induction cs generalizing bs with
  | nil => rfl
  | cons c cs ih =>
    have hone : addNew (addNew as bs) [c] = addNew as (addNew bs [c]) := by
      rw [addNew_singleton bs]
      by_cases hc : c ∈ bs
      · rw [if_pos hc, addNew_singleton, if_pos (mem_addNew.mpr (.inr hc))]
      · rw [if_neg hc, addNew_append]
    rw [addNew_cons, hone, ih, ← addNew_cons]

end

namespace Failure

variable {a b : Failure}

/-- Of two failures, the later one alone remains. -/
theorem join_of_lt (h : a.position < b.position) : a.join b = b := by
  rw [join, if_neg (Nat.lt_asymm h), if_pos h]

/-- An earlier failure adds nothing to a later one. -/
theorem join_of_gt (h : b.position < a.position) : a.join b = a := by
  rw [join, if_pos h]

/-- Failures at the same place expect what either expects, in the order in which it was first
expected. -/
theorem join_of_eq (h : a.position = b.position) :
    a.join b = ⟨a.position, addNew a.expected b.expected⟩ := by
  rw [join, if_neg (by omega), if_neg (by omega)]

/-- Of three failures it does not matter which two are joined first. -/
theorem join_assoc (a b c : Failure) : (a.join b).join c = a.join (b.join c) := by
  rcases Nat.lt_trichotomy a.position b.position with hab | hab | hab
  · -- the first failure is passed over in either grouping
    have hle : b.position ≤ (b.join c).position := by
      unfold join
      split
      · exact Nat.le_refl _
      · split
        · omega
        · exact Nat.le_refl _
    rw [join_of_lt hab, join_of_lt (Nat.lt_of_lt_of_le hab hle)]
  · rcases Nat.lt_trichotomy b.position c.position with hbc | hbc | hbc
    · rw [join_of_eq hab, join_of_lt hbc, join_of_lt (hab ▸ hbc), join_of_lt (hab ▸ hbc)]
    · rw [join_of_eq hab, join_of_eq hbc,
        join_of_eq (a := ⟨a.position, addNew a.expected b.expected⟩) (hab.trans hbc),
        join_of_eq (b := ⟨b.position, addNew b.expected c.expected⟩) hab, addNew_assoc]
    · rw [join_of_eq hab, join_of_gt hbc, join_of_eq hab, join_of_gt (hab ▸ hbc)]
  · rcases Nat.lt_trichotomy b.position c.position with hbc | hbc | hbc
    · rw [join_of_gt hab, join_of_lt hbc]
    · rw [join_of_gt hab, join_of_eq hbc, join_of_gt (hbc ▸ hab),
        join_of_gt (b := ⟨b.position, addNew b.expected c.expected⟩) hab]
    · rw [join_of_gt hab, join_of_gt hbc, join_of_gt hab, join_of_gt (Nat.lt_trans hbc hab)]

end Failure

/-- No failure adds nothing to a failure that comes after. -/
@[simp] theorem none_furthest (a : Option Failure) : furthest none a = a := rfl

/-- No position adds nothing to a position that comes after. -/
@[simp] theorem none_greater (a : Option Nat) : greater none a = a := rfl

/-- No position adds nothing to a position that came before. -/
@[simp] theorem greater_none (a : Option Nat) : greater a none = a := by
  cases a <;> rfl

/-- Where there may be no failure, it still does not matter which two are joined first. -/
theorem furthest_assoc (a b c : Option Failure) :
    furthest (furthest a b) c = furthest a (furthest b c) := by
  cases a with
  | none => rfl
  | some a =>
    cases b with
    | none => rfl
    | some b =>
      cases c with
      | none => rfl
      | some c => exact congrArg some (Failure.join_assoc a b c)

/-- Of three positions, each of which may be missing, it does not matter which two are compared
first. -/
theorem greater_assoc (a b c : Option Nat) : greater (greater a b) c = greater a (greater b c) := by
  cases a with
  | none => rfl
  | some a =>
    cases b with
    | none => rfl
    | some b =>
      cases c with
      | none => rfl
      | some c => exact congrArg some (Nat.max_assoc a b c)

/-- Notes of consecutive stretches can be joined in any grouping. -/
theorem Notes.join_assoc (a b c : Notes) : (a.join b).join c = a.join (b.join c) := by
  simp only [join, furthest_assoc, greater_assoc, Nat.max_assoc]

/-- A stretch in which nothing is noted adds nothing. -/
@[simp] theorem Notes.join_empty (a : Notes) : a.join {} = a := by
  simp [join]

end Packrat
