import Packrat.Proofs.Guarded.Basic
import Packrat.Proofs.Text.Edit

/-!
# Edits are exact and can be undone

An edit applies exactly where the stretch that it removes lies within the text and splits no
character. The new text then has the inserted bytes in the place of the removed ones, and the edit
that puts these back gives the old text again. Of several reasons against an edit the bounds come
first, and the start comes before the end. Offsets of 64 bits are enough for all of this, even where
the numbers of an edit have a sum that is none.
-/

/-!
## Arithmetic on offsets

Offsets are numbers of 64 bits, and the difference of two sizes is such a number with a sign. What
lies in memory is smaller than the numbers without a sign could tell.
-/

namespace Packrat

/-- The greatest size of what lies in memory. -/
def maxSize : Nat := 2 ^ 63 - 1

namespace Guarded

/-- The sum of two offsets. -/
def add (a b : Nat) : Guarded Nat := if a + b ≤ maxOffset then .ok (a + b) else .error .overflow

/-- The difference of two offsets. -/
def sub (a b : Nat) : Guarded Nat := if b ≤ a then .ok (a - b) else .error .overflow

/-- The difference of two sizes, which may be negative. -/
def difference (a b : Nat) : Guarded Int :=
  if a ≤ maxSize ∧ b ≤ maxSize then .ok (a - b) else .error .overflow

/-- The text between two offsets. -/
def slice (text : Text) (start stop : Nat) : Guarded String :=
  if text.isBoundary start ∧ text.isBoundary stop ∧ start ≤ stop then .ok (text.slice start stop)
  else .error .outOfRange

/-- The text after an edit, put together in as much room as it takes. Whether there is that much is
not asked here. -/
def apply (e : Edit) (text : Text) : Failing EditError String :=
  match e.problem? text with
  | some problem => throw problem
  | none => do
    let kept ← sub text.size e.removed
    let _room ← add kept e.insertedSize
    let before ← slice text 0 e.start
    let behind ← slice text e.removedEnd text.size
    return before ++ e.inserted ++ behind

/-- The end of what an edit removes, and how far it moves what stands behind. -/
def displacement (e : Edit) : Guarded (Nat × Int) := do
  return (← add e.start e.removed, ← difference e.insertedSize e.removed)

/-- Offsets whose sum is an offset are added without overflow. -/
theorem add_eq {a b : Nat} (h : a + b ≤ maxOffset) : add a b = .ok (a + b) := if_pos h

/-- An offset is taken from one that is no smaller without overflow. -/
theorem sub_eq {a b : Nat} (h : b ≤ a) : sub a b = .ok (a - b) := if_pos h

/-- The difference of two sizes fits where sizes do. -/
theorem difference_eq {a b : Nat} (ha : a ≤ maxSize) (hb : b ≤ maxSize) :
    difference a b = .ok (a - b) := if_pos ⟨ha, hb⟩

/-- The text between two boundaries in order can be cut out. -/
theorem slice_eq {text : Text} {start stop : Nat} (hstart : text.isBoundary start = true)
    (hstop : text.isBoundary stop = true) (hle : start ≤ stop) :
    slice text start stop = .ok (text.slice start stop) := if_pos ⟨hstart, hstop, hle⟩

end Guarded

end Packrat

/-! ## Places in strings -/

namespace Packrat

namespace Text

variable {s : String} {p : Nat}

/-- A text that is put together of two splits where the first of them ends. -/
theorem splits_append (a b : String) :
    (ofString (a ++ b)).Splits a.utf8ByteSize a.toList b.toList :=
  ⟨String.toList_append, utf8Length_toList a⟩

/-- The boundaries of a text are the valid positions of its string. -/
theorem isBoundary_ofString : (ofString s).isBoundary p = true ↔ String.Pos.Raw.IsValid s ⟨p⟩ := by
  rw [isBoundary_iff, String.Pos.Raw.isValid_iff_exists_append]
  constructor
  · rintro ⟨xs, ys, hchars, hsize⟩
    refine ⟨.ofList xs, .ofList ys, ?_, ?_⟩
    · rw [← String.ofList_append, ← hchars]
      exact String.ofList_toList.symm
    · rw [← hsize, ← String.toList_ofList (l := xs), utf8Length_toList, String.toList_ofList]
      rfl
  · rintro ⟨a, b, rfl, hp⟩
    obtain rfl : p = a.utf8ByteSize := congrArg (·.byteIdx) hp
    exact ⟨_, _, splits_append a b⟩

/-- What stands between two other texts is cut out by the offsets of its ends. -/
theorem slice_append (a b c : String) :
    (ofString (a ++ b ++ c)).slice a.utf8ByteSize (a ++ b).utf8ByteSize = b := by
  have hsplit : (ofString (a ++ b ++ c)).Splits a.utf8ByteSize a.toList (b.toList ++ c.toList) := by
    have hsplit := splits_append a (b ++ c)
    rwa [← String.append_assoc, String.toList_append] at hsplit
  rw [String.utf8ByteSize_append, ← utf8Length_toList b, hsplit.slice, String.ofList_toList]

end Text

namespace Edit

variable {e : Edit} {s new a b c : String} {problem : EditError}

/-- Whether what an edit removes lies within a text and splits no character. -/
structure Fits (e : Edit) (s : String) : Prop where
  within : e.start + e.removed ≤ s.utf8ByteSize
  start : String.Pos.Raw.IsValid s ⟨e.start⟩
  stop : String.Pos.Raw.IsValid s ⟨e.start + e.removed⟩

/-- Why an edit is refused. -/
inductive Refused (e : Edit) (s : String) : EditError → Prop
  | bounds : s.utf8ByteSize < e.start + e.removed →
      Refused e s (.outOfBounds e.start (min (e.start + e.removed) maxOffset) s.utf8ByteSize)
  | start : e.start + e.removed ≤ s.utf8ByteSize → ¬ String.Pos.Raw.IsValid s ⟨e.start⟩ →
      Refused e s (.notBoundary e.start)
  | stop : e.start + e.removed ≤ s.utf8ByteSize → String.Pos.Raw.IsValid s ⟨e.start⟩ →
      ¬ String.Pos.Raw.IsValid s ⟨e.start + e.removed⟩ →
      Refused e s (.notBoundary (e.start + e.removed))

/-- The edit that takes an edit of a text back. -/
def inverse (e : Edit) (text : Text) : Edit :=
  ⟨e.start, e.insertedSize, text.slice e.start e.removedEnd⟩

/-- The bytes of a text with the inserted ones in the place of the removed ones. -/
def splice (e : Edit) (s : String) : ByteArray :=
  s.toByteArray.extract 0 e.start ++ e.inserted.toByteArray ++
    s.toByteArray.extract (e.start + e.removed) s.utf8ByteSize

/-- A sum that is behind a text is told to be so, even if it is no offset itself. -/
theorem lt_removedEnd {n : Nat} (hn : n < maxOffset) (h : n < e.start + e.removed) :
    n < e.removedEnd := Nat.lt_min.mpr ⟨h, hn⟩

/-- What is removed from within a text does not end behind it. -/
theorem not_lt_removedEnd {n : Nat} (h : e.start + e.removed ≤ n) : ¬ n < e.removedEnd :=
  Nat.not_lt.mpr (Nat.le_trans (Nat.min_le_left _ _) h)

/-- The end of what is removed is the sum of its start and its length, where this is an offset. -/
theorem removedEnd_eq (h : e.start + e.removed ≤ maxOffset) :
    e.removedEnd = e.start + e.removed := Nat.min_eq_left h

/-- An edit fits a text, or there is a reason to refuse it. -/
theorem fits_or_refused (e : Edit) (s : String) : e.Fits s ∨ ∃ problem, e.Refused s problem := by
  rcases Nat.lt_or_ge s.utf8ByteSize (e.start + e.removed) with hbounds | hwithin
  · exact .inr ⟨_, .bounds hbounds⟩
  by_cases hstart : String.Pos.Raw.IsValid s ⟨e.start⟩
  · by_cases hstop : String.Pos.Raw.IsValid s ⟨e.start + e.removed⟩
    · exact .inl ⟨hwithin, hstart, hstop⟩
    · exact .inr ⟨_, .stop hwithin hstart hstop⟩
  · exact .inr ⟨_, .start hwithin hstart⟩

section

variable (hs : s.utf8ByteSize < maxOffset)

include hs

/-- The reason for which an edit is refused is the one that is told. -/
theorem Refused.problem?_eq (h : e.Refused s problem) :
    e.problem? (.ofString s) = some problem := by
  unfold problem?
  rw [Text.size_ofString]
  cases h with
  | bounds hbounds => rw [if_pos (lt_removedEnd hs hbounds), removedEnd]
  | start hwithin hstart =>
    rw [← Text.isBoundary_ofString, Bool.not_eq_true] at hstart
    rw [if_neg (not_lt_removedEnd hwithin), hstart]
    rfl
  | stop hwithin hstart hstop =>
    rw [← Text.isBoundary_ofString] at hstart
    rw [← Text.isBoundary_ofString, Bool.not_eq_true] at hstop
    rw [if_neg (not_lt_removedEnd hwithin), removedEnd_eq (by omega), hstart, hstop]
    rfl

/-- An edit that fits has no problem. -/
theorem Fits.problem?_eq (h : e.Fits s) : e.problem? (.ofString s) = none := by
  have hwithin := h.within
  have hstart := Text.isBoundary_ofString.mpr h.start
  have hstop := Text.isBoundary_ofString.mpr h.stop
  unfold problem?
  rw [Text.size_ofString, if_neg (not_lt_removedEnd hwithin), removedEnd_eq (by omega), hstart,
    hstop]
  rfl

/-- An edit fails with a problem just when it is refused for this reason. -/
theorem apply_eq_error_iff : e.apply (.ofString s) = .error problem ↔ e.Refused s problem := by
  constructor
  · intro h
    rcases fits_or_refused e s with hfits | ⟨problem', hrefused⟩
    · simp [apply, hfits.problem?_eq hs] at h
    · simp only [apply, hrefused.problem?_eq hs, Except.error.injEq] at h
      exact h ▸ hrefused
  · intro h
    rw [apply, h.problem?_eq hs]

end

/-- An edit that fits divides a text into three pieces, of which it removes the middle one. -/
theorem Fits.exists_append (h : e.Fits s) : ∃ a b c, s = a ++ b ++ c ∧ e.start = a.utf8ByteSize ∧
    e.removed = b.utf8ByteSize := by
  obtain ⟨xs, ys, hsplit⟩ := Text.isBoundary_iff.mp (Text.isBoundary_ofString.mpr h.start)
  obtain ⟨xs', zs, hsplit'⟩ := Text.isBoundary_iff.mp (Text.isBoundary_ofString.mpr h.stop)
  obtain ⟨ds, rfl, rfl, hds⟩ := hsplit.exists_between hsplit' (Nat.le_add_right _ _)
  refine ⟨.ofList xs, .ofList ds, .ofList zs, ?_, ?_, ?_⟩
  · rw [← String.ofList_append, ← String.ofList_append, ← hsplit'.1]
    exact String.ofList_toList.symm
  · rw [← utf8Length_toList, String.toList_ofList, hsplit.2]
  · rw [← utf8Length_toList, String.toList_ofList]
    omega

/-- An edit that removes the text in the middle ends where this text does. -/
theorem end_append (hstart : e.start = a.utf8ByteSize) (hremoved : e.removed = b.utf8ByteSize) :
    e.start + e.removed = (a ++ b).utf8ByteSize := by
  rw [hstart, hremoved, String.utf8ByteSize_append]

/-- An edit that removes the text in the middle fits. -/
theorem Fits.of_append (hstart : e.start = a.utf8ByteSize) (hremoved : e.removed = b.utf8ByteSize) :
    e.Fits (a ++ b ++ c) := by
  have hend := end_append hstart hremoved
  have hsize : (a ++ b ++ c).utf8ByteSize = (a ++ b).utf8ByteSize + c.utf8ByteSize :=
    String.utf8ByteSize_append
  constructor
  · omega
  · rw [← Text.isBoundary_ofString, hstart, String.append_assoc]
    exact (Text.splits_append a (b ++ c)).isBoundary
  · rw [← Text.isBoundary_ofString, hend]
    exact (Text.splits_append (a ++ b) c).isBoundary

section

variable (hs : (a ++ b ++ c).utf8ByteSize < maxOffset) (hstart : e.start = a.utf8ByteSize)
  (hremoved : e.removed = b.utf8ByteSize)

include hs hstart hremoved

/-- The end of what an edit removes from the middle is that of the text there. -/
theorem removedEnd_append : e.removedEnd = (a ++ b).utf8ByteSize := by
  have hwithin := (Fits.of_append (c := c) hstart hremoved).within
  rw [removedEnd_eq (by omega), end_append hstart hremoved]

/-- The middle piece is replaced. -/
theorem apply_append : e.apply (.ofString (a ++ b ++ c)) = .ok (a ++ e.inserted ++ c) := by
  have hfits : e.Fits (a ++ b ++ c) := .of_append hstart hremoved
  have hbefore := Text.slice_append "" a (b ++ c)
  have hbehind := Text.slice_append (a ++ b) c ""
  rw [String.empty_append, ← String.append_assoc] at hbefore
  rw [String.append_empty] at hbehind
  rw [apply, hfits.problem?_eq hs, removedEnd_append hs hstart hremoved, hstart,
    Text.size_ofString, hbehind]
  exact congrArg (fun before => Except.ok (before ++ e.inserted ++ c)) hbefore

/-- The edit that takes an edit back puts the middle piece back. -/
theorem inverse_append :
    e.inverse (.ofString (a ++ b ++ c)) = ⟨a.utf8ByteSize, e.insertedSize, b⟩ := by
  rw [inverse, removedEnd_append hs hstart hremoved, hstart, Text.slice_append]

end

/-- The bytes of the three pieces. -/
theorem bytes_of_append (a b c : String) :
    (a ++ b ++ c).toByteArray.extract 0 a.utf8ByteSize = a.toByteArray ∧
    (a ++ b ++ c).toByteArray.extract a.utf8ByteSize (a.utf8ByteSize + b.utf8ByteSize) =
      b.toByteArray ∧
    (a ++ b ++ c).toByteArray.extract (a.utf8ByteSize + b.utf8ByteSize)
      (a ++ b ++ c).utf8ByteSize = c.toByteArray := by
  simp only [← String.size_toByteArray, String.toByteArray_append, ByteArray.size_append]
  refine ⟨?_, ?_, ?_⟩
  · rw [ByteArray.append_assoc, ByteArray.extract_append_eq_left rfl]
  · rw [ByteArray.extract_append, ByteArray.extract_append_eq_right rfl rfl]
    simp
  · rw [ByteArray.extract_append_eq_right] <;> rw [ByteArray.size_append]

/-- Nothing on the way to the new text is out of range. -/
theorem apply_guarded (hs : s.utf8ByteSize ≤ maxSize) (hi : e.insertedSize ≤ maxSize) :
    Guarded.apply e (.ofString s) = Guarded.lift (e.apply (.ofString s)) := by
  have hs' : s.utf8ByteSize < maxOffset := Nat.lt_of_le_of_lt hs (by decide)
  rcases fits_or_refused e s with hfits | ⟨problem, hrefused⟩
  · have hwithin := hfits.within
    have hkept : e.removed ≤ s.utf8ByteSize := by omega
    have hroom : s.utf8ByteSize - e.removed + e.insertedSize ≤ maxOffset := by
      have hdouble : maxSize + maxSize ≤ maxOffset := by decide
      omega
    have hend : e.removedEnd = e.start + e.removed := removedEnd_eq (by omega)
    have hstart := Text.isBoundary_ofString.mpr hfits.start
    have hstop := Text.isBoundary_ofString.mpr hfits.stop
    have hbefore := Guarded.slice_eq (Text.isBoundary_zero _) hstart (Nat.zero_le _)
    have hbehind := Guarded.slice_eq hstop (Text.isBoundary_size _)
      (Text.le_size_of_isBoundary hstop)
    rw [Guarded.apply, apply, hfits.problem?_eq hs', Text.size_ofString, hend]
    rw [Text.size_ofString] at hbehind
    simp only [Guarded.sub_eq hkept, Guarded.add_eq hroom, hbefore, hbehind,
      Guarded.liftM_ok_bind]
    rfl
  · rw [Guarded.apply, apply, hrefused.problem?_eq hs']
    rfl

/-- The end of what is removed and the difference of the sizes are numbers too. -/
theorem displacement_guarded (hend : e.start + e.removed ≤ maxOffset)
    (hi : e.insertedSize ≤ maxSize) (hremoved : e.removed ≤ maxSize) :
    Guarded.displacement e = .ok (e.start + e.removed, e.insertedSize - e.removed) := by
  rw [Guarded.displacement, Guarded.add_eq hend, Guarded.difference_eq hi hremoved]
  rfl

/-- An edit that applies fits, and adds and removes as many bytes as it says. -/
theorem fits_of_apply (hs : s.utf8ByteSize < maxOffset) (h : e.apply (.ofString s) = .ok new) :
    e.Fits s ∧ new.utf8ByteSize + e.removed = s.utf8ByteSize + e.insertedSize := by
  rcases fits_or_refused e s with hfits | ⟨problem, hrefused⟩
  · refine ⟨hfits, ?_⟩
    obtain ⟨a, b, c, rfl, hstart, hremoved⟩ := hfits.exists_append
    rw [apply_append hs hstart hremoved] at h
    obtain rfl := Except.ok.inj h
    simp only [String.utf8ByteSize_append, insertedSize]
    omega
  · rw [(apply_eq_error_iff hs).mpr hrefused] at h
    cases h

/-- An edit with whatever numbers either fits a text or is refused for the first reason there is,
and no number on the way to the new text is too great or too small. If it fits, then the new text
has the bytes that it should, which are UTF-8, its inverse gives the old text again, and the end of
the removed stretch and the difference of the sizes are numbers too. -/
theorem apply_exact (hs : s.utf8ByteSize ≤ maxSize) (hi : e.insertedSize ≤ maxSize) :
    Guarded.apply e (.ofString s) = Guarded.lift (e.apply (.ofString s)) ∧
    ((∃ new, e.apply (.ofString s) = .ok new) ↔ e.Fits s) ∧
    (∀ problem, e.apply (.ofString s) = .error problem ↔ e.Refused s problem) ∧
    ∀ new, e.apply (.ofString s) = .ok new →
      new.toByteArray = e.splice s ∧ (e.splice s).IsValidUTF8 ∧
      (e.inverse (.ofString s)).inserted.toByteArray =
        s.toByteArray.extract e.start (e.start + e.removed) ∧
      (e.inverse (.ofString s)).apply (.ofString new) = .ok s ∧
      Guarded.displacement e = .ok (e.start + e.removed, e.insertedSize - e.removed) := by
  have hs' : s.utf8ByteSize < maxOffset := Nat.lt_of_le_of_lt hs (by decide)
  have happlies (hfits : e.Fits s) : ∃ new, e.apply (.ofString s) = .ok new :=
    ⟨_, by rw [apply, hfits.problem?_eq hs']⟩
  refine ⟨apply_guarded hs hi, ⟨fun ⟨new, h⟩ => (fits_of_apply hs' h).1, happlies⟩,
    fun _ => apply_eq_error_iff hs', fun new h => ?_⟩
  obtain ⟨hfits, hsize⟩ := fits_of_apply hs' h
  have hwithin := hfits.within
  obtain ⟨a, b, c, rfl, hstart, hremoved⟩ := hfits.exists_append
  obtain rfl : a ++ e.inserted ++ c = new := by
    rw [apply_append hs' hstart hremoved] at h
    exact Except.ok.inj h
  obtain ⟨hbefore, hmiddle, hbehind⟩ := bytes_of_append a b c
  have hsplice : (a ++ e.inserted ++ c).toByteArray = e.splice (a ++ b ++ c) := by
    rw [splice, hstart, hremoved, hbefore, hbehind, String.toByteArray_append,
      String.toByteArray_append]
  have hinverse := inverse_append hs' hstart hremoved
  have hback : (a ++ e.inserted ++ c).utf8ByteSize < maxOffset := by
    have hdouble : maxSize + maxSize < maxOffset := by decide
    omega
  refine ⟨hsplice, hsplice ▸ (a ++ e.inserted ++ c).isValidUTF8, ?_, ?_, ?_⟩
  · rw [hinverse, hstart, hremoved, hmiddle]
  · rw [hinverse, apply_append hback rfl rfl]
  · exact displacement_guarded (by omega) hi (by omega)

/-- A character of two bytes is replaced. Half of it is not, and neither is anything behind the
text, not even if the removed stretch would begin at the last offset. -/
theorem apply_exact_accents :
    (Edit.mk 1 2 "ñ!").apply (.ofString "aéb") = .ok "añ!b" ∧
    ((Edit.mk 1 2 "ñ!").inverse (.ofString "aéb")).apply (.ofString "añ!b") = .ok "aéb" ∧
    Guarded.displacement ⟨1, 2, "ñ!"⟩ = .ok (3, 1) ∧
    (Edit.mk 2 0 "").Refused "aéb" (.notBoundary 2) ∧
    (Edit.mk maxOffset 2 "").Refused "aéb" (.outOfBounds maxOffset maxOffset 4) := by
  have hreplaced : (Edit.mk 1 2 "ñ!").apply (.ofString "aéb") = .ok "añ!b" := rfl
  obtain ⟨-, -, -, hfits⟩ := apply_exact (e := ⟨1, 2, "ñ!"⟩) (s := "aéb") (by decide) (by decide)
  obtain ⟨-, -, -, hback, hdisplaced⟩ := hfits "añ!b" hreplaced
  refine ⟨hreplaced, hback, hdisplaced, ?_, ?_⟩
  · exact ((apply_exact (e := ⟨2, 0, ""⟩) (by decide) (by decide)).2.2.1 _).mp rfl
  · exact ((apply_exact (e := ⟨maxOffset, 2, ""⟩) (by decide) (by decide)).2.2.1 _).mp rfl

end Edit

end Packrat
