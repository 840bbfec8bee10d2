import Packrat.Proofs.Editing
import Packrat.Proofs.Parse.Reuse

/-!
# Results are carried over an edit exactly

The results that an edit cannot have changed are kept or moved, and all others are dropped. A result
that is kept ends before the edit, and one that is moved begins behind it, so no two of them meet at
one place of the new table, and the order in which they are put there does not matter. No position
is moved out of the range of offsets. What is carried over lies within the new text as it lay within
the old one.
-/

/-! ## Positions of results -/

namespace Packrat

/-- The positions that a result tells besides the end of what was looked at. -/
def Entry.positions (e : Entry) : List Nat :=
  (e.taken.toList.flatMap fun t => t.stop :: t.errors.flatMap fun x => [x.start, x.stop]) ++
    (e.far.toList.map (·.position) ++ e.frontier.toList)

/-- Whether all positions of a result lie between its own position and the end of what it looked at,
which is at most one byte behind a text of some size. -/
structure Entry.Within (e : Entry) (position size : Nat) : Prop where
  le_reach : position ≤ e.reach
  reach_le : e.reach ≤ size + 1
  positions : ∀ q ∈ e.positions, position ≤ q ∧ q ≤ e.reach

/-- Whether all positions of all results of a table do. -/
def Results.Within (r : Results) (size : Nat) : Prop :=
  ∀ (key : MemoKey) (e : Entry), r[key]? = some e → e.Within key.2 size

/-- Where nothing is kept, nothing lies outside of the text. -/
theorem Results.Within.empty {size : Nat} : (∅ : Results).Within size := by
  intro key e h
  rw [Std.HashMap.getElem?_empty] at h
  cases h

/-- Another result within the text leaves all results within it. -/
theorem Results.Within.insert {r : Results} {key : MemoKey} {e : Entry} {size : Nat}
    (h : r.Within size) (he : e.Within key.2 size) :
    Results.Within (r.insert key e) size := by
  intro key' e' h'
  rw [Std.HashMap.getElem?_insert] at h'
  split at h'
  · rename_i hkey
    obtain rfl := eq_of_beq hkey
    cases h'
    exact he
  · exact h key' e' h'

/-- Whether a list has results as a table has them: of distinct places, and each with a stretch that
ends no earlier than it begins. -/
structure Results.IsListing (rs : List (MemoKey × Entry)) : Prop where
  distinct : rs.Pairwise fun r r' => (r.1 == r'.1) = false
  le_reach : ∀ r ∈ rs, r.1.2 ≤ r.2.reach

/-- A listing in another order is one. -/
theorem Results.IsListing.perm {rs rs' : List (MemoKey × Entry)} (h : IsListing rs)
    (hperm : rs'.Perm rs) : IsListing rs' where
  distinct := (hperm.pairwise_iff fun hne => by
    rwa [beq_eq_false_iff_ne, ne_comm, ← beq_eq_false_iff_ne]).mpr h.distinct
  le_reach r hr := h.le_reach r (hperm.mem_iff.mp hr)

/-- Each result in a listing lies within the text. -/
theorem Results.Within.of_mem_toList {r : Results} {size : Nat} (h : r.Within size) :
    ∀ x ∈ r.toList, x.2.Within x.1.2 size := fun x hx =>
  h x.1 x.2 (Std.HashMap.mem_toList_iff_getElem?_eq_some.mp hx)

/-- What a table lists is a listing: every place comes once, and no stretch ends before it
begins. -/
theorem Results.Within.isListing {r : Results} {size : Nat} (h : r.Within size) :
    IsListing r.toList :=
  ⟨Std.HashMap.distinct_keys_toList, fun x hx => (h.of_mem_toList x hx).le_reach⟩

/-- The positions of a moved result are those of the result, moved. -/
theorem Entry.positions_moved (edit : Edit) (e : Entry) :
    (e.moved edit).positions = e.positions.map edit.move := by
  simp [positions, moved, SyntaxError.moved, Option.toList_map, List.map_flatMap, List.flatMap_map,
    Function.comp_def]

/-- A position of a result is an end of what it took or of an error, or that of a failure. -/
theorem Entry.mem_positions {e : Entry} {q : Nat} : q ∈ e.positions ↔
    (∃ t, e.taken = some t ∧ (q = t.stop ∨ ∃ x ∈ t.errors, q = x.start ∨ q = x.stop)) ∨
      (∃ f, e.far = some f ∧ f.position = q) ∨ e.frontier = some q := by
  simp [positions]

end Packrat

/-! ## Carrying over with signed numbers -/

namespace Packrat

namespace Guarded

/-- A position that is moved by a difference. -/
def displace (delta : Int) (p : Nat) : Guarded Nat :=
  if 0 ≤ p + delta ∧ p + delta ≤ maxOffset then .ok (p + delta).toNat else .error .overflow

/-- What was taken, moved by a difference. -/
def displaceTaken (delta : Int) (t : Taken) : Guarded Taken := do
  let stop ← displace delta t.stop
  let errors ← t.errors.mapM fun e => do
    return { e with start := ← displace delta e.start, stop := ← displace delta e.stop }
  return ⟨stop, t.trees, errors⟩

/-- A result that is moved by a difference. -/
def displaceEntry (delta : Int) (e : Entry) : Guarded Entry := do
  let taken ← e.taken.mapM (displaceTaken delta)
  let reach ← displace delta e.reach
  let far ← e.far.mapM fun f => do return ⟨← displace delta f.position, f.expected⟩
  let frontier ← e.frontier.mapM (displace delta)
  return ⟨taken, reach, far, frontier⟩

/-- What becomes of a result. -/
def carry? (start stop : Nat) (delta : Int) (key : MemoKey) (entry : Entry) :
    Guarded (Option (MemoKey × Entry)) :=
  if entry.reach ≤ start then .ok (some (key, entry))
  else if stop < key.2 then do
    let position ← displace delta key.2
    let entry ← displaceEntry delta entry
    return some ((key.1, position), entry)
  else .ok none

/-- The results of a list that still hold after an edit, put into a table one after another. -/
def carryAll (edit : Edit) (rs : List (MemoKey × Entry)) : Guarded Results := do
  let (stop, delta) ← displacement edit
  rs.foldlM (fun new r => do
    match ← carry? edit.start stop delta r.1 r.2 with
    | some (key, entry) => return new.insert key entry
    | none => return new) {}

variable {edit : Edit} {p : Nat} {entry : Entry}

/-- A position behind an edit is moved without overflow, where what it is moved to is an offset. -/
theorem displace_eq (hp : edit.removed ≤ p) (hmoved : edit.move p ≤ maxOffset) :
    displace (edit.insertedSize - edit.removed) p = .ok (edit.move p) := by
  have hsum : (p : Int) + (edit.insertedSize - edit.removed) = edit.move p := by
    unfold Edit.move
    omega
  rw [displace, hsum, if_pos ⟨Int.natCast_nonneg _, Int.ofNat_le.mpr hmoved⟩, Int.toNat_natCast]

/-- A result is moved without a fault if its positions are. -/
theorem displaceEntry_eq {delta : Int}
    (hreach : displace delta entry.reach = .ok (edit.move entry.reach))
    (h : ∀ q ∈ entry.positions, displace delta q = .ok (edit.move q)) :
    displaceEntry delta entry = .ok (entry.moved edit) := by
  simp only [Entry.mem_positions] at h
  have htaken : entry.taken.mapM (displaceTaken delta) = .ok (entry.taken.map fun t =>
      ⟨edit.move t.stop, t.trees, t.errors.map (SyntaxError.moved edit)⟩) := by
    refine option_mapM_eq fun t ht => ?_
    have herrors : (t.errors.mapM fun e => do
        return { e with start := ← displace delta e.start, stop := ← displace delta e.stop }) =
          .ok (t.errors.map (SyntaxError.moved edit)) := by
      refine mapM_eq fun x hx => ?_
      rw [h x.start (.inl ⟨t, ht, .inr ⟨x, hx, .inl rfl⟩⟩),
        h x.stop (.inl ⟨t, ht, .inr ⟨x, hx, .inr rfl⟩⟩)]
      rfl
    rw [displaceTaken, h t.stop (.inl ⟨t, ht, .inl rfl⟩), ok_bind, herrors]
    rfl
  have hfar : (entry.far.mapM fun f => do
      return (⟨← displace delta f.position, f.expected⟩ : Failure)) =
        .ok (entry.far.map fun f => ⟨edit.move f.position, f.expected⟩) := by
    refine option_mapM_eq fun f hf => ?_
    rw [h f.position (.inr (.inl ⟨f, hf, rfl⟩))]
    rfl
  have hfrontier : entry.frontier.mapM (displace delta) = .ok (entry.frontier.map edit.move) :=
    option_mapM_eq fun q hq => h q (.inr (.inr hq))
  rw [displaceEntry, htaken, ok_bind, hreach, ok_bind, hfar, ok_bind, hfrontier]
  rfl

/-- What becomes of a result that lies within a text is told without a fault. -/
theorem carry?_eq {key : MemoKey} {size : Nat} (h : entry.Within key.2 size)
    (hroom : size + 1 + edit.insertedSize ≤ maxOffset) :
    carry? edit.start (edit.start + edit.removed) (edit.insertedSize - edit.removed) key entry =
      .ok (edit.carry? key entry) := by
  unfold carry? Edit.carry?
  split
  · rfl
  · split
    · rename_i hbehind
      have hmoves : ∀ q, key.2 ≤ q → q ≤ entry.reach →
          displace (edit.insertedSize - edit.removed) q = .ok (edit.move q) := by
        intro q hlow hhigh
        have hend := h.reach_le
        refine displace_eq (by omega) ?_
        unfold Edit.move
        omega
      have hentry := displaceEntry_eq (hmoves _ h.le_reach (Nat.le_refl _)) fun q hq =>
        hmoves q (h.positions q hq).1 (h.positions q hq).2
      rw [hmoves _ (Nat.le_refl _) h.le_reach, ok_bind, hentry]
      rfl
    · rfl

/-- All results of a list that lie within a text are carried over without a fault. -/
theorem carryAll_eq {rs : List (MemoKey × Entry)} {size : Nat}
    (h : ∀ r ∈ rs, r.2.Within r.1.2 size) (hroom : size + 1 + edit.insertedSize ≤ maxOffset)
    (hdisplaced : displacement edit =
      .ok (edit.start + edit.removed, edit.insertedSize - edit.removed)) :
    carryAll edit rs = .ok (edit.carryAll rs) := by
  rw [carryAll, hdisplaced, ok_bind]
  refine (foldlM_eq (P := fun _ => True) (fun new r hr _ => ⟨?_, trivial⟩) trivial).1
  rw [carry?_eq (h r hr) hroom, ok_bind]
  cases edit.carry? r.1 r.2 <;> rfl

end Guarded

end Packrat

/-! ## Places in the new table -/

namespace Packrat

namespace Edit

variable {edit : Edit} {rs rs' : List (MemoKey × Entry)} {key : MemoKey} {entry : Entry}

/-- What looked at something behind the start of an edit and does not begin behind what it removes
is dropped. -/
theorem carry?_eq_none_iff : edit.carry? key entry = none ↔
    edit.start < entry.reach ∧ key.2 ≤ edit.start + edit.removed := by
  unfold carry?
  split
  · rename_i hkept
    simp only [reduceCtorEq, false_iff]
    omega
  · split
    · rename_i hmoved
      simp only [reduceCtorEq, false_iff]
      omega
    · rename_i hlooked hbefore
      simp only [true_iff]
      omega

/-- Two results that are carried to one place have been at one place. -/
theorem eq_of_carry? {key₁ key₂ : MemoKey} {entry₁ entry₂ entry' : Entry}
    (h₁ : key₁.2 ≤ entry₁.reach) (h₂ : key₂.2 ≤ entry₂.reach)
    (hcarry₁ : edit.carry? key₁ entry₁ = some (key, entry))
    (hcarry₂ : edit.carry? key₂ entry₂ = some (key, entry')) : key₁ = key₂ := by
  -- what is moved ends up behind the inserted text, and what is kept ends before it
  have hapart : ∀ p, edit.start + edit.removed < p → edit.start < edit.move p := by
    intro p hp
    unfold move
    omega
  rcases carry?_eq_some hcarry₁ with ⟨hkept₁, hkey₁, -⟩ | ⟨hmoved₁, hkey₁, -⟩
  · rcases carry?_eq_some hcarry₂ with ⟨-, hkey₂, -⟩ | ⟨hmoved₂, hkey₂, -⟩
    · rw [← hkey₁, ← hkey₂]
    · have hplace : key₁.2 = edit.move key₂.2 := by rw [← hkey₁, hkey₂]
      have hbehind := hapart _ hmoved₂
      omega
  · rcases carry?_eq_some hcarry₂ with ⟨hkept₂, hkey₂, -⟩ | ⟨hmoved₂, hkey₂, -⟩
    · have hplace : key₂.2 = edit.move key₁.2 := by rw [← hkey₂, hkey₁]
      have hbehind := hapart _ hmoved₁
      omega
    · rw [hkey₁, Prod.mk.injEq] at hkey₂
      have hplace := hkey₂.2
      unfold move at hplace
      exact Prod.ext hkey₂.1 (by omega)

/-- A table that results of distinct places are put into has all of them. -/
theorem getElem?_insertMany_iff (h : rs.Pairwise fun r r' => (r.1 == r'.1) = false) :
    ((∅ : Results).insertMany rs)[key]? = some entry ↔ (key, entry) ∈ rs :=
  ⟨mem_of_getElem?_insertMany, Std.HashMap.getElem?_insertMany_list_of_mem BEq.rfl h⟩

/-- Results of distinct places are carried to distinct places. -/
theorem pairwise_carried (h : Results.IsListing rs) :
    (rs.filterMap edit.carried).Pairwise fun r r' => (r.1 == r'.1) = false := by
  rw [List.pairwise_filterMap]
  refine h.distinct.imp_of_mem fun {r r'} hr hr' hne c hc c' hc' => ?_
  rw [beq_eq_false_iff_ne] at hne ⊢
  intro hsame
  obtain ⟨key, entry⟩ := c
  obtain ⟨key', entry'⟩ := c'
  obtain rfl : key = key' := hsame
  exact hne (eq_of_carry? (h.le_reach r hr) (h.le_reach r' hr') hc hc')

/-- At a place of the new table stands what one of the listed results is carried over to, and
nothing else. -/
theorem getElem?_carryAll_iff (h : Results.IsListing rs) :
    (edit.carryAll rs)[key]? = some entry ↔ ∃ r ∈ rs, edit.carry? r.1 r.2 = some (key, entry) := by
  rw [← (insertMany_equiv_carryAll edit rs).getElem?_eq,
    getElem?_insertMany_iff (pairwise_carried h), List.mem_filterMap]
  rfl

/-- The order in which results are carried over does not matter. -/
theorem carryAll_equiv (h : Results.IsListing rs) (hperm : rs'.Perm rs) :
    (edit.carryAll rs').Equiv (edit.carryAll rs) := by
  refine .of_forall_getElem?_eq fun key => Option.ext fun entry => ?_
  rw [getElem?_carryAll_iff h, getElem?_carryAll_iff (h.perm hperm)]
  exact exists_congr fun r => and_congr_left fun _ => hperm.mem_iff

end Edit

section

variable {edit : Edit} {e : Entry} {p size size' : Nat}

/-- A result that ends before the edit lies within the new text. -/
theorem Entry.Within.kept (h : e.Within p size) (hreach : e.reach ≤ edit.start)
    (hsize : edit.start ≤ size') : e.Within p size' :=
  ⟨h.le_reach, by omega, h.positions⟩

/-- A result that begins behind the edit lies within the new text when it is moved. -/
theorem Entry.Within.moved (h : e.Within p size) (hp : edit.start + edit.removed < p)
    (hsize : size' + edit.removed = size + edit.insertedSize) :
    (e.moved edit).Within (edit.move p) size' := by
  have hreach := h.le_reach
  have hend := h.reach_le
  refine ⟨?_, ?_, ?_⟩
  · simp only [Entry.moved, Edit.move]
    omega
  · simp only [Entry.moved, Edit.move]
    omega
  · rw [Entry.positions_moved, List.forall_mem_map]
    intro q hq
    obtain ⟨hlow, hhigh⟩ := h.positions q hq
    simp only [Entry.moved, Edit.move]
    omega

end

namespace Edit

variable {edit : Edit} {s new : String} {results : Results}

/-- However the results of a table that lie within a text are listed, they are carried over an edit
of the text without a position that would be no offset, and all to the same table: no two results
meet at one place, those are dropped that looked at something behind the start of the edit and do
not begin behind what it removes, and what becomes of the others is what the table has. These lie
within the new text. -/
theorem carryOver_exact (hs : s.utf8ByteSize ≤ maxSize) (hi : edit.insertedSize ≤ maxSize)
    (happly : edit.apply (.ofString s) = .ok new) (h : results.Within s.utf8ByteSize) :
    (∀ rs : List (MemoKey × Entry), rs.Perm results.toList →
      ∃ table, Guarded.carryAll edit rs = .ok table ∧ table.Equiv (edit.carryOver results)) ∧
    (∀ key₁ entry₁ key₂ entry₂ key entry entry', results[key₁]? = some entry₁ →
      results[key₂]? = some entry₂ → edit.carry? key₁ entry₁ = some (key, entry) →
      edit.carry? key₂ entry₂ = some (key, entry') → key₁ = key₂) ∧
    (∀ key entry, results[key]? = some entry → (edit.carry? key entry = none ↔
      edit.start < entry.reach ∧ key.2 ≤ edit.start + edit.removed)) ∧
    (∀ key entry, (edit.carryOver results)[key]? = some entry ↔ ∃ key₀ entry₀,
      results[key₀]? = some entry₀ ∧ edit.carry? key₀ entry₀ = some (key, entry)) ∧
    (edit.carryOver results).Within new.utf8ByteSize := by
  have hs' : s.utf8ByteSize < maxOffset := Nat.lt_of_le_of_lt hs (by decide)
  obtain ⟨hfits, hsize⟩ := fits_of_apply hs' happly
  have hend := hfits.within
  have hroom : s.utf8ByteSize + 1 + edit.insertedSize ≤ maxOffset := by
    have hdouble : maxSize + 1 + maxSize ≤ maxOffset := by decide
    omega
  refine ⟨fun rs hperm => ⟨edit.carryAll rs, ?_, ?_⟩, ?_, ?_, ?_, ?_⟩
  · exact Guarded.carryAll_eq (fun r hr => h.of_mem_toList r (hperm.mem_iff.mp hr)) hroom
      (displacement_guarded (by omega) hi (by omega))
  · rw [← carryAll_toList]
    exact carryAll_equiv h.isListing hperm
  · intro key₁ entry₁ key₂ entry₂ key entry entry' h₁ h₂ hcarry₁ hcarry₂
    exact eq_of_carry? (h _ _ h₁).le_reach (h _ _ h₂).le_reach hcarry₁ hcarry₂
  · exact fun _ _ _ => carry?_eq_none_iff
  · intro key entry
    rw [← carryAll_toList, getElem?_carryAll_iff h.isListing, Prod.exists]
    simp only [Std.HashMap.mem_toList_iff_getElem?_eq_some]
  · intro key entry hentry
    obtain ⟨key₀, entry₀, hold, hcarry⟩ := of_getElem?_carryOver hentry
    rcases carry?_eq_some hcarry with ⟨hkept, rfl, rfl⟩ | ⟨hmoved, rfl, rfl⟩
    · exact (h _ _ hold).kept hkept (by omega)
    · exact (h _ _ hold).moved hmoved hsize

/-- Results on five bytes: of the first one, of the first ones, and of the last one with the end of
the text. -/
def fiveBytes : Results :=
  (((∅ : Results).insert (0, 0) ⟨some { stop := 1 }, 1, none, none⟩).insert (1, 0)
    ⟨none, 3, some ⟨2, [0]⟩, none⟩).insert (0, 4)
      ⟨some { stop := 5, errors := [⟨4, 5, .unexpected, []⟩] }, 6, some ⟨5, [1]⟩, some 5⟩

/-- The results of the example lie within its text of five bytes. -/
theorem fiveBytes_within : fiveBytes.Within 5 := by
  refine ((Results.Within.empty.insert ?_).insert ?_).insert ?_
  · exact ⟨by decide, by decide, by decide⟩
  · exact ⟨by decide, by decide, by decide⟩
  · exact ⟨by decide, by decide, by decide⟩

/-- Two bytes behind the first one are replaced by four. -/
theorem carryOver_exact_fiveBytes :
    (Edit.mk 1 2 "é;;").apply (.ofString "ab,cd") = .ok "aé;;cd" ∧
    ((Edit.mk 1 2 "é;;").carryOver fiveBytes)[((0, 6) : MemoKey)]? =
      some ⟨some { stop := 7, errors := [⟨6, 7, .unexpected, []⟩] }, 8, some ⟨7, [1]⟩, some 7⟩ ∧
    (Edit.mk 1 2 "é;;").carry? (1, 0) ⟨none, 3, some ⟨2, [0]⟩, none⟩ = none ∧
    (∃ table, Guarded.carryAll ⟨1, 2, "é;;"⟩ fiveBytes.toList.reverse = .ok table ∧
      table.Equiv ((Edit.mk 1 2 "é;;").carryOver fiveBytes)) ∧
    ((Edit.mk 1 2 "é;;").carryOver fiveBytes).Within 7 := by
  have happly : (Edit.mk 1 2 "é;;").apply (.ofString "ab,cd") = .ok "aé;;cd" := rfl
  obtain ⟨hlisted, -, hdropped, hplaces, hwithin⟩ :=
    carryOver_exact (by decide) (by decide) happly fiveBytes_within
  refine ⟨happly, ?_, ?_, hlisted _ (List.reverse_perm _), hwithin⟩
  · exact (hplaces _ _).mpr ⟨(0, 4), _, Std.HashMap.getElem?_insert_self, rfl⟩
  · refine (hdropped _ _ ?_).mpr (by decide)
    rw [fiveBytes, Std.HashMap.getElem?_insert, if_neg (by decide),
      Std.HashMap.getElem?_insert_self]

end Edit

end Packrat
