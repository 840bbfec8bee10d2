import Packrat.Parse.Reuse
import Packrat.Proofs.Terminal.Bytes
import Packrat.Proofs.Tree.Tiling

/-!
# What an edit leaves alone

A text carries another one's stretch over when the same characters stand there at moved positions.
An edit carries over what stands before the removed stretch and, moved by the difference of the
sizes, what stands behind it. The two places look alike, so trees cover the one as they cover the
other.
-/

/-!
## Texts that look alike

A text looks like another one where the same bytes stand, at moved positions, and the same kind of
character before each position. Terminals and slices cannot tell the two places apart as long as
they look no further. It is enough that the bytes are the same, with the byte before the first
position and the ends of the texts if they were looked at.
-/

namespace Packrat

namespace Text

/-- Whether another text looks from `low` to `high` as a text does, at the positions that `f`
tells. -/
structure LooksLike (old new : Text) (f : Nat → Nat) (low high : Nat) : Prop where
  moves : ∀ p n, low ≤ p → f (p + n) = f p + n
  spots : ∀ p, low ≤ p → p ≤ high → old.isBoundary p = true → ∃ before us before' vs,
    old.spot? p = some ⟨before, us⟩ ∧ new.spot? (f p) = some ⟨before', vs⟩ ∧
      Neighbour.of before' = Neighbour.of before ∧ SharesBytes (high - p) us vs

namespace LooksLike

variable {old new : Text} {f : Nat → Nat} {low high p q : Nat}

/-- Positions move as far as the one that they are counted from. -/
theorem move_eq (h : old.LooksLike new f low high) (hp : low ≤ p) (hpq : p ≤ q) :
    f q = f p + (q - p) := by
  rw [← h.moves p (q - p) hp, Nat.add_sub_cancel' hpq]

/-- Positions keep their order when they are moved. -/
theorem move_le_move (h : old.LooksLike new f low high) (hp : low ≤ p) (hpq : p ≤ q) :
    f p ≤ f q := by
  rw [h.move_eq hp hpq]
  omega

/-- Of two positions the earlier one stays the earlier one. -/
theorem move_lt_move (h : old.LooksLike new f low high) (hp : low ≤ p) (hq : low ≤ q) :
    f p < f q ↔ p < q := by
  rcases Nat.le_total p q with hpq | hpq
  · rw [h.move_eq hp hpq]
    omega
  · rw [h.move_eq hq hpq]
    omega

/-- Distinct positions are moved to distinct ones. -/
theorem move_inj (h : old.LooksLike new f low high) (hp : low ≤ p) (hq : low ≤ q) :
    f p = f q ↔ p = q := by
  rcases Nat.le_total p q with hpq | hpq
  · rw [h.move_eq hp hpq]
    omega
  · rw [h.move_eq hq hpq]
    omega

/-- The later of two positions is moved to the later of the moved ones. -/
theorem move_max (h : old.LooksLike new f low high) (hp : low ≤ p) (hq : low ≤ q) :
    f (max p q) = max (f p) (f q) := by
  rcases Nat.le_total p q with hpq | hpq
  · rw [Nat.max_eq_right hpq, Nat.max_eq_right (h.move_le_move hp hpq)]
  · rw [Nat.max_eq_left hpq, Nat.max_eq_left (h.move_le_move hq hpq)]

/-- A boundary in the stretch is moved to a boundary. -/
theorem isBoundary (h : old.LooksLike new f low high) (hlow : low ≤ p) (hhigh : p ≤ high)
    (hp : old.isBoundary p = true) : new.isBoundary (f p) = true := by
  obtain ⟨before, us, before', vs, -, hnew, -⟩ := h.spots p hlow hhigh hp
  simp [Text.isBoundary, hnew]

/-- What stands between two positions stands between the moved ones. -/
theorem slice (h : old.LooksLike new f low high) (hlow : low ≤ p) (hpq : p ≤ q) (hhigh : q ≤ high)
    (hp : old.isBoundary p = true) (hq : old.isBoundary q = true) :
    new.slice (f p) (f q) = old.slice p q := by
  obtain ⟨before, us, before', vs, hold, hnew, -, hshares⟩ := h.spots p hlow (by omega) hp
  obtain ⟨xs, ys, hsplit⟩ := isBoundary_iff.mp hp
  obtain ⟨xs', ys', hsplit'⟩ := isBoundary_iff.mp hq
  obtain ⟨cs, rfl, -, hcs⟩ := hsplit.exists_between hsplit' hpq
  have hus : us = cs ++ ys' := by
    have hspot := hsplit.spot?.symm.trans hold
    simp only [Option.some.injEq, Spot.mk.injEq] at hspot
    exact hspot.2.symm
  rw [hus] at hshares
  obtain ⟨zs, rfl, -⟩ := hshares.exists_append (by omega)
  have hlength : f q - f p = utf8Length cs := by
    rw [h.move_eq hlow hpq]
    omega
  rw [Text.slice, Text.slice, hlength, hcs, Nat.add_sub_cancel_left]
  simp only [charsFrom, hold, hnew, hus, takeBytes_append]

/-- A terminal that looks no further finds the same. -/
theorem scanAt (h : old.LooksLike new f low high) (hlow : low ≤ p) (hp : old.isBoundary p = true)
    {t : Terminal} (hreach : p + (t.scanAt old p).reach ≤ high) :
    t.scanAt new (f p) = t.scanAt old p := by
  obtain ⟨before, us, before', vs, hold, hnew, hbefore, hshares⟩ := h.spots p hlow (by omega) hp
  simp only [Terminal.scanAt, hold, hnew] at hreach ⊢
  exact Terminal.scan_of_shares hbefore hshares (by omega)

end LooksLike

/-- Whether another text has at a position the bytes that a text has at `p`, up to `stop`: the byte
before is the same, or both are the starts of the texts, and if `stop` is behind the end of the text
then the other one ends there too. -/
structure SharesAt (old new : Text) (p p' stop : Nat) : Prop where
  start : p' = 0 ↔ p = 0
  before : 0 < p → new.bytes[p' - 1]? = old.bytes[p - 1]?
  bytes : ∀ i, p + i < stop → p + i < old.size → new.bytes[p' + i]? = old.bytes[p + i]?
  rest : stop = old.size + 1 → new.bytes.drop p' = old.bytes.drop p

namespace SharesAt

variable {old new : Text} {p p' stop : Nat}

/-- It is enough that the other text has the bytes of the first one, and that the texts end equally
far behind the positions if the end was looked at. -/
theorem of_ends (hp : p ≤ old.size) (hstart : p = 0 ↔ p' = 0)
    (hbefore : 0 < p → new.bytes[p' - 1]? = old.bytes[p - 1]?)
    (hbytes : ∀ i, p + i < min stop old.size → new.bytes[p' + i]? = old.bytes[p + i]?)
    (hends : stop = old.size + 1 → p' + (old.size - p) = new.size) :
    old.SharesAt new p p' stop where
  start := hstart.symm
  before := hbefore
  bytes i hi hend := hbytes i (by omega)
  rest hstop := by
    have hend := hends hstop
    refine List.ext_getElem? fun i => ?_
    rw [List.getElem?_drop, List.getElem?_drop]
    by_cases hi : p + i < old.size
    · exact hbytes i (by omega)
    · rw [List.getElem?_eq_none (by rw [length_bytes]; omega),
        List.getElem?_eq_none (by rw [length_bytes]; omega)]

/-- All bytes behind the positions are the same up to `stop`. -/
theorem take_bytes (h : old.SharesAt new p p' stop) (hstop : stop ≤ old.size + 1) :
    (new.bytes.drop p').take (stop - p) = (old.bytes.drop p).take (stop - p) := by
  refine List.ext_getElem? fun i => ?_
  rw [List.getElem?_take, List.getElem?_take]
  by_cases hi : i < stop - p
  · rw [if_pos hi, if_pos hi]
    by_cases hend : p + i < old.size
    · rw [List.getElem?_drop, List.getElem?_drop]
      exact h.bytes i (by omega) hend
    · rw [h.rest (by omega)]
  · rw [if_neg hi, if_neg hi]

/-- What stands behind the positions shares all bytes up to `stop`. -/
theorem sharesBytes {xs ys xs' ys' : List Char} (h : old.SharesAt new p p' stop)
    (hsplit : old.Splits p xs ys) (hsplit' : new.Splits p' xs' ys') (hstop : stop ≤ old.size + 1) :
    SharesBytes (stop - p) ys ys' := by
  rw [SharesBytes, ← hsplit.drop_bytes, ← hsplit'.drop_bytes]
  exact h.take_bytes hstop

/-- The kinds of the characters before the positions are the same. -/
theorem neighbour {xs ys xs' ys' : List Char} (h : old.SharesAt new p p' stop)
    (hsplit : old.Splits p xs ys) (hsplit' : new.Splits p' xs' ys') :
    Neighbour.of xs'.getLast? = Neighbour.of xs.getLast? := by
  have hlength := hsplit.2
  have hlength' := hsplit'.2
  rcases List.eq_nil_or_concat xs with rfl | ⟨init, c, hconcat⟩
  · have hzero : p' = 0 := h.start.mpr hlength.symm
    rw [hzero, utf8Length_eq_zero] at hlength'
    rw [hlength']
  · rw [List.concat_eq_append] at hconcat
    subst hconcat
    have hpos := c.utf8Size_pos
    simp only [utf8Length_append, utf8Length_cons] at hlength
    rcases List.eq_nil_or_concat xs' with rfl | ⟨init', d, hconcat⟩
    · have hzero : p = 0 := h.start.mp hlength'.symm
      omega
    · rw [List.concat_eq_append] at hconcat
      subst hconcat
      have hlast := h.before (by omega)
      rw [hsplit.bytes_before, hsplit'.bytes_before] at hlast
      simp only [List.getLast?_concat, Neighbour.of]
      exact Neighbour.ofChar_eq_of_last hlast

/-- Texts with the same bytes look alike. -/
theorem looksLike (h : old.SharesAt new p p' stop) (hp : old.isBoundary p = true)
    (hp' : new.isBoundary p' = true) (hstop : stop ≤ old.size + 1) :
    old.LooksLike new (fun q => p' + (q - p)) p stop := by
  obtain ⟨xs, ys, hsplit⟩ := isBoundary_iff.mp hp
  obtain ⟨xs', ys', hsplit'⟩ := isBoundary_iff.mp hp'
  have hshares := h.sharesBytes hsplit hsplit' hstop
  refine ⟨fun q n hq => by omega, fun q hlow hhigh hq => ?_⟩
  obtain ⟨vs, ws, hat⟩ := isBoundary_iff.mp hq
  obtain ⟨cs, rfl, rfl, rfl⟩ := hsplit.exists_between hat hlow
  obtain ⟨zs, rfl, hrest⟩ := hshares.exists_append (by omega)
  rw [Nat.add_sub_cancel_left]
  refine ⟨_, ws, _, zs, hat.spot?, hsplit'.advance.spot?, ?_, by rwa [← Nat.sub_sub]⟩
  cases hlast : cs.getLast? with
  | none =>
    rw [List.getLast?_eq_none_iff] at hlast
    rw [hlast, List.append_nil, List.append_nil]
    exact h.neighbour hsplit hsplit'
  | some c => rw [List.getLast?_append, List.getLast?_append, hlast, Option.some_or, Option.some_or]

end SharesAt

end Text

end Packrat

/-! ## What an edit carries over -/

namespace Packrat

namespace Text

/-- Whether what stands from `low` to `high` in one text stands in another one at the positions
that `f` tells, each position behind the same character. -/
structure Carries (old new : Text) (f : Nat → Nat) (low high : Nat) : Prop where
  moves : ∀ p n, low ≤ p → f (p + n) = f p + n
  spots : ∀ p, low ≤ p → p ≤ high → old.isBoundary p = true → ∃ before us vs ws,
    old.spot? p = some ⟨before, us ++ vs⟩ ∧ new.spot? (f p) = some ⟨before, us ++ ws⟩ ∧
      (vs = ws ∨ p + utf8Length us = high)

/-- What is carried over looks alike. -/
theorem Carries.looksLike {old new : Text} {f : Nat → Nat} {low high : Nat}
    (h : old.Carries new f low high) : old.LooksLike new f low high := by
  refine ⟨h.moves, fun p hlow hhigh hp => ?_⟩
  obtain ⟨before, us, vs, ws, hold, hnew, hends⟩ := h.spots p hlow hhigh hp
  refine ⟨before, us ++ vs, before, us ++ ws, hold, hnew, rfl, ?_⟩
  rcases hends with rfl | hend
  · rfl
  · exact (SharesBytes.of_append us vs ws).mono (by omega)

end Text

namespace Tree

variable {old new : Text} {f : Nat → Nat} {low high : Nat}

mutual

/-- A tree that covers a stretch of one text covers the stretch of the other that looks like it. -/
theorem Tiles.carry (h : old.LooksLike new f low high) {start stop : Nat} (hlow : low ≤ start)
    (hhigh : stop ≤ high) : (t : Tree) → t.Tiles old start stop → t.Tiles new (f start) (f stop)
  | leaf _ _, ⟨hlt, hstart, hstop, hwritten⟩ => by
    have hmove := h.move_eq hlow (Nat.le_of_lt hlt)
    refine ⟨by omega, h.isBoundary hlow (by omega) hstart, h.isBoundary (by omega) hhigh hstop, ?_⟩
    rw [hwritten, h.slice hlow (Nat.le_of_lt hlt) hhigh hstart hstop]
  | node _ children, ht => TilesAll.carry h hlow hhigh children ht

/-- Trees cover what looks alike as before. -/
theorem TilesAll.carry (h : old.LooksLike new f low high) {start stop : Nat} (hlow : low ≤ start)
    (hhigh : stop ≤ high) :
    (ts : List Tree) → TilesAll old ts start stop → TilesAll new ts (f start) (f stop)
  | [], ht => congrArg f ht
  | t :: ts, ⟨middle, ht, hts⟩ => by
    have hle := TilesAll.le ts hts
    have hle' := Tiles.le t ht
    exact ⟨f middle, Tiles.carry h hlow (by omega) t ht,
      TilesAll.carry h (by omega) hhigh ts hts⟩

end

end Tree

namespace Edit

variable {e : Edit} {old : Text} {new : String}

/-- An edit that applies divides the text into what stands before the removed stretch, the
stretch itself and what stands behind it. -/
theorem of_apply (h : e.apply old = .ok new) (hsize : old.size < maxOffset) :
    ∃ xs ds zs, old.Splits e.start xs (ds ++ zs) ∧ utf8Length ds = e.removed ∧
      new.toList = xs ++ (e.inserted.toList ++ zs) := by
  unfold apply at h
  cases hproblem : e.problem? old with
  | some problem => simp [hproblem] at h
  | none =>
    simp only [hproblem, Except.ok.injEq] at h
    unfold problem? at hproblem
    split at hproblem
    · cases hproblem
    · split at hproblem
      · cases hproblem
      · split at hproblem
        · cases hproblem
        · rename_i hbounds hstart hstop
          simp only [Bool.not_eq_true', Bool.not_eq_false] at hstart hstop
          have hend : e.removedEnd = e.start + e.removed := by
            unfold removedEnd at hbounds ⊢
            omega
          obtain ⟨xs, ys, hsplit⟩ := Text.isBoundary_iff.mp hstart
          obtain ⟨xs', zs, hsplit'⟩ := Text.isBoundary_iff.mp hstop
          obtain ⟨ds, rfl, rfl, hds⟩ := hsplit.exists_between hsplit' (by omega)
          refine ⟨xs, ds, zs, hsplit, by omega, ?_⟩
          have hbefore : old.slice 0 e.start = String.ofList xs := by
            have hzero : old.Splits 0 [] (xs ++ (ds ++ zs)) := ⟨hsplit.1, rfl⟩
            rw [← hzero.slice, Nat.zero_add, hsplit.2]
          have hbehind : old.slice e.removedEnd old.size = String.ofList zs := by
            rw [hsplit'.size_eq]
            rw [← List.append_nil zs] at hsplit'
            rw [hsplit'.slice]
          rw [← h, hbefore, hbehind]
          simp

/-- An edit carries over what stands before the removed stretch. -/
theorem carries_before (h : e.apply old = .ok new) (hsize : old.size < maxOffset) :
    old.Carries (.ofString new) id 0 e.start := by
  obtain ⟨xs, ds, zs, hold, -, hnew⟩ := of_apply h hsize
  refine ⟨fun p n _ => rfl, fun p _ hp hb => ?_⟩
  obtain ⟨us, vs, hsplit⟩ := Text.isBoundary_iff.mp hb
  obtain ⟨ws, rfl, rfl, hws⟩ := hsplit.exists_between hold hp
  have hsplit' : (Text.ofString new).Splits p us (ws ++ (e.inserted.toList ++ zs)) :=
    ⟨by rw [← List.append_assoc]; exact hnew, hsplit.2⟩
  exact ⟨_, ws, _, _, hsplit.spot?, hsplit'.spot?, .inr hws.symm⟩

/-- An edit carries over what stands behind the removed stretch and its last character. -/
theorem carries_behind (h : e.apply old = .ok new) (hsize : old.size < maxOffset) (high : Nat) :
    old.Carries (.ofString new) e.move (e.start + e.removed + 1) high := by
  obtain ⟨xs, ds, zs, hold, hds, hnew⟩ := of_apply h hsize
  refine ⟨fun p n hp => by unfold move; omega, fun p hp _ hb => ?_⟩
  have hend := hold.advance
  obtain ⟨us, vs, hsplit⟩ := Text.isBoundary_iff.mp hb
  obtain ⟨ws, rfl, rfl, hws⟩ := hend.exists_between hsplit (by omega)
  have hinserted : e.insertedSize = utf8Length e.inserted.toList := (utf8Length_toList _).symm
  have hsplit' : (Text.ofString new).Splits (e.move p) (xs ++ e.inserted.toList ++ ws) vs := by
    refine ⟨by simp [Text.ofString, hnew], ?_⟩
    have hxs := hold.2
    simp only [utf8Length_append, move, hinserted]
    omega
  obtain ⟨init, last, rfl⟩ : ∃ init last, ws = init ++ [last] := by
    rcases List.eq_nil_or_concat ws with rfl | ⟨init, last, hconcat⟩
    · simp only [utf8Length_nil] at hws
      omega
    · exact ⟨init, last, by rw [hconcat, List.concat_eq_append]⟩
  refine ⟨some last, vs, [], [], ?_, ?_, .inl rfl⟩
  · rw [hsplit.spot?]
    simp
  · rw [hsplit'.spot?]
    simp

end Edit

end Packrat
