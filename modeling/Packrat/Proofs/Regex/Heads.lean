import Packrat.Proofs.Except
import Packrat.Proofs.Regex.Branches
import Packrat.Proofs.Regex.Spans
import Packrat.Regex.Pattern
import Packrat.Regex.Scan

/-!
# How a match begins

A match at an offset takes nothing, which is told by the neighbours of the offset, or it takes the
character there, and then the rest of it is one of the rests that `heads` lists.
-/

/-!
## Bounds in order

The bounds of a repetition that can be read are in order, so they are in the expression that a
source denotes.
-/

namespace Packrat.Regex

mutual

/-- Whether the bounds of all repetitions in a written expression are in order. -/
def Written.InOrder : Written → Prop
  | .repetition body least most => (∀ m ∈ most, least ≤ m) ∧ body.InOrder
  | .group _ body => body.InOrder
  | .capture body => body.InOrder
  | .alternation branches => allInOrder branches
  | .concat parts => allInOrder parts
  | _ => True

/-- The same for a list. -/
def allInOrder : List Written → Prop
  | [] => True
  | part :: parts => part.InOrder ∧ allInOrder parts

end

/-- Whether the bounds of all repetitions in an expression are in order. -/
def InOrder : Regex → Prop
  | seq a b => a.InOrder ∧ b.InOrder
  | alt a b => a.InOrder ∧ b.InOrder
  | rep body least most => (∀ m ∈ most, least ≤ m) ∧ body.InOrder
  | _ => True

section Written

variable {branches parts : List Written} {w : Written}

/-- Bounds are in order in a list when they are in each of its parts. -/
theorem allInOrder_iff : allInOrder parts ↔ ∀ part ∈ parts, part.InOrder := by
  induction parts with
  | nil => simp [allInOrder]
  | cons part parts ih => rw [allInOrder, ih, List.forall_mem_cons]

/-- Where there are no expressions inside there are no bounds. -/
theorem Written.inOrder_of_isSimple (h : w.isSimple = true) : w.InOrder := by
  cases w with
  | repetition | group | capture | alternation | concat => cases h
  | _ => trivial

/-- Bounds are in order in an expression of parts when they are in each part. -/
theorem Written.inOrder_ofParts (h : allInOrder parts) : (Written.ofParts parts).InOrder := by
  match parts with
  | [] => trivial
  | [part] => exact h.1
  | _ :: _ :: _ => exact h

/-- Bounds are in order in an expression of branches when they are in each branch. -/
theorem Written.inOrder_ofBranches (h : allInOrder branches) :
    (Written.ofBranches branches).InOrder := by
  match branches with
  | [] => trivial
  | [branch] => exact h.1
  | _ :: _ :: _ => exact h

/-- What is built of parts whose bounds are in order has its bounds in order. -/
theorem Builds.inOrder (h : Builds branches parts w) (hbranches : allInOrder branches)
    (hparts : allInOrder parts) : w.InOrder := by
  have hreverse : ∀ {ps : List Written}, allInOrder ps → allInOrder ps.reverse := fun hps =>
    allInOrder_iff.mpr fun p hp => allInOrder_iff.mp hps p (List.mem_reverse.mp hp)
  induction h with
  | close branches parts =>
    exact Written.inOrder_ofBranches
      (hreverse ⟨Written.inOrder_ofParts (hreverse hparts), hbranches⟩)
  | bar _ ih => exact ih ⟨Written.inOrder_ofParts (hreverse hparts), hbranches⟩ trivial
  | simple hsimple _ ih => exact ih hbranches ⟨Written.inOrder_of_isSimple hsimple, hparts⟩
  | group _ _ ihinside ih | capture _ _ ihinside ih =>
    exact ih hbranches ⟨ihinside trivial trivial, hparts⟩
  | repetition hbounds _ ih => exact ih hbranches ⟨⟨hbounds, hparts.1⟩, hparts.2⟩

/-- A source is read only if the bounds of all repetitions in it are in order. -/
theorem Written.inOrder_of_read? {source : String} (h : Written.read? source = some w) :
    w.InOrder := by
  obtain ⟨⟨w', mode, left⟩, hread, h⟩ := Option.bind_eq_some_iff.mp h
  simp only at h
  split at h
  · cases h
    exact (builds_of_readBranches hread).inOrder trivial trivial
  · cases h

end Written

section Meaning

variable {a b r : Regex} {rs : List Regex} {least : Nat} {most : Option Nat}

/-- Bounds stay in order when two expressions are put one after the other. -/
theorem inOrder_cat (ha : a.InOrder) (hb : b.InOrder) : (a.cat b).InOrder := by
  unfold cat
  split
  · exact hb
  · exact ha
  · exact ⟨ha, hb⟩

/-- Bounds stay in order when expressions are put one after another. -/
theorem inOrder_sequence (h : ∀ r ∈ rs, r.InOrder) : (sequence rs).InOrder := by
  induction rs with
  | nil => trivial
  | cons r rs ih =>
    obtain ⟨hr, hrs⟩ := List.forall_mem_cons.mp h
    exact inOrder_cat hr (ih hrs)

/-- Bounds stay in order when an expression is repeated with bounds in order. -/
theorem inOrder_repeated (hbounds : ∀ m ∈ most, least ≤ m) (h : r.InOrder) :
    (r.repeated least most).InOrder := by
  unfold repeated
  split
  · trivial
  · split
    · exact h
    · exact ⟨hbounds, h⟩

/-- Bounds are in order in alternatives when they are in each. -/
theorem inOrder_alternatives (h : ∀ x ∈ r :: rs, x.InOrder) : (alternatives r rs).InOrder := by
  induction rs generalizing r with
  | nil => exact h r List.mem_cons_self
  | cons s rs ih =>
    obtain ⟨hr, hrs⟩ := List.forall_mem_cons.mp h
    exact ⟨hr, ih hrs⟩

/-- Bounds are in order in a choice, as joined sets have none. -/
theorem inOrder_choice (h : ∀ r ∈ rs, r.InOrder) : (choice rs).InOrder := by
  unfold choice
  split
  · trivial
  · split
    · exact inOrder_alternatives h
    · trivial

mutual

/-- The meaning of a written expression whose bounds are in order has its bounds in order. -/
theorem inOrder_of_meaning? : (w : Written) → w.InOrder → ∀ flags x,
    w.meaning? flags = some x → x.1.InOrder
  | .empty, _, _, _, h => by cases h; trivial
  | .flags _, _, _, _, h => by cases h; trivial
  | .literal l, _, flags, x, h => by
    obtain ⟨r, hr, rfl⟩ := Option.map_eq_some_iff.mp h
    unfold literalRegex? at hr
    split at hr
    · cases hr
    · split at hr
      · split at hr <;> cases hr <;> trivial
      · cases hr
        trivial
  | .dot, _, flags, x, h => by
    obtain ⟨r, hr, rfl⟩ := Option.map_eq_some_iff.mp h
    unfold dotRegex? at hr
    split at hr
    · cases hr
    · split at hr
      · cases hr
        trivial
      · split at hr <;> cases hr <;> trivial
  | .assertion _, _, _, _, h => by cases h; trivial
  | .perl _ _, _, _, _, h => by
    obtain ⟨set, -, rfl⟩ := Option.map_eq_some_iff.mp h
    trivial
  | .property _ _, _, _, _, h => by
    obtain ⟨set, -, rfl⟩ := Option.map_eq_some_iff.mp h
    trivial
  | .bracketed _ _, _, _, _, h => by
    obtain ⟨set, -, h⟩ := Option.bind_eq_some_iff.mp h
    obtain ⟨set', -, h⟩ := Option.bind_eq_some_iff.mp h
    cases h
    trivial
  | .repetition body _ _, horder, flags, _, h => by
    obtain ⟨x, hbody, h⟩ := Option.bind_eq_some_iff.mp h
    cases h
    exact inOrder_repeated horder.1 (inOrder_of_meaning? body horder.2 flags x hbody)
  | .group items body, horder, flags, _, h => by
    obtain ⟨x, hbody, h⟩ := Option.bind_eq_some_iff.mp h
    cases h
    exact inOrder_of_meaning? body horder _ x hbody
  | .capture body, horder, flags, _, h => by
    obtain ⟨x, hbody, h⟩ := Option.bind_eq_some_iff.mp h
    cases h
    exact ⟨by simp, inOrder_of_meaning? body horder flags x hbody⟩
  | .alternation branches, horder, flags, _, h => by
    obtain ⟨x, hbranches, h⟩ := Option.bind_eq_some_iff.mp h
    cases h
    exact inOrder_choice (inOrder_of_meanings? branches horder flags x hbranches)
  | .concat parts, horder, flags, _, h => by
    obtain ⟨x, hparts, h⟩ := Option.bind_eq_some_iff.mp h
    cases h
    exact inOrder_sequence (inOrder_of_meanings? parts horder flags x hparts)

/-- The same for a list. -/
theorem inOrder_of_meanings? : (ws : List Written) → allInOrder ws → ∀ flags x,
    meanings? flags ws = some x → ∀ r ∈ x.1, r.InOrder
  | [], _, _, _, h => by
    cases h
    exact nofun
  | w :: ws, horder, flags, _, h => by
    obtain ⟨x, hfirst, h⟩ := Option.bind_eq_some_iff.mp h
    obtain ⟨y, hrest, h⟩ := Option.bind_eq_some_iff.mp h
    cases h
    exact List.forall_mem_cons.mpr ⟨inOrder_of_meaning? w horder.1 flags x hfirst,
      inOrder_of_meanings? ws horder.2 _ y hrest⟩

end

end Meaning

/-- The bounds of the repetitions in a pattern are in order. -/
theorem inOrder_of_parse {source : String} {flags : Option String} {regex : Regex}
    (h : Pattern.parse source flags = .ok regex) : regex.InOrder := by
  obtain ⟨given, -, h⟩ := Except.of_bind_ok h
  split at h
  · rename_i hsome
    cases h
    obtain ⟨w, hread, hmeaning⟩ := Option.bind_eq_some_iff.mp hsome
    obtain ⟨x, hx, rfl⟩ := Option.map_eq_some_iff.mp hmeaning
    exact inOrder_of_meaning? w (Written.inOrder_of_read? hread) given x hx
  · cases h

end Packrat.Regex

/-! ## Heads and rests -/

namespace Packrat

namespace Text

variable {t : Text} {p q m : Nat} {xs ys : List Char} {R : Nat → Nat → Prop}

/-- The neighbours of an offset. -/
def junction (t : Text) (p : Nat) : Regex.Junction :=
  match t.spot? p with
  | some spot => (.of spot.before, .of spot.rest.head?)
  | none => (.edge, .edge)

/-- The neighbours of a boundary are the last character before it and the first one behind it. -/
theorem Splits.junction (h : t.Splits p xs ys) :
    t.junction p = (.of xs.getLast?, .of ys.head?) := by
  rw [Text.junction, h.spot?]

/-- Steps that do not go back lead no further back than where they start. -/
theorem Steps.le (hR : ∀ p q, R p q → p ≤ q) {n : Nat} (h : t.Steps R n p q) : p ≤ q := by
  induction n generalizing p with
  | zero => exact Nat.le_of_eq h.2.symm
  | succ n ih =>
    obtain ⟨m, hfirst, hrest⟩ := h
    exact Nat.le_trans (hR p m hfirst) (ih hrest)

/-- Staying at an offset can be repeated. -/
theorem Steps.add {k n : Nat} (hp : R p p) (h : t.Steps R n p q) : t.Steps R (k + n) p q := by
  induction k with
  | zero => rwa [Nat.zero_add]
  | succ k ih => exact Nat.succ_add k n ▸ ⟨p, hp, ih⟩

/-- Steps that lead away from an offset first stay at it, if at all, and then leave it. -/
theorem Steps.exists_leave {n : Nat} (h : t.Steps R n p q) (hne : q ≠ p) :
    ∃ k j m, n = k + 1 + j ∧ (k ≠ 0 → R p p) ∧ m ≠ p ∧ R p m ∧ t.Steps R j m q := by
  induction n with
  | zero => exact absurd h.2 hne
  | succ n ih =>
    obtain ⟨m, hfirst, hrest⟩ := h
    by_cases hm : m = p
    · subst hm
      obtain ⟨k, j, m', rfl, -, hm', hleave, hsteps⟩ := ih hrest
      exact ⟨k + 1, j, m', by omega, fun _ => hfirst, hm', hleave, hsteps⟩
    · exact ⟨0, n, m, by omega, by simp, hm, hfirst, hrest⟩

end Text

namespace Regex

variable {r : Regex} {text : Text} {p q : Nat} {xs ys : List Char} {c : Char}

/-- A match does not end before it begins. -/
theorem Spans.le (h : r.Spans text p q) : p ≤ q := by
  obtain ⟨xs, w, ys, ⟨-, rfl⟩, -⟩ := h
  exact Nat.le_add_right _ _

/-- A look matches nothing, at boundaries whose neighbours it holds of. -/
theorem spans_look {l : Look} : (look l).Spans text p q ↔ text.isBoundary p = true ∧ q = p ∧
    l.holds (text.junction p).1 (text.junction p).2 = true := by
  constructor
  · rintro ⟨xs, w, ys, ⟨hsplit, rfl⟩, hmatches⟩
    cases hmatches with
    | look h =>
      refine ⟨hsplit.isBoundary, rfl, ?_⟩
      have hneighbours : text.junction p = (.of xs.getLast?, .of ys.head?) :=
        Text.Splits.junction hsplit
      rw [hneighbours]
      exact h
  · rintro ⟨hboundary, rfl, h⟩
    obtain ⟨xs, ys, hsplit⟩ := Text.isBoundary_iff.mp hboundary
    rw [hsplit.junction] at h
    exact ⟨xs, [], ys, ⟨hsplit, rfl⟩, .look h⟩

/-- An expression matches nothing at an offset if it does between the neighbours of the offset. -/
theorem spans_self_iff (hr : r.InOrder) (hp : text.isBoundary p = true) : r.Spans text p p ↔
    r.matchesEmpty (text.junction p).1 (text.junction p).2 = true := by
  induction r with
  | empty => simp [spans_empty, matchesEmpty, hp]
  | look l => simp [spans_look, matchesEmpty, hp]
  | chars s =>
    constructor
    · intro h
      obtain ⟨xs, c, ys, ⟨-, heq⟩, -⟩ := spans_chars.mp h
      have hpos := c.utf8Size_pos
      simp only [utf8Length_cons, utf8Length_nil] at heq
      omega
    · intro h
      cases h
  | seq a b iha ihb =>
    have hsplit : (∃ m, a.Spans text p m ∧ b.Spans text m p) ↔
        a.Spans text p p ∧ b.Spans text p p := by
      constructor
      · rintro ⟨m, ha, hb⟩
        obtain rfl := Nat.le_antisymm ha.le hb.le
        exact ⟨ha, hb⟩
      · intro h
        exact ⟨p, h⟩
    rw [spans_seq, hsplit, matchesEmpty, Bool.and_eq_true, iha hr.1, ihb hr.2]
  | alt a b iha ihb => rw [spans_alt, matchesEmpty, Bool.or_eq_true, iha hr.1, ihb hr.2]
  | rep body least most ih =>
    rw [spans_rep, matchesEmpty, Bool.or_eq_true, beq_iff_eq, ← ih hr.2]
    constructor
    · rintro ⟨n, hleast, -, hsteps⟩
      cases n with
      | zero => exact .inl (Nat.le_zero.mp hleast)
      | succ n =>
        obtain ⟨m, hfirst, hrest⟩ := hsteps
        obtain rfl := Nat.le_antisymm hfirst.le (hrest.le fun _ _ h => h.le)
        exact .inr hfirst
    · rintro (rfl | hbody)
      · exact ⟨0, Nat.le_refl 0, fun _ _ => Nat.zero_le _, hp, rfl⟩
      · have hstay : text.Steps (body.Spans text) 0 p p := ⟨hp, rfl⟩
        exact ⟨least, Nat.le_refl _, hr.1, hstay.add hbody⟩

/-- The rests of an expression have bounds in order if it has. -/
theorem inOrder_of_mem_heads {before after : Neighbour} (hr : r.InOrder) :
    ∀ h ∈ r.heads before after, h.2.InOrder := by
  induction r with
  | empty => exact nofun
  | look => exact nofun
  | chars s =>
    intro h hmem
    obtain rfl := List.mem_singleton.mp hmem
    trivial
  | seq a b iha ihb =>
    intro h hmem
    rcases List.mem_append.mp hmem with hmem | hmem
    · obtain ⟨x, hx, rfl⟩ := List.mem_map.mp hmem
      exact inOrder_cat (iha hr.1 x hx) hr.2
    · split at hmem
      · exact ihb hr.2 h hmem
      · cases hmem
  | alt a b iha ihb =>
    intro h hmem
    rcases List.mem_append.mp hmem with hmem | hmem
    · exact iha hr.1 h hmem
    · exact ihb hr.2 h hmem
  | rep body least most ih =>
    intro h hmem
    simp only [heads] at hmem
    split at hmem
    · cases hmem
    · obtain ⟨x, hx, rfl⟩ := List.mem_map.mp hmem
      refine inOrder_cat (ih hr.2 x hx) ?_
      split
      · trivial
      · refine ⟨fun m hm => ?_, hr.2⟩
        obtain ⟨k, hk, rfl⟩ := Option.map_eq_some_iff.mp hm
        have hle := hr.1 k hk
        split <;> omega

/-- A repetition that takes something is a round that does, and the rounds behind it. Rounds that
take nothing count, so where there are such, fewer of the others will do. -/
theorem spans_rep_and_ne {body : Regex} {least : Nat} {most : Option Nat}
    (hr : (rep body least most).InOrder) (hp : text.isBoundary p = true) :
    (rep body least most).Spans text p q ∧ q ≠ p ↔
      most ≠ some 0 ∧ ∃ m, (body.Spans text p m ∧ m ≠ p) ∧
        (if most = some 1 then empty
          else rep body (if body.matchesEmpty (text.junction p).1 (text.junction p).2 then 0
            else least - 1) (most.map (· - 1))).Spans text m q := by
  have hself : body.Spans text p p ↔
      body.matchesEmpty (text.junction p).1 (text.junction p).2 = true := spans_self_iff hr.2 hp
  rw [spans_rep]
  constructor
  · rintro ⟨⟨n, hleast, hmost, hsteps⟩, hne⟩
    obtain ⟨k, j, m, rfl, hstay, hm, hleave, hsteps⟩ := hsteps.exists_leave hne
    refine ⟨fun hzero => ?_, m, ⟨hleave, hm⟩, ?_⟩
    · have hle := hmost 0 hzero
      omega
    · split
      · rename_i hone
        obtain rfl : j = 0 := by
          have hle := hmost 1 hone
          omega
        exact spans_empty.mpr ⟨hsteps.1, hsteps.2⟩
      · refine spans_rep.mpr ⟨j, ?_, fun i hi => ?_, hsteps⟩
        · split
          · exact Nat.zero_le _
          · rename_i hempty
            have hk : k = 0 := by_contra fun hk => hempty (hself.mp (hstay hk))
            omega
        · obtain ⟨i, hmem, rfl⟩ := Option.map_eq_some_iff.mp hi
          have hle := hmost i hmem
          omega
  · rintro ⟨hroom, m, ⟨hleave, hm⟩, hrounds⟩
    refine ⟨?_, by have := hleave.le; have := hrounds.le; omega⟩
    split at hrounds
    · rename_i hone
      obtain ⟨hboundary, rfl⟩ := spans_empty.mp hrounds
      exact ⟨1, hr.1 1 hone, by simp [hone], q, hleave, hboundary, rfl⟩
    · obtain ⟨j, hleast, hmost, hsteps⟩ := spans_rep.mp hrounds
      have hround : text.Steps (body.Spans text) (j + 1) p q := ⟨m, hleave, hsteps⟩
      have hfew : ∀ i ∈ most, j + 1 ≤ i := by
        intro i hi
        have hle := hmost (i - 1) (Option.map_eq_some_iff.mpr ⟨i, hi, rfl⟩)
        have hpos : i ≠ 0 := fun h => hroom (h ▸ hi)
        omega
      split at hleast
      · rename_i hempty
        refine ⟨least - (j + 1) + (j + 1), by omega, fun i hi => ?_,
          hround.add (hself.mpr hempty)⟩
        have hi₁ := hr.1 i hi
        have hi₂ := hfew i hi
        omega
      · exact ⟨j + 1, by omega, hfew, hround⟩

/-- A match that takes something takes the character at its start, and then a rest. -/
theorem spans_heads (hr : r.InOrder) (hsplit : text.Splits p xs (c :: ys)) :
    r.Spans text p q ∧ q ≠ p ↔ ∃ h ∈ r.heads (text.junction p).1 (text.junction p).2,
      h.1.contains c = true ∧ h.2.Spans text (p + c.utf8Size) q := by
  have hp := hsplit.isBoundary
  have hpos := c.utf8Size_pos
  have hnext : text.Splits (p + c.utf8Size) (xs ++ [c]) ys := hsplit.next
  induction r generalizing q with
  | empty => simp [spans_empty, heads]
  | look l =>
    simp only [spans_look, heads, List.not_mem_nil, false_and, exists_false, iff_false, not_and,
      not_not]
    exact fun h => h.2.1
  | chars s =>
    simp only [heads, List.mem_singleton, exists_eq_left, spans_empty, hnext.isBoundary, true_and]
    constructor
    · rintro ⟨h, -⟩
      obtain ⟨xs', c', ys', ⟨hsplit', rfl⟩, hc⟩ := spans_chars.mp h
      obtain ⟨-, heq⟩ := hsplit.unique hsplit'
      cases heq
      exact ⟨hc, rfl⟩
    · rintro ⟨hc, rfl⟩
      exact ⟨spans_chars.mpr ⟨xs, c, ys, ⟨hsplit, rfl⟩, hc⟩, by omega⟩
  | seq a b iha ihb =>
    simp only [heads, List.mem_append, List.mem_map]
    constructor
    · rintro ⟨h, hne⟩
      obtain ⟨m, ha, hb⟩ := spans_seq.mp h
      by_cases hm : m = p
      · subst hm
        obtain ⟨h, hmem, hc, hrest⟩ := (ihb hr.2).mp ⟨hb, hne⟩
        rw [if_pos ((spans_self_iff hr.1 hp).mp ha)]
        exact ⟨h, .inr hmem, hc, hrest⟩
      · obtain ⟨h, hmem, hc, hrest⟩ := (iha hr.1).mp ⟨ha, hm⟩
        exact ⟨(h.1, h.2.cat b), .inl ⟨h, hmem, rfl⟩, hc, spans_cat.mpr ⟨m, hrest, hb⟩⟩
    · rintro ⟨_, ⟨h, hmem, rfl⟩ | hmem, hc, hrest⟩
      · obtain ⟨m, hrest, hb⟩ := spans_cat.mp hrest
        have hle := Nat.le_trans hrest.le hb.le
        exact ⟨spans_seq.mpr ⟨m, ((iha hr.1).mpr ⟨h, hmem, hc, hrest⟩).1, hb⟩, by omega⟩
      · split at hmem
        · rename_i hempty
          obtain ⟨hb, hne⟩ := (ihb hr.2).mpr ⟨_, hmem, hc, hrest⟩
          exact ⟨spans_seq.mpr ⟨p, (spans_self_iff hr.1 hp).mpr hempty, hb⟩, hne⟩
        · cases hmem
  | alt a b iha ihb =>
    simp only [spans_alt, heads, List.mem_append, or_and_right, exists_or]
    exact or_congr (iha hr.1) (ihb hr.2)
  | rep body least most ih =>
    rw [spans_rep_and_ne hr hp, heads]
    by_cases hroom : most = some 0
    · simp [hroom]
    · simp only [if_neg hroom, List.mem_map]
      constructor
      · rintro ⟨-, m, hleave, hrounds⟩
        obtain ⟨h, hmem, hc, hrest⟩ := (ih hr.2).mp hleave
        exact ⟨_, ⟨h, hmem, rfl⟩, hc, spans_cat.mpr ⟨m, hrest, hrounds⟩⟩
      · rintro ⟨_, ⟨h, hmem, rfl⟩, hc, hrest⟩
        obtain ⟨m, hrest, hrounds⟩ := spans_cat.mp hrest
        exact ⟨hroom, m, (ih hr.2).mpr ⟨h, hmem, hc, hrest⟩, hrounds⟩

end Regex

end Packrat
