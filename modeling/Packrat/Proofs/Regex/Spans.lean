import Packrat.Proofs.Regex.Empty
import Packrat.Proofs.Text.Position
import Packrat.Proofs.Unicode.CharSet

/-!
# Where expressions match in a text

An expression that is anchored at an offset of a text can match up to some other offsets, with the
looks in it asking about the whole text. The lemmas here tell these offsets from the parts of the
expression: those of a sequence are found part by part, those of alternatives are those of each, and
those of a repetition are found in as many rounds as its bounds allow.
-/

namespace Packrat

namespace Neighbour

/-- In front of what follows some characters stands the last of them, or what stood in front if
there are none. -/
theorem of_append (xs ys : List Char) : of (xs ++ ys).getLast? = past (of xs.getLast?) ys := by
  rw [List.getLast?_append, past]
  cases ys.getLast? <;> rfl

/-- Behind what precedes some characters stands the first of them, or what stood behind if there are
none. -/
theorem of_head?_append (xs ys : List Char) : of (xs ++ ys).head? = ahead xs (of ys.head?) := by
  cases xs <;> rfl

end Neighbour

namespace Text

variable {t : Text} {p q m : Nat} {xs ys xs' ys' : List Char}

/-- An offset divides a text in one way. -/
theorem Splits.unique (h : t.Splits p xs ys) (h' : t.Splits p xs' ys') : xs = xs' ∧ ys = ys' := by
  obtain ⟨ws, rfl, rfl, hlength⟩ := h.exists_between h' (Nat.le_refl p)
  obtain rfl : ws = [] := utf8Length_eq_zero.mp (by omega)
  simp

/-- Behind a character lies the next offset. -/
theorem Splits.next {c : Char} (h : t.Splits p xs (c :: ys)) :
    t.Splits (p + c.utf8Size) (xs ++ [c]) ys := by
  rw [← List.singleton_append] at h
  exact h.advance

/-- Whether some characters of a text lie between two offsets, with others before and behind. -/
def Parts (t : Text) (p q : Nat) (xs w ys : List Char) : Prop :=
  t.Splits p xs (w ++ ys) ∧ q = p + utf8Length w

/-- Characters between two offsets and more up to a third lie between the first and the third. -/
theorem Parts.append {v w : List Char} (h : t.Parts p m xs v (w ++ ys))
    (h' : t.Parts m q (xs ++ v) w ys) : t.Parts p q xs (v ++ w) ys := by
  obtain ⟨hsplit, rfl⟩ := h
  obtain ⟨-, rfl⟩ := h'
  exact ⟨by rwa [List.append_assoc], by rw [utf8Length_append, Nat.add_assoc]⟩

/-- Characters between two offsets can be parted anywhere, with an offset in between. -/
theorem Parts.split {v w : List Char} (h : t.Parts p q xs (v ++ w) ys) :
    t.Parts p (p + utf8Length v) xs v (w ++ ys) ∧
      t.Parts (p + utf8Length v) q (xs ++ v) w ys := by
  obtain ⟨hsplit, rfl⟩ := h
  rw [List.append_assoc] at hsplit
  exact ⟨⟨hsplit, rfl⟩, hsplit.advance, by rw [utf8Length_append, Nat.add_assoc]⟩

/-- Parts that meet are neighbours. -/
theorem Parts.meet {v w zs zs' : List Char} (h : t.Parts p m xs v zs)
    (h' : t.Parts m q zs' w ys) : zs' = xs ++ v ∧ zs = w ++ ys := by
  obtain ⟨hsplit, rfl⟩ := h
  exact (hsplit.advance.unique h'.1).imp_left Eq.symm

/-- Whether an offset is reached from another in `n` steps of a relation between offsets. -/
def Steps (t : Text) (R : Nat → Nat → Prop) : Nat → Nat → Nat → Prop
  | 0, p, q => t.isBoundary p = true ∧ q = p
  | n + 1, p, q => ∃ m, R p m ∧ t.Steps R n m q

/-- Equivalent relations make the same steps. -/
theorem steps_congr {R S : Nat → Nat → Prop} (h : ∀ p q, R p q ↔ S p q) {n : Nat} :
    t.Steps R n p q ↔ t.Steps S n p q := by
  induction n generalizing p with
  | zero => rfl
  | succ n ih => simp only [Steps, h, ih]

/-- A single step is one of the relation. -/
theorem steps_one {R : Nat → Nat → Prop} (hR : ∀ p q, R p q → t.isBoundary q = true) :
    t.Steps R 1 p q ↔ R p q := by
  constructor
  · rintro ⟨m, h, -, rfl⟩
    exact h
  · intro h
    exact ⟨q, h, hR p q h, rfl⟩

end Text

namespace Regex

variable {a b r : Regex} {rs : List Regex} {text : Text} {p q least : Nat}
  {most : Option Nat}

/-- Whether an expression that is anchored at an offset of a text can match up to another one. -/
def Spans (r : Regex) (text : Text) (p q : Nat) : Prop :=
  ∃ xs w ys, text.Parts p q xs w ys ∧ r.Matches (.of xs.getLast?) w (.of ys.head?)

/-- The empty expression matches at boundaries and goes no further. -/
theorem spans_empty : empty.Spans text p q ↔ text.isBoundary p = true ∧ q = p := by
  constructor
  · rintro ⟨xs, w, ys, ⟨hsplit, rfl⟩, hmatches⟩
    cases hmatches
    exact ⟨hsplit.isBoundary, rfl⟩
  · rintro ⟨hboundary, rfl⟩
    obtain ⟨xs, ys, hsplit⟩ := Text.isBoundary_iff.mp hboundary
    exact ⟨xs, [], ys, ⟨hsplit, rfl⟩, .empty⟩

/-- A set matches one of its characters. -/
theorem spans_chars {s : CharSet} : (chars s).Spans text p q ↔
    ∃ xs c ys, text.Parts p q xs [c] ys ∧ s.contains c = true := by
  constructor
  · rintro ⟨xs, w, ys, hparts, hmatches⟩
    cases hmatches
    exact ⟨xs, _, ys, hparts, ‹_›⟩
  · rintro ⟨xs, c, ys, hparts, hc⟩
    exact ⟨xs, [c], ys, hparts, .chars hc⟩

/-- One expression after another matches by way of an offset in between. -/
theorem spans_seq : (seq a b).Spans text p q ↔ ∃ m, a.Spans text p m ∧ b.Spans text m q := by
  constructor
  · rintro ⟨xs, _, ys, hparts, hmatches⟩
    cases hmatches with
    | @seq _ _ u v _ _ hfirst hsecond =>
      obtain ⟨hu, hv⟩ := hparts.split
      rw [← Neighbour.of_head?_append] at hfirst
      rw [← Neighbour.of_append] at hsecond
      exact ⟨_, ⟨xs, u, v ++ ys, hu, hfirst⟩, xs ++ u, v, ys, hv, hsecond⟩
  · rintro ⟨m, ⟨xs, u, _, hu, hfirst⟩, _, v, ys, hv, hsecond⟩
    obtain ⟨rfl, rfl⟩ := hu.meet hv
    rw [Neighbour.of_head?_append] at hfirst
    rw [Neighbour.of_append] at hsecond
    exact ⟨xs, u ++ v, ys, hu.append hv, .seq hfirst hsecond⟩

/-- Of two alternatives, each matches where it does. -/
theorem spans_alt : (alt a b).Spans text p q ↔ a.Spans text p q ∨ b.Spans text p q := by
  constructor
  · rintro ⟨xs, w, ys, hparts, hmatches⟩
    cases hmatches with
    | left h => exact .inl ⟨xs, w, ys, hparts, h⟩
    | right h => exact .inr ⟨xs, w, ys, hparts, h⟩
  · rintro (⟨xs, w, ys, hparts, h⟩ | ⟨xs, w, ys, hparts, h⟩)
    · exact ⟨xs, w, ys, hparts, .left h⟩
    · exact ⟨xs, w, ys, hparts, .right h⟩

/-- A match begins and ends between characters. -/
theorem Spans.isBoundary (h : r.Spans text p q) :
    text.isBoundary p = true ∧ text.isBoundary q = true := by
  obtain ⟨xs, w, ys, ⟨hsplit, rfl⟩, -⟩ := h
  exact ⟨hsplit.isBoundary, hsplit.advance.isBoundary⟩

/-- To match nothing first makes no difference. -/
theorem exists_empty_spans : (∃ m, empty.Spans text p m ∧ r.Spans text m q) ↔ r.Spans text p q := by
  constructor
  · rintro ⟨m, hempty, h⟩
    obtain ⟨-, rfl⟩ := spans_empty.mp hempty
    exact h
  · intro h
    exact ⟨p, spans_empty.mpr ⟨h.isBoundary.1, rfl⟩, h⟩

/-- To match nothing last makes no difference. -/
theorem exists_spans_empty : (∃ m, r.Spans text p m ∧ empty.Spans text m q) ↔ r.Spans text p q := by
  constructor
  · rintro ⟨m, h, hempty⟩
    obtain ⟨-, rfl⟩ := spans_empty.mp hempty
    exact h
  · intro h
    exact ⟨q, h, spans_empty.mpr ⟨h.isBoundary.2, rfl⟩⟩

/-- Expressions that are joined match one after the other, also where an empty one is left out. -/
theorem spans_cat : (a.cat b).Spans text p q ↔ ∃ m, a.Spans text p m ∧ b.Spans text m q := by
  unfold cat
  split
  · exact exists_empty_spans.symm
  · exact exists_spans_empty.symm
  · exact spans_seq

/-- An iteration is one match and an iteration that is shorter by one. -/
theorem spans_more (hmax : most ≠ some 0) (hfirst : ∃ m, r.Spans text p m ∧
    (rep r (least - 1) (most.map (· - 1))).Spans text m q) : (rep r least most).Spans text p q := by
  obtain ⟨m, ⟨xs, u, _, hu, hfirst⟩, _, v, ys, hv, hrest⟩ := hfirst
  obtain ⟨rfl, rfl⟩ := hu.meet hv
  rw [Neighbour.of_head?_append] at hfirst
  rw [Neighbour.of_append] at hrest
  exact ⟨xs, u ++ v, ys, hu.append hv, .more hmax hfirst hrest⟩

/-- A repetition is matched in as many steps as its bounds allow. -/
theorem spans_rep : (rep r least most).Spans text p q ↔
    ∃ n, least ≤ n ∧ (∀ m ∈ most, n ≤ m) ∧ text.Steps (r.Spans text) n p q := by
  constructor
  · rintro ⟨xs, w, ys, hparts, hmatches⟩
    generalize hrep : rep r least most = whole at hmatches
    generalize hbefore : Neighbour.of xs.getLast? = before at hmatches
    generalize hafter : Neighbour.of ys.head? = after at hmatches
    -- the steps follow the derivation of the match
    induction hmatches generalizing least most xs p with
    | done =>
      cases hrep
      obtain ⟨hsplit, rfl⟩ := hparts
      exact ⟨0, Nat.le_refl 0, fun _ _ => Nat.zero_le _, hsplit.isBoundary, rfl⟩
    | @more _ _ _ u v _ _ hroom hfirst _ _ ih =>
      cases hrep
      subst hbefore hafter
      obtain ⟨hu, hv⟩ := hparts.split
      rw [← Neighbour.of_head?_append] at hfirst
      obtain ⟨n, hleast, hmost, hsteps⟩ := ih (xs ++ u) hv rfl (Neighbour.of_append xs u) rfl
      refine ⟨n + 1, by omega, fun m hm => ?_, _, ⟨xs, u, v ++ ys, hu, hfirst⟩, hsteps⟩
      obtain rfl := Option.mem_def.mp hm
      have hle := hmost (m - 1) rfl
      have hpos : m ≠ 0 := fun h => hroom (by rw [h])
      omega
    | _ => cases hrep
  · rintro ⟨n, hleast, hmost, hsteps⟩
    induction n generalizing least most p with
    | zero =>
      obtain rfl := Nat.le_zero.mp hleast
      obtain ⟨hboundary, rfl⟩ := hsteps
      obtain ⟨xs, ys, hsplit⟩ := Text.isBoundary_iff.mp hboundary
      exact ⟨xs, [], ys, ⟨hsplit, rfl⟩, .done⟩
    | succ n ih =>
      obtain ⟨m, hfirst, hsteps⟩ := hsteps
      refine spans_more ?_ ⟨m, hfirst, ih (by omega) ?_ hsteps⟩
      · rintro rfl
        exact absurd (hmost 0 rfl) (by omega)
      · intro k hk
        obtain ⟨j, hj, rfl⟩ := Option.map_eq_some_iff.mp hk
        have hle := hmost j hj
        omega

/-- A repetition matches in as many rounds as its bounds allow, if the bounds are in order. -/
theorem spans_repeated (hbounds : ∀ m ∈ most, least ≤ m) : (r.repeated least most).Spans text p q ↔
    ∃ n, least ≤ n ∧ (∀ m ∈ most, n ≤ m) ∧ text.Steps (r.Spans text) n p q := by
  unfold repeated
  split
  · rename_i hmax
    subst hmax
    obtain rfl := Nat.le_zero.mp (hbounds 0 rfl)
    simp only [spans_empty, Option.mem_some_iff, forall_eq', Nat.zero_le, true_and,
      Nat.le_zero, exists_eq_left, Text.Steps]
  · split
    · rename_i hone
      obtain ⟨rfl, rfl⟩ := hone
      have hsingle : ∀ n, 1 ≤ n ∧ (∀ m ∈ some 1, n ≤ m) ↔ n = 1 := by
        intro n
        simp only [Option.mem_some_iff, forall_eq']
        omega
      simp only [← and_assoc, hsingle, exists_eq_left,
        Text.steps_one (R := r.Spans text) fun _ _ h => h.isBoundary.2]
    · exact spans_rep

/-- Alternatives that are joined into one set are sets. -/
theorem of_charSets? {sets : List CharSet} (h : charSets? rs = some sets) :
    rs = sets.map chars := by
  induction rs generalizing sets with
  | nil =>
    cases h
    rfl
  | cons r rs ih =>
    cases r with
    | chars s =>
      obtain ⟨sets, hsets, rfl⟩ := Option.map_eq_some_iff.mp h
      rw [List.map_cons, ih hsets]
    | _ => cases h

/-- Alternatives that join are sets of characters, and all of them are in what they join into. -/
theorem of_joined? {set : CharSet} (h : joined? rs = some set) :
    ∃ sets, rs = sets.map chars ∧ set = .unions sets := by
  obtain ⟨sets, hsets, h⟩ := Option.bind_eq_some_iff.mp h
  split at h
  · cases h
    exact ⟨sets, of_charSets? hsets, rfl⟩
  · cases h

/-- One of several alternatives matches. -/
theorem spans_alternatives : (alternatives r rs).Spans text p q ↔
    ∃ x ∈ r :: rs, x.Spans text p q := by
  induction rs generalizing r with
  | nil => simp [alternatives]
  | cons s rs ih => simp [alternatives, spans_alt, ih]

/-- A choice matches what one of its members does, also where sets are joined. -/
theorem spans_choice : (choice rs).Spans text p q ↔ ∃ x ∈ rs, x.Spans text p q := by
  unfold choice
  split
  · rename_i set hset
    obtain ⟨sets, rfl, rfl⟩ := of_joined? hset
    simp only [List.mem_map, exists_exists_and_eq_and, spans_chars, CharSet.contains_unions]
    constructor
    · rintro ⟨xs, c, ys, hparts, s, hs, hc⟩
      exact ⟨s, hs, xs, c, ys, hparts, hc⟩
    · rintro ⟨s, hs, xs, c, ys, hparts, hc⟩
      exact ⟨xs, c, ys, hparts, s, hs, hc⟩
  · split
    · exact spans_alternatives
    · simp [spans_chars, CharSet.empty, CharSet.contains]

/-- An alternation matches what one of its members does. -/
theorem spans_alternation : (alternation rs).Spans text p q ↔ ∃ x ∈ rs, x.Spans text p q := by
  unfold alternation
  split
  · simp
  · exact spans_choice

/-- A sequence matches its first member and the rest behind it. -/
theorem spans_sequence_cons :
    (sequence (r :: rs)).Spans text p q ↔ ∃ m, r.Spans text p m ∧ (sequence rs).Spans text m q :=
  spans_cat

/-- A literal is matched where it stands. -/
theorem spans_literal {cs : List Char} :
    (sequence (cs.map fun c => chars (.singleton c))).Spans text p q ↔
      ∃ xs ys, text.Parts p q xs cs ys := by
  induction cs generalizing p with
  | nil =>
    constructor
    · rintro ⟨xs, w, ys, hparts, hmatches⟩
      cases hmatches
      exact ⟨xs, ys, hparts⟩
    · rintro ⟨xs, ys, hparts⟩
      exact ⟨xs, [], ys, hparts, .empty⟩
  | cons c cs ih =>
    rw [List.map_cons, spans_sequence_cons]
    simp only [ih, spans_chars, CharSet.contains_singleton]
    constructor
    · rintro ⟨m, ⟨xs, _, _, hc, rfl⟩, _, ys, hcs⟩
      obtain ⟨rfl, rfl⟩ := hc.meet hcs
      exact ⟨xs, ys, hc.append hcs⟩
    · rintro ⟨xs, ys, hparts⟩
      obtain ⟨hc, hcs⟩ := Text.Parts.split (v := [c]) hparts
      exact ⟨_, ⟨xs, c, cs ++ ys, hc, rfl⟩, xs ++ [c], ys, hcs⟩

end Regex

end Packrat
