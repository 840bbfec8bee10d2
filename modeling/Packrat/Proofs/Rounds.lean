import Packrat.Proofs.Lossless
import Packrat.Proofs.Parse.Anchored
import Packrat.Proofs.Parse.Events
import Packrat.Proofs.Parse.Log
import Packrat.Proofs.Program.Computed

/-!
# Rounds come to an end

Every round but the last one tells a new error point, and all error points are boundaries of the
text, so there are at most two rounds more than characters. The trace of a parse tells of exactly
these rounds; a parse that is not traced has the same.
-/

/-!
## What parses start from

A parse starts from no results, or from those of an earlier parse that an edit carries over. Both
fit the text and stand at its boundaries, whatever programs, options and edits led to them.
-/

namespace Packrat

variable {among : Program → Prop}

/-- The results that a parse of a text may start from, where earlier parses were by some
programs. -/
inductive Results.Carried (among : Program → Prop) : Results → (text : String) → Prop
  | fresh {text} : Carried among {} text
  | edited {old before after} {edit : Edit} (hold : Produced among old before)
      (happly : edit.apply (.ofString before) = .ok after) :
      Carried among (edit.carryOver old.results) after

namespace Produced

variable {r : Parsed} {text : String}

/-- The results of parses, and of parses of edited texts, stand at boundaries. -/
theorem anchored (h : Produced among r text) : r.results.Anchored (.ofString text) := by
  have hparse : ∀ (p : Program) (o : ParseOptions) (known : Results) (traced : Bool) (text : Text),
      Results.Fit text known → known.Anchored text →
        (p.parseWith o known traced text).results.Anchored text := by
    intro p o known traced text hfits hknown
    obtain ⟨a, points, s, hrounds, heq⟩ := p.exists_rounds o known traced text
    rw [heq]
    have hstart : (o.startState known traced).memo.Fits text (roundSetting p o text []).points :=
      ⟨hfits, by simp [ParseOptions.startState]⟩
    exact (hrounds.anchored hstart (Memo.anchored_of_strict hknown)).2.strict
  have hnone : ∀ text : Text, Results.Fit text {} ∧ Results.Anchored text {} := by
    simp [Results.Fit, Results.Anchored]
  induction h with
  | @parse p o text => exact hparse p o {} false _ (hnone _).1 (hnone _).2
  | @traced p o text => exact hparse p o {} true _ (hnone _).1 (hnone _).2
  | @reparse p o old new before after edit hp hold happly hsize hnew ih =>
    obtain ⟨text, htext, rfl⟩ := Program.reparse_eq_ok.mp hnew
    rw [hold.text_eq, happly] at htext
    cases htext
    split
    · exact hparse p o _ false _ (hold.fits.2.carryOver happly hold.size_lt)
        (ih.carryOver hold.fits.2 happly hold.size_lt)
    · exact hparse p o {} false _ (hnone _).1 (hnone _).2

end Produced

namespace Results.Carried

variable {known : Results} {text : String}

/-- Results that are carried over to a text fit it. -/
theorem fit (h : known.Carried among text) : Results.Fit (.ofString text) known := by
  cases h with
  | fresh => simp [Results.Fit]
  | edited hold happly => exact hold.fits.2.carryOver happly hold.size_lt

/-- Results that are carried over to a text failed at its boundaries. -/
theorem anchored (h : known.Carried among text) : known.Anchored (.ofString text) := by
  cases h with
  | fresh => simp [Results.Anchored]
  | edited hold happly => exact hold.anchored.carryOver hold.fits.2 happly hold.size_lt

/-- So a parse of an edited text starts. -/
theorem reparse {p : Program} {o : ParseOptions} {old new : Parsed} {before : String} {edit : Edit}
    (hold : Produced among old before) (happly : edit.apply (.ofString before) = .ok text)
    (hnew : p.reparse o old edit = .ok new) :
    ∃ known : Results, known.Carried among text ∧
      new = p.parseWith o known false (.ofString text) := by
  obtain ⟨text', htext, rfl⟩ := Program.reparse_eq_ok.mp hnew
  rw [hold.text_eq, happly] at htext
  cases htext
  refine ⟨_, ?_, rfl⟩
  split
  · exact .edited hold happly
  · exact .fresh

/-- What a parse starts from fits the text and stands at its boundaries. -/
theorem startState (h : known.Carried among text) (o : ParseOptions) (traced : Bool)
    (points : List Nat) :
    (o.startState known traced).memo.Fits (.ofString text) points ∧
      (o.startState known traced).memo.Anchored (.ofString text) :=
  ⟨⟨h.fit, by simp [ParseOptions.startState]⟩, Memo.anchored_of_strict h.anchored⟩

end Results.Carried

end Packrat

/-! ## Error points and rounds -/

namespace Packrat

namespace Text

/-- Every boundary is among the offsets between characters. -/
theorem mem_boundariesFrom (xs ys : List Char) (start : Nat) :
    start + utf8Length xs ∈ boundariesFrom start (xs ++ ys) := by
  induction xs generalizing start with
  | nil => cases ys <;> simp [boundariesFrom]
  | cons c xs ih =>
    rw [List.cons_append, boundariesFrom, utf8Length_cons, ← Nat.add_assoc]
    exact List.mem_cons_of_mem _ (ih (start + c.utf8Size))

/-- No character is empty. -/
theorem length_le_utf8Length (cs : List Char) : cs.length ≤ utf8Length cs := by
  induction cs with
  | nil => exact Nat.le_refl _
  | cons c cs ih =>
    have hpos := c.utf8Size_pos
    rw [List.length_cons, utf8Length_cons]
    omega

/-- Some characters have one boundary more than there are of them. -/
theorem length_boundariesFrom (start : Nat) (cs : List Char) :
    (boundariesFrom start cs).length = cs.length + 1 := by
  induction cs generalizing start with
  | nil => rfl
  | cons c cs ih => rw [boundariesFrom, List.length_cons, ih, List.length_cons]

/-- Different boundaries are at most one more than characters. -/
theorem length_le_of_nodup {text : Text} {points : List Nat} (hnodup : points.Nodup)
    (hpoints : ∀ q ∈ points, text.isBoundary q = true) :
    points.length ≤ text.chars.length + 1 := by
  have hsubset : points ⊆ text.boundaries := by
    intro q hq
    obtain ⟨xs, ys, hchars, rfl⟩ := isBoundary_iff.mp (hpoints q hq)
    have hmem := mem_boundariesFrom xs ys 0
    rwa [Nat.zero_add, ← hchars] at hmem
  exact length_boundariesFrom 0 text.chars ▸ hnodup.length_le_of_subset hsubset

end Text

/-- The number and the error points of a round, if an event tells of one. -/
def Event.round? : Event → Option (Nat × List Nat)
  | round number points => some (number, points)
  | _ => none

/-- The rounds that a trace tells of. -/
def Parsed.rounds (r : Parsed) : List (Nat × List Nat) := r.log.filterMap Event.round?

namespace State

/-- The rounds so far, the latest first, if events are asked for. -/
def rounds (s : State) : Option (List (Nat × List Nat)) := s.log.map (·.filterMap Event.round?)

/-- When a round begins, the trace tells of one round more. -/
theorem rounds_record_round (number : Nat) (points : List Nat) (s : State) :
    (s.record (.round number points)).rounds = s.rounds.map ((number, points) :: ·) := by
  obtain ⟨memo, fuel, patience, halted, _ | log⟩ := s <;> rfl

/-- No run begins a round. -/
theorem Appends.rounds_eq {text : Text} {s s' : State} (h : s.Appends text s') :
    s'.rounds = s.rounds := by
  obtain ⟨new, hlog, hnew⟩ := h
  have hnone : new.filterMap Event.round? = [] := by
    refine List.filterMap_eq_nil_iff.mpr fun e he => ?_
    cases e with
    | round number points => exact (hnew _ he).elim
    | _ => rfl
  rw [rounds, rounds, hlog, Option.map_map]
  congr 1
  funext log
  simp [hnone]

end State

section

variable {p : Program} {o : ParseOptions} {text : Text} {left number : Nat}
  {points points' : List Nat} {s s' : State} {a : Answer}

/-- The number and the error points of the rounds from the one of a number with some error points
on, where the last one has certain points. -/
def roundsTo (points : List Nat) (number start : Nat) : List (Nat × List Nat) :=
  (List.range (points.length - start + 1)).map fun i =>
    (number + i, (points.take (start + i)).mergeSort)

/-- Where no further point is found, the round is the only one. -/
theorem roundsTo_self (points : List Nat) (number : Nat) :
    roundsTo points number points.length = [(number, points.mergeSort)] := by
  simp [roundsTo]

/-- There are rounds for all points that are told. -/
theorem roundsTo_next {start : Nat} (h : start < points.length) :
    roundsTo points number start =
      (number, (points.take start).mergeSort) :: roundsTo points (number + 1) (start + 1) := by
  have hcount : points.length - start + 1 = (points.length - (start + 1) + 1) + 1 := by omega
  rw [roundsTo, hcount, List.range_succ_eq_map, List.map_cons, List.map_map]
  simp only [roundsTo, Nat.add_zero, List.cons.injEq, true_and]
  refine List.map_congr_left fun i _ => ?_
  have hnumber : number + (i + 1) = number + 1 + i := by omega
  have hcount : start + (i + 1) = start + 1 + i := by omega
  rw [Function.comp_apply, Nat.succ_eq_add_one, hnumber, hcount]

/-- A round begins, and nothing else is told of rounds until it ends. -/
theorem runRound_rounds
    (h : runRound (roundSetting p o text points) o.recursionLimit
      (s.record (.round number (roundSetting p o text points).points)) = (a, s'))
    (hfits : s.memo.Fits text (roundSetting p o text points).points) :
    s'.rounds = s.rounds.map ((number, points.mergeSort) :: ·) :=
  (runRound_appends h hfits).rounds_eq.trans (State.rounds_record_round _ _ _)

/-- The rounds that are logged are those of the points that are told. -/
theorem Rounds.rounds (h : Rounds p o text left number points s a points' s')
    (hfits : s.memo.Fits text (roundSetting p o text points).points) :
    s'.rounds = s.rounds.map ((roundsTo points' number points.length).reverse ++ ·) := by
  induction h with
  | last round final =>
    rw [runRound_rounds round hfits, roundsTo_self]
    rfl
  | @next left number points s a s₁ point a' points' s' round more rest ih =>
    obtain ⟨others, hothers⟩ := rest.prefix_points
    have hlt : points.length < points'.length := by
      rw [← hothers]
      simp only [List.length_append, List.length_singleton]
      omega
    have htake : points'.take points.length = points := by
      rw [← hothers, List.append_assoc, List.take_left]
    have hsettle : s₁.settle.rounds = s₁.rounds := rfl
    rw [ih ((runRound_fits round hfits).2.settle _), hsettle, runRound_rounds round hfits,
      roundsTo_next hlt, htake, List.length_append, List.length_singleton, Option.map_map]
    congr 1
    funext l
    simp

/-- A round that fits tells a boundary as a point. -/
theorem Answer.isBoundary_point (ha : a.Anchored text)
    (htiles : ∀ t, a.taken = some t → Tree.TilesAll text t.trees 0 t.stop) :
    text.isBoundary a.point = true := by
  have hfrontier : text.isBoundary (a.notes.frontier.getD 0) = true := by
    cases hq : a.notes.frontier with
    | none => exact text.isBoundary_zero
    | some q => exact ha.notes.frontier q hq
  have hstop : text.isBoundary ((a.taken.map (·.stop)).getD 0) = true := by
    cases ht : a.taken with
    | none => exact text.isBoundary_zero
    | some t => exact Tree.TilesAll.isBoundary text.isBoundary_zero _ (htiles t ht)
  rcases Nat.le_total (a.notes.frontier.getD 0) ((a.taken.map (·.stop)).getD 0) with hle | hle
  · rwa [Answer.point, Nat.max_eq_right hle]
  · rwa [Answer.point, Nat.max_eq_left hle]

/-- What holds of error points: they are different boundaries. -/
structure PointsIn (text : Text) (points : List Nat) : Prop where
  nodup : points.Nodup
  boundary : ∀ q ∈ points, text.isBoundary q = true

/-- No error points are boundaries of every text. -/
theorem PointsIn.nil (text : Text) : PointsIn text [] := ⟨.nil, nofun⟩

/-- A round that is not the last one tells one more such point. -/
theorem PointsIn.next {s₁ : State} {point : Nat} (h : PointsIn text points)
    (hfits : s.memo.Fits text (roundSetting p o text points).points)
    (hmemo : s.memo.Anchored text)
    (round : runRound (roundSetting p o text points) o.recursionLimit
      (s.record (.round number (roundSetting p o text points).points)) = (a, s₁))
    (more : nextPoint? o text points number a s₁ = some point) :
    PointsIn text (points ++ [point]) := by
  obtain ⟨rfl, hnew, -, -⟩ := of_nextPoint? more
  have ha := (runRound_anchored round hfits hmemo).1
  have htiles := (runRound_fits round hfits).1
  refine ⟨List.nodup_append.mpr ⟨h.nodup, by simp, ?_⟩, fun q hq => ?_⟩
  · rintro q hq _ hpoint rfl
    exact hnew (List.mem_singleton.mp hpoint ▸ hq)
  · rcases List.mem_append.mp hq with hq | hq
    · exact h.boundary q hq
    · exact List.mem_singleton.mp hq ▸ Answer.isBoundary_point ha htiles

/-- Once all boundaries were told, the next round is the last one. -/
theorem PointsIn.nextPoint?_eq_none {s₁ : State} (h : PointsIn text points)
    (hfits : s.memo.Fits text (roundSetting p o text points).points)
    (hmemo : s.memo.Anchored text)
    (round : runRound (roundSetting p o text points) o.recursionLimit
      (s.record (.round number (roundSetting p o text points).points)) = (a, s₁))
    (hall : text.chars.length + 1 ≤ points.length) :
    nextPoint? o text points number a s₁ = none := by
  cases hnext : nextPoint? o text points number a s₁ with
  | none => rfl
  | some point =>
    have hnew := h.next hfits hmemo round hnext
    have hle := Text.length_le_of_nodup hnew.nodup hnew.boundary
    rw [List.length_append, List.length_singleton] at hle
    omega

/-- All error points of a parse are distinct boundaries of the text. -/
theorem Rounds.pointsIn (h : Rounds p o text left number points s a points' s')
    (hpoints : PointsIn text points)
    (hfits : s.memo.Fits text (roundSetting p o text points).points)
    (hmemo : s.memo.Anchored text) : PointsIn text points' := by
  induction h with
  | last => exact hpoints
  | next round more rest ih =>
    exact ih (hpoints.next hfits hmemo round more) ((runRound_fits round hfits).2.settle _)
      (runRound_anchored round hfits hmemo).2.settle

/-- Only a round of a number below the limit is followed by another one. -/
theorem Rounds.length_le {n : Nat} (h : Rounds p o text left number points s a points' s')
    (hlimit : o.maxRounds = some n) (hnumber : number = points.length + 1)
    (hle : number ≤ max n 1) : points'.length + 1 ≤ max n 1 := by
  induction h with
  | last => omega
  | @next left number points s a s₁ point a' points' s' round more rest ih =>
    have hlt : ¬ n ≤ number := by
      intro hmax
      simp [nextPoint?, hlimit, hmax] at more
    refine ih ?_ (by omega)
    rw [List.length_append, List.length_singleton, hnumber]

/-- Rounds do not depend on how many of them are allowed for if it is more than there are boundaries
left. -/
theorem Rounds.enough {more : Nat} (h : Rounds p o text left number points s a points' s')
    (hpoints : PointsIn text points)
    (hfits : s.memo.Fits text (roundSetting p o text points).points)
    (hmemo : s.memo.Anchored text) (hleft : text.chars.length + 1 ≤ points.length + left)
    (hmore : text.chars.length + 1 ≤ points.length + more) :
    Rounds p o text more number points s a points' s' := by
  induction h generalizing more with
  | last round final =>
    refine .last round (.inr ?_)
    rcases final with rfl | final
    · exact hpoints.nextPoint?_eq_none hfits hmemo round (by omega)
    · exact final
  | next round tells rest ih =>
    cases more with
    | zero =>
      have hlast := hpoints.nextPoint?_eq_none hfits hmemo round (by omega)
      rw [hlast] at tells
      cases tells
    | succ more =>
      refine .next round tells (ih (hpoints.next hfits hmemo round tells)
        ((runRound_fits round hfits).2.settle _) (runRound_anchored round hfits hmemo).2.settle
        ?_ ?_) <;>
      · rw [List.length_append, List.length_singleton]
        omega

/-- A round comes to the same whatever is logged. -/
theorem exists_runRound_withLog
    (h : runRound (roundSetting p o text points) o.recursionLimit
      (s.record (.round number (roundSetting p o text points).points)) = (a, s'))
    (hfits : s.memo.Fits text (roundSetting p o text points).points)
    (log : Option (List Event)) :
    ∃ log', runRound (roundSetting p o text points) o.recursionLimit
      ((s.withLog log).record (.round number (roundSetting p o text points).points)) =
        (a, s'.withLog log') := by
  obtain ⟨a₀, hrun, ha⟩ := runRound_eq.mp h
  obtain ⟨new, -, hlogs⟩ := hrun.logs text.isBoundary_zero hfits
  have hround : (s.withLog log).record (.round number (roundSetting p o text points).points) =
      (s.record (.round number (roundSetting p o text points).points)).withLog
        (log.map (.round number (roundSetting p o text points).points :: ·)) := rfl
  rw [hround]
  exact ⟨_, runRound_eq.mpr ⟨a₀, hlogs _, ha⟩⟩

/-- Rounds come to the same whatever is logged. -/
theorem Rounds.exists_withLog (h : Rounds p o text left number points s a points' s')
    (hfits : s.memo.Fits text (roundSetting p o text points).points)
    (log : Option (List Event)) :
    ∃ log', Rounds p o text left number points (s.withLog log) a points' (s'.withLog log') := by
  induction h generalizing log with
  | last round final =>
    obtain ⟨log', hsame⟩ := exists_runRound_withLog round hfits log
    exact ⟨log', .last hsame final⟩
  | next round more rest ih =>
    obtain ⟨log₁, hsame⟩ := exists_runRound_withLog round hfits log
    obtain ⟨log', hrest⟩ := ih ((runRound_fits round hfits).2.settle _) log₁
    exact ⟨log', .next hsame more hrest⟩

end

/-- The end of a parse begins no round. -/
theorem takenInFull_rounds (c : Setting) (a : Answer) (s : State) :
    (takenInFull c a s).2.rounds = s.rounds := by
  simp only [takenInFull]
  split
  · obtain ⟨memo, fuel, patience, halted, _ | log⟩ := s <;> rfl
  · rfl

/-- A trace tells of the rounds for the points that are told. -/
theorem Program.rounds_parseWith (p : Program) (o : ParseOptions) {known : Results} {text : Text}
    (hknown : Results.Fit text known) :
    (p.parseWith o known true text).rounds =
      roundsTo (p.parseWith o known true text).points 1 0 := by
  obtain ⟨a, points, s, hrounds, heq⟩ := p.exists_rounds o known true text
  obtain ⟨s', hs'⟩ : ∃ s', s' = (takenInFull (roundSetting p o text points) a s).2 := ⟨_, rfl⟩
  have hlogged : s'.rounds = some (roundsTo points 1 0).reverse := by
    rw [hs', takenInFull_rounds, hrounds.rounds ⟨hknown, by simp [ParseOptions.startState]⟩]
    simp [State.rounds, ParseOptions.startState]
  obtain ⟨log, hlog, hfilter⟩ := Option.map_eq_some_iff.mp hlogged
  rw [heq, ← hs', Parsed.rounds, hlog, Option.getD_some, List.filterMap_reverse, hfilter,
    List.reverse_reverse]

/-- Tracing changes no error points. -/
theorem Program.points_parseWith (p : Program) (o : ParseOptions) {known : Results} {text : Text}
    (hknown : Results.Fit text known) (traced : Bool) :
    (p.parseWith o known true text).points = (p.parseWith o known traced text).points := by
  obtain ⟨a, points, s, hrounds, heq⟩ := p.exists_rounds o known traced text
  obtain ⟨a', points', s', hrounds', heq'⟩ := p.exists_rounds o known true text
  obtain ⟨log, hsame⟩ :=
    hrounds.exists_withLog ⟨hknown, by simp [ParseOptions.startState]⟩ (some [])
  have hpoints : points' = points :=
    congrArg (·.1.2) (hrounds'.eq_runRounds.symm.trans hsame.eq_runRounds)
  rw [heq, heq', hpoints]

variable {among : Program → Prop} {known : Results} {text : String}

/-- The rounds of a parse come to an end by themselves. All of them but the last one tell a new
error point, which is a boundary of the text, so there are at most two rounds more than characters,
and no more than are allowed. A trace tells of just these rounds, and to run them with room for more
makes no difference. -/
theorem Results.Carried.rounds_end (hknown : known.Carried among text) (p : Program)
    (o : ParseOptions) (traced : Bool) :
    let r := p.parseWith o known traced (.ofString text)
    let t := p.parseWith o known true (.ofString text)
    (r.points.Nodup ∧ ∀ q ∈ r.points,
      (Text.ofString text).isBoundary q = true ∧ q ≤ text.utf8ByteSize) ∧
    (t.points = r.points ∧ t.rounds = (List.range (r.points.length + 1)).map fun i =>
      (i + 1, (r.points.take i).mergeSort)) ∧
    (t.rounds.length ≤ text.length + 2 ∧ ∀ n, o.maxRounds = some n → t.rounds.length ≤ max n 1) ∧
    ∀ left, text.length + 1 ≤ left →
      runRounds p o (.ofString text) left 1 [] (o.startState known traced) =
        runRounds p o (.ofString text) (text.utf8ByteSize + 1) 1 []
          (o.startState known traced) := by
  intro r t
  obtain ⟨hfits, hmemo⟩ :=
    hknown.startState o traced (roundSetting p o (.ofString text) []).points
  obtain ⟨a, points, s, hrounds, hr⟩ := p.exists_rounds o known traced (.ofString text)
  obtain rfl : r.points = points := congrArg Parsed.points hr
  have hin := hrounds.pointsIn (.nil _) hfits hmemo
  have hsize := Text.size_ofString text
  have hpoints : t.points = r.points := p.points_parseWith o hknown.fit traced
  have htraced : t.rounds = (List.range (r.points.length + 1)).map fun i =>
      (i + 1, (r.points.take i).mergeSort) := by
    rw [← hpoints]
    refine (p.rounds_parseWith o hknown.fit).trans ?_
    simp only [roundsTo, Nat.sub_zero, Nat.zero_add, Nat.add_comm 1]
    rfl
  have hlength : t.rounds.length = r.points.length + 1 := by
    rw [htraced, List.length_map, List.length_range]
  have hmost : r.points.length ≤ text.length + 1 := Text.length_le_of_nodup hin.nodup hin.boundary
  have hchars : text.length ≤ (Text.ofString text).size := Text.length_le_utf8Length text.toList
  refine ⟨⟨hin.nodup, fun q hq => ⟨hin.boundary q hq, ?_⟩⟩, ⟨hpoints, htraced⟩,
    ⟨by omega, fun n hn => ?_⟩, fun left hleft => ?_⟩
  · exact hsize ▸ Text.le_size_of_isBoundary (hin.boundary q hq)
  · rw [hlength]
    exact hrounds.length_le hn rfl (Nat.le_max_right _ _)
  · have hleft' : (Text.ofString text).chars.length + 1 ≤ ([] : List Nat).length + left :=
      Nat.le_trans hleft (Nat.le_add_left _ _)
    have hall : (Text.ofString text).chars.length + 1 ≤
        ([] : List Nat).length + ((Text.ofString text).size + 1) :=
      Nat.le_trans (Nat.succ_le_succ hchars) (Nat.le_add_left _ _)
    have hsame := hrounds.enough (.nil _) hfits hmemo hall hleft'
    rw [hsame.eq_runRounds, ← hsize, hrounds.eq_runRounds]

/-- The rounds of two parses of some items with an error behind them, one of them with two rounds
allowed, from the results of a parse before an item was put in between. -/
theorem Results.Carried.rounds_end_items :
    Program.itemsKnown.Carried (· = .items) "aaaaé" ∧
      (Program.items.parseWith {} Program.itemsKnown true (.ofString "aaaaé")).points.Nodup ∧
      (Program.items.parseWith {} Program.itemsKnown true (.ofString "aaaaé")).rounds.length ≤ 7 ∧
      (Program.items.parseWith { maxRounds := some 2 } Program.itemsKnown true
        (.ofString "aaaaé")).rounds.length ≤ 2 ∧
      [.hit 1 0 (some 1), .hit 1 3 (some 4), .hit 1 4 none] ⊆
        (Program.items.parseWith {} Program.itemsKnown true (.ofString "aaaaé")).log := by
  have hold : Produced (· = .items) Program.itemsBefore "aaaé" :=
    .parse { maxRounds := some 1 } rfl (by decide)
  have hknown : Program.itemsKnown.Carried (· = .items) "aaaaé" := .edited hold rfl
  obtain ⟨⟨hnodup, -⟩, -, ⟨hmost, -⟩, -⟩ := hknown.rounds_end .items {} true
  obtain ⟨-, -, ⟨-, hallowed⟩, -⟩ := hknown.rounds_end .items { maxRounds := some 2 } true
  exact ⟨hknown, hnodup, hmost, hallowed 2 rfl, Program.itemsKnown_hits⟩

end Packrat
