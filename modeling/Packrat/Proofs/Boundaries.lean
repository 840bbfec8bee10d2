import Packrat.Proofs.Careful.Parse
import Packrat.Proofs.Rounds

/-!
# Positions are boundaries

Whatever a program, a text, the options and the results are that a parse starts from, every position
that it moves to is a boundary of the text. A careful parse, which looks at every position before it
moves there or cuts the text, comes to the same as the parse, and its trace to the same lines.
-/

namespace Packrat

section

variable {p : Program} {o : ParseOptions} {text : Text}

/-- A round that starts from results at boundaries makes no slip. -/
theorem runRound_careful {c : Setting} {depth : Nat} {s s' : State} {a : Answer}
    (h : runRound c depth s = (a, s')) (hmemo : s.memo.Sits c.text c.points) :
    Careful.runRound c depth s = .ok (a, s') := by
  obtain ⟨a₀, hrun, rfl⟩ := runRound_eq.mp h
  have hrule : Careful.runRule (Careful.evaluate depth) c c.program.start 0 s = .ok (a₀, s') :=
    hrun.careful c.text.isBoundary_zero hmemo
  have hfits := (hrun.sits c.text.isBoundary_zero hmemo).1.1
  rw [Careful.runRound, hrule, Careful.ok_bind]
  rcases a₀ with ⟨_ | t, notes⟩
  · rfl
  · have htrivia := Careful.trivia_eq c (hfits.isBoundary c.text.isBoundary_zero rfl)
    simp only [htrivia, Careful.ok_bind, Careful.pure_eq]
    rfl

/-- The rounds of a careful parse are those of the parse. -/
theorem Rounds.careful {left number : Nat} {points points' : List Nat} {s s' : State} {a : Answer}
    (h : Rounds p o text left number points s a points' s')
    (hmemo : s.memo.Sits text (roundSetting p o text points).points) :
    Careful.runRounds p o text left number points s = .ok ((a, points'), s') := by
  induction h with
  | @last left number points s a s' round final =>
    have hround : Careful.runRoundOf p o text number points s = .ok (a, s') :=
      runRound_careful round hmemo
    cases left with
    | zero => simp only [Careful.runRounds, hround, Careful.ok_bind, Careful.pure_eq]
    | succ left =>
      have hlast := final.resolve_left (Nat.succ_ne_zero left)
      simp only [Careful.runRounds, hround, hlast, Careful.ok_bind, Careful.pure_eq]
  | @next left number points s a s₁ point a' points' s' round more rest ih =>
    obtain ⟨htiles, hfits⟩ := runRound_fits round hmemo.fits
    obtain ⟨ha, hanchored⟩ := runRound_anchored round hmemo.fits hmemo.anchored
    have hpoint : text.isBoundary point = true :=
      (of_nextPoint? more).1 ▸ Answer.isBoundary_point ha htiles
    have hrest := ih (Memo.Sits.settle ⟨hfits, hanchored⟩ _)
    have hround : Careful.runRoundOf p o text number points s = .ok (a, s₁) :=
      runRound_careful round hmemo
    simp only [Careful.runRounds, hround, more, Careful.reach_eq hpoint, Careful.ok_bind, hrest]

/-- What a last round leaves over reaches from a boundary to the end. -/
theorem spans_rest {a : Answer} (h : ∀ t, a.taken = some t → Tree.TilesAll text t.trees 0 t.stop) :
    text.Spans (a.taken.getD { stop := 0 }).stop text.size := by
  have hstop : text.isBoundary (a.taken.getD { stop := 0 }).stop = true := by
    cases ht : a.taken with
    | none => exact text.isBoundary_zero
    | some t => exact Tree.TilesAll.isBoundary text.isBoundary_zero _ (h t ht)
  exact ⟨Text.le_size_of_isBoundary hstop, hstop, text.isBoundary_size⟩

/-- What a parse takes in the end, with an error for the text that is left, is taken without a
slip. -/
theorem takenInFull_careful {c : Setting} {a : Answer} (s : State)
    (h : ∀ t, a.taken = some t → Tree.TilesAll c.text t.trees 0 t.stop) :
    Careful.takenInFull c a s = .ok (takenInFull c a s) := by
  simp only [Careful.takenInFull, takenInFull, Careful.takenError_eq c (spans_rest h),
    Careful.ok_bind]
  split <;> rfl

/-- All errors that are reported in the end reach from one boundary to another. -/
theorem takenInFull_errors {c : Setting} {a : Answer} (s : State) (ha : a.Anchored c.text)
    (h : ∀ t, a.taken = some t → Tree.TilesAll c.text t.trees 0 t.stop) :
    ∀ e ∈ (takenInFull c a s).1.errors, c.text.Spans e.start e.stop := by
  have htaken : ∀ e ∈ (a.taken.getD { stop := 0 }).errors, c.text.Spans e.start e.stop := by
    cases ht : a.taken with
    | none => exact nofun
    | some t => exact ha.errors t ht
  simp only [takenInFull]
  split
  · intro e he
    rcases List.mem_append.mp he with he | he
    · exact htaken e he
    · obtain rfl := List.mem_singleton.mp he
      exact spans_rest h
  · exact htaken

/-- A careful parse makes no slip if it starts from results that fit the text and stand at its
boundaries. -/
theorem Program.parseWith_careful {known : Results} (hfits : Results.Fit text known)
    (hanchored : known.Anchored text) (traced : Bool) :
    Careful.parseWith p o known traced text = .ok (p.parseWith o known traced text) := by
  obtain ⟨a, points, s, hrounds, heq⟩ := p.exists_rounds o known traced text
  have hstart : (o.startState known traced).memo.Sits text (roundSetting p o text []).points :=
    ⟨⟨hfits, by simp [ParseOptions.startState]⟩, Memo.anchored_of_strict hanchored⟩
  have hfull := takenInFull_careful (c := roundSetting p o text points) s
    (hrounds.fits hstart.fits).1
  have hrun := hrounds.careful hstart
  simp only [ParseOptions.startState] at hrun
  simp only [Careful.parseWith, hrun, hfull, Careful.ok_bind, Careful.pure_eq, heq,
    takenInFull_halted, takenInFull_memo]

/-- The errors of a parse reach from boundary to boundary. -/
theorem Program.parseWith_errors {known : Results} (hfits : Results.Fit text known)
    (hanchored : known.Anchored text) (traced : Bool) :
    ∀ e ∈ (p.parseWith o known traced text).errors, text.Spans e.start e.stop := by
  obtain ⟨a, points, s, hrounds, heq⟩ := p.exists_rounds o known traced text
  have hstart : (o.startState known traced).memo.Sits text (roundSetting p o text []).points :=
    ⟨⟨hfits, by simp [ParseOptions.startState]⟩, Memo.anchored_of_strict hanchored⟩
  intro e he
  rw [heq] at he
  exact takenInFull_errors (c := roundSetting p o text points) s
    (hrounds.anchored hstart.fits hstart.anchored).1 (hrounds.fits hstart.fits).1 e
    (List.mem_mergeSort.mp he)

end

section

variable {text : Text} {s s' : State}

/-- Whether an event that tells of a match tells of a stretch between boundaries. -/
def Event.Spans (text : Text) (e : Event) : Prop :=
  ∀ kind position length, e = .token kind position (some length) →
    text.Spans position (position + length)

/-- The events of a run tell of stretches between boundaries. -/
theorem Event.InRun.spans {e : Event} (h : e.InRun text) : e.Spans text := by
  rintro kind position length rfl
  exact h

/-- The same of all events so far. -/
def State.Spans (text : Text) (s : State) : Prop :=
  ∀ log, s.log = some log → ∀ e ∈ log, e.Spans text

/-- A log on which all stretches are between boundaries is so still behind a run. -/
theorem State.Spans.appends (h : s.Spans text) (happends : s.Appends text s') :
    s'.Spans text := by
  obtain ⟨new, hlog, hnew⟩ := happends
  intro log hsome e he
  rw [hlog] at hsome
  obtain ⟨old, hold, rfl⟩ := Option.map_eq_some_iff.mp hsome
  rcases List.mem_append.mp he with he | he
  · exact (hnew e he).spans
  · exact h old hold e he

/-- That a round begins tells of no stretch. -/
theorem State.Spans.round (h : s.Spans text) (number : Nat) (points : List Nat) :
    (s.record (.round number points)).Spans text := by
  intro log hsome e he
  obtain ⟨old, hold, rfl⟩ := Option.map_eq_some_iff.mp hsome
  rcases List.mem_cons.mp he with rfl | he
  · exact nofun
  · exact h old hold e he

/-- All stretches that the rounds of a parse tell of are between boundaries. -/
theorem Rounds.spans {p : Program} {o : ParseOptions} {left number : Nat}
    {points points' : List Nat} {a : Answer}
    (h : Rounds p o text left number points s a points' s')
    (hfits : s.memo.Fits text (roundSetting p o text points).points) (hs : s.Spans text) :
    s'.Spans text := by
  induction h with
  | last round final => exact (hs.round _ _).appends (runRound_appends round hfits)
  | next round more rest ih =>
    exact ih ((runRound_fits round hfits).2.settle _)
      ((hs.round _ _).appends (runRound_appends round hfits))

/-- The error for the text that is left is over a stretch between boundaries. -/
theorem takenInFull_spans (c : Setting) (a : Answer) (h : s.Spans text) :
    (takenInFull c a s).2.Spans text := by
  simp only [takenInFull]
  split
  · intro log hsome e he
    obtain ⟨old, hold, rfl⟩ := Option.map_eq_some_iff.mp hsome
    rcases List.mem_cons.mp he with rfl | he
    · rintro _ _ _ ⟨⟩
    · exact h old hold e he
  · exact h

/-- The events of a parse that tell of matches tell of stretches between boundaries. -/
theorem Program.parseWith_spans (p : Program) (o : ParseOptions) {known : Results}
    (hfits : Results.Fit text known) (traced : Bool) :
    ∀ e ∈ (p.parseWith o known traced text).log, e.Spans text := by
  obtain ⟨a, points, s, hrounds, heq⟩ := p.exists_rounds o known traced text
  have hstart : (o.startState known traced).Spans text := by
    intro log hsome e he
    cases traced <;> cases hsome
    cases he
  have hs := hrounds.spans ⟨hfits, by simp [ParseOptions.startState]⟩ hstart
  intro e he
  rw [heq] at he
  rw [List.mem_reverse] at he
  cases hlog : (takenInFull (roundSetting p o text points) a s).2.log with
  | none =>
    rw [hlog] at he
    cases he
  | some log =>
    rw [hlog] at he
    exact takenInFull_spans _ a hs log hlog e he

end

/-- The line of an event that tells of a stretch between boundaries. -/
theorem Trace.add_careful (v : TraceView) (t : Trace) {e : Event} (h : e.Spans v.text) :
    Careful.add v t e = .ok (t.add v e) := by
  cases e with
  | token kind position length =>
    have hline : Careful.tokenLine v kind position length =
        .ok (v.tokenLine kind position length) := by
      cases length with
      | none => rfl
      | some n =>
        simp only [Careful.tokenLine, TraceView.tokenLine, Careful.slice_eq (h _ _ _ rfl)]
        split <;> rfl
    simp only [Careful.add, Trace.add, hline, Careful.ok_bind]
    split <;> rfl
  | _ => rfl

/-- The lines of a trace cut nothing out of the text but between boundaries. -/
theorem TraceView.lines_careful (v : TraceView) {events : List Event}
    (h : ∀ e ∈ events, e.Spans v.text) : Careful.lines v events = .ok (v.lines events) := by
  have hfold : ∀ t : Trace,
      events.foldlM (Careful.add v) t = .ok (events.foldl (Trace.add v) t) := by
    induction events with
    | nil => exact fun t => rfl
    | cons e events ih =>
      rw [List.forall_mem_cons] at h
      intro t
      rw [List.foldlM_cons, t.add_careful v h.1, Careful.ok_bind, ih h.2]
      rfl
  rw [Careful.lines, hfold, Careful.ok_bind]
  rfl

variable {among : Program → Prop} {known : Results} {text : String}

/-- No position of a parse leaves the text or splits a character, from whatever results it starts. A
careful parse makes no slip and comes to the same, and so do the lines of its trace. The leaves of
the tree and the errors lie between boundaries, and the results that the parse starts from and those
that it leaves start and end at boundaries. -/
theorem Results.Carried.parse_careful (hknown : known.Carried among text) (p : Program)
    (o : ParseOptions) (traced : Bool) :
    let r := p.parseWith o known traced (.ofString text)
    Careful.parseWith p o known traced (.ofString text) = .ok r ∧
      (∀ v : TraceView, v.text = .ofString text → Careful.lines v r.log = .ok (v.lines r.log)) ∧
      r.tree.Tiles (.ofString text) 0 text.utf8ByteSize ∧
      (∀ e ∈ r.errors, (Text.ofString text).Spans e.start e.stop) ∧
      ∀ (key : MemoKey) (e : Entry), known[key]? = some e ∨ r.results[key]? = some e →
        ∀ t, e.taken = some t →
          (Text.ofString text).Spans key.2 t.stop ∧ t.stop ≤ text.utf8ByteSize := by
  intro r
  have hfits := hknown.fit
  obtain ⟨htiles, hresults⟩ := @Program.parseWith_fits p o _ known traced hfits
  rw [Text.size_ofString] at htiles
  refine ⟨Program.parseWith_careful hfits hknown.anchored traced, fun v hv => ?_, htiles,
    Program.parseWith_errors hfits hknown.anchored traced, fun key e he t ht => ?_⟩
  · refine v.lines_careful fun e he => ?_
    rw [hv]
    exact p.parseWith_spans o hfits traced e he
  · have hentry : e.FitsStrict (.ofString text) key.2 := he.elim (hfits key e) (hresults key e)
    have htaken := hentry.tiles t ht
    have hstop := Tree.TilesAll.isBoundary hentry.boundary _ htaken
    have hle := Text.le_size_of_isBoundary hstop
    rw [Text.size_ofString] at hle
    exact ⟨⟨Tree.TilesAll.le _ htaken, hentry.boundary, hstop⟩, hle⟩

/-- A parse of some items with a letter of two bytes behind them, from the results of a parse before
an item was put in between. -/
theorem Results.Carried.parse_careful_items :
    let r := Program.items.parseWith {} Program.itemsKnown true (.ofString "aaaaé")
    Program.itemsKnown.Carried (· = .items) "aaaaé" ∧
      Careful.parseWith .items {} Program.itemsKnown true (.ofString "aaaaé") = .ok r ∧
      r.tree.Tiles (.ofString "aaaaé") 0 6 ∧
      (∀ e ∈ r.errors, (Text.ofString "aaaaé").Spans e.start e.stop) ∧
      [.hit 1 0 (some 1), .hit 1 3 (some 4), .hit 1 4 none] ⊆ r.log := by
  intro r
  have hold : Produced (· = .items) Program.itemsBefore "aaaé" :=
    .parse { maxRounds := some 1 } rfl (by decide)
  have hknown : Program.itemsKnown.Carried (· = .items) "aaaaé" := .edited hold rfl
  obtain ⟨hcareful, -, htiles, herrors, -⟩ := hknown.parse_careful .items {} true
  exact ⟨hknown, hcareful, htiles, herrors, Program.itemsKnown_hits⟩

end Packrat
