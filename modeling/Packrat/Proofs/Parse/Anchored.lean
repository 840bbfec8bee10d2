import Packrat.Proofs.Parse.Reuse

/-!
# Failures and errors stand at boundaries

Whatever is noted of failures in a run from a boundary stands at boundaries too, and the errors that
are made reach from one boundary to another. The furthest failure of a kept result may come from an
earlier round or, moved, from the text before an edit; what a round tells of where it failed is as
good as these, so kept results are held to the same.
-/

namespace Packrat

/-- Whether a stretch of a text goes from one boundary to another that is not before it. -/
structure Text.Spans (text : Text) (start stop : Nat) : Prop where
  le : start ≤ stop
  start : text.isBoundary start = true
  stop : text.isBoundary stop = true

/-- Whether the failures that are noted stand at boundaries. -/
structure Notes.Anchored (text : Text) (n : Notes) : Prop where
  far : ∀ f, n.far = some f → text.isBoundary f.position = true
  frontier : ∀ q, n.frontier = some q → text.isBoundary q = true

/-- Whether the failures and the errors of an answer stand at boundaries. -/
structure Answer.Anchored (text : Text) (a : Answer) : Prop where
  notes : a.notes.Anchored text
  errors : ∀ t, a.taken = some t → ∀ e ∈ t.errors, text.Spans e.start e.stop

/-- Whether the furthest failures of results stand at boundaries. Nothing else of a strict result
is in question: it has no errors, and its frontier is found anew. -/
def Results.Anchored (text : Text) (r : Results) : Prop :=
  ∀ (key : MemoKey) (e : Entry), r[key]? = some e →
    ∀ f, e.far = some f → text.isBoundary f.position = true

/-- Whether the failures and the errors of all kept results stand at boundaries. -/
structure Memo.Anchored (text : Text) (m : Memo) : Prop where
  strict : m.strict.Anchored text
  recovering : ∀ (key : MemoKey) (e : Entry), m.recovering[key]? = some e →
    Answer.Anchored text ⟨e.taken, ⟨e.far, e.frontier, e.reach⟩⟩

/-- Whether the failures and the errors of what a job comes to stand at boundaries. What a search
finds was run without recovery and is told without its failures. -/
def Outcome.Anchored (text : Text) : Outcome → Prop
  | answer a => a.Anchored text
  | _ => True

/-- The greater of two positions is one of them. -/
theorem eq_some_of_greater {a b : Option Nat} {q : Nat} (h : greater a b = some q) :
    a = some q ∨ b = some q := by
  rcases a with _ | x
  · exact .inr h
  · rcases b with _ | y
    · exact .inl h
    · obtain rfl : max x y = q := Option.some.inj h
      rcases Nat.le_total x y with hle | hle
      · exact .inr (by rw [Nat.max_eq_right hle])
      · exact .inl (by rw [Nat.max_eq_left hle])

namespace Notes.Anchored

variable {text : Text}

/-- Where no failure is noted, none stands off a boundary. -/
theorem empty : Notes.Anchored text {} := ⟨nofun, nofun⟩

/-- The furthest failure of two parts stands where one of theirs does, so at a boundary. -/
theorem join {a b : Notes} (ha : a.Anchored text) (hb : b.Anchored text) :
    (a.join b).Anchored text := by
  refine ⟨fun f hf => ?_, fun q hq => ?_⟩
  · rcases furthest_position hf with ⟨g, hg, heq⟩ | ⟨g, hg, heq⟩
    · exact heq ▸ ha.far g hg
    · exact heq ▸ hb.far g hg
  · rcases eq_some_of_greater hq with hq | hq
    · exact ha.frontier q hq
    · exact hb.frontier q hq

/-- A look at the text adds no failure. -/
theorem join_seen {a : Notes} (ha : a.Anchored text) (reach : Nat) :
    (a.join (.seen reach)).Anchored text := ha.join ⟨nofun, nofun⟩

end Notes.Anchored

namespace Answer.Anchored

variable {text : Text} {a : Answer} {t : Taken} {notes : Notes}

/-- An answer that takes nothing has no errors, so only its failures have to stand at boundaries. -/
theorem of_none (h : notes.Anchored text) : Answer.Anchored text ⟨none, notes⟩ := ⟨h, nofun⟩

/-- An operation that is not run notes no failure and makes no error. -/
theorem idle (p : Nat) : Answer.Anchored text (.idle p) := by
  refine ⟨.empty, fun t ht => ?_⟩
  cases ht
  exact nofun

/-- An answer behind what was taken has failures and errors of both. -/
theorem behind (hfirst : Answer.Anchored text ⟨some t, notes⟩) (hrest : a.Anchored text) :
    Answer.Anchored text (.behind t notes a) := by
  refine ⟨hfirst.notes.join hrest.notes, fun u hu e he => ?_⟩
  obtain ⟨v, hv, rfl⟩ := Option.map_eq_some_iff.mp hu
  rcases List.mem_append.mp he with he | he
  · exact hfirst.errors t rfl e he
  · exact hrest.errors v hv e he

/-- An answer to which notes are added has failures of both and its own errors. -/
theorem noting (hfirst : notes.Anchored text) (hrest : a.Anchored text) :
    Answer.Anchored text (.noting notes a) :=
  ⟨hfirst.join hrest.notes, hrest.errors⟩

/-- The end of a repetition has the failures of its iterations and no errors. -/
theorem endRepetition (h : notes.Anchored text) (least count p : Nat) :
    Answer.Anchored text (endRepetition least count p notes) := by
  unfold Packrat.endRepetition
  split
  · exact of_none h
  · exact ⟨h, (idle p).errors⟩

/-- Closing nodes makes no errors. -/
theorem map_trees {f : Taken → Taken} (h : a.Anchored text) (hf : ∀ t, (f t).errors = t.errors) :
    Answer.Anchored text ⟨a.taken.map f, a.notes⟩ := by
  refine ⟨h.notes, fun t ht e he => ?_⟩
  obtain ⟨u, hu, rfl⟩ := Option.map_eq_some_iff.mp ht
  rw [hf] at he
  exact h.errors u hu e he

/-- A name for a part changes neither failures nor errors. -/
theorem wrapped {c : Setting} {kind : Nat} (h : a.Anchored text) :
    (a.wrapped c kind).Anchored text := h.map_trees fun _ => rfl

/-- The node of a rule changes neither failures nor errors. -/
theorem called {c : Setting} {rule : Nat} {renamed : Option Nat} {halted : Bool}
    (h : a.Anchored text) : (a.called c rule renamed halted).Anchored text :=
  h.map_trees fun t => by split <;> rfl

/-- The failure that a rule is told to have stands where it noted one or where it began. -/
theorem fromRule (h : a.Anchored text) (p : Nat) : (a.fromRule p).Anchored text :=
  ⟨⟨h.notes.far, h.notes.frontier⟩, h.errors⟩

end Answer.Anchored

/-- A terminal fails behind the trivia. -/
theorem runToken_anchored (c : Setting) (terminal kind : Nat) (immediate : Bool) {p : Nat}
    (s : State) (hp : c.text.isBoundary p = true) :
    (runToken c terminal kind immediate p s).1.Anchored c.text := by
  obtain ⟨trivia, htrivia⟩ : ∃ trivia, trivia =
      if immediate then (⟨[], p, 0⟩ : Trivia) else c.trivia p := ⟨_, rfl⟩
  have hstart : c.text.isBoundary trivia.stop = true := by
    rw [htrivia]
    split
    · exact hp
    · exact c.isBoundary_trivia_stop hp
  simp only [runToken, ← htrivia]
  cases ((c.program.terminal terminal).scanAt c.text trivia.stop).length with
  | some n =>
    refine ⟨⟨by rintro _ ⟨⟩, by rintro _ ⟨⟩⟩, fun t ht => ?_⟩
    cases ht
    rintro _ ⟨⟩
  | none =>
    refine .of_none ⟨fun f hf => ?_, fun q hq => ?_⟩
    · cases hf
      exact hstart
    · simp only [Option.ite_none_left_eq_some, Option.some.injEq] at hq
      exact hq.2 ▸ hstart

namespace Setting

variable {c : Setting} {p : Nat}

/-- The error of a recovery goes from the trivia to where the search ended. -/
theorem resumedTaken_spans {expected : List Nat} {result : Search}
    (hp : c.text.isBoundary p = true) (h : result.Fits c (c.trivia p).stop) :
    ∀ e ∈ (c.resumedTaken p expected result).errors, c.text.Spans e.start e.stop := by
  have hstart := c.isBoundary_trivia_stop hp
  intro e he
  cases result with
  | abandoned => cases he
  | stopped stop =>
    obtain rfl := List.mem_singleton.mp he
    exact ⟨h.1, hstart, h.2⟩
  | found start m =>
    simp only [resumedTaken, Taken.andThen, List.nil_append] at he
    split at he
    · obtain rfl := List.mem_singleton.mp he
      exact ⟨h.1, hstart, h.2.1⟩
    · cases he

/-- What a recovery takes in a repetition has errors over stretches between boundaries. -/
theorem resumedIteration?_spans {expected : List Nat} {result : Search} {t : Taken}
    (hp : c.text.isBoundary p = true) (h : result.Fits c (c.trivia p).stop)
    (ht : c.resumedIteration? p expected result = some t) :
    ∀ e ∈ t.errors, c.text.Spans e.start e.stop := by
  cases result with
  | found start m =>
    cases ht
    exact resumedTaken_spans hp h
  | stopped => cases ht
  | abandoned => cases ht

end Setting

/-- What a kept result stands for. The frontier of a strict one is where its furthest failure
is. -/
theorem Entry.answer_anchored {c : Setting} {rule p : Nat} {s : State} {entry : Entry}
    {recovering : Bool} (hfits : s.memo.Fits c.text c.points) (hmemo : s.memo.Anchored c.text)
    (h : known? c rule p s = some (entry, recovering)) :
    (entry.answer c recovering).Anchored c.text := by
  obtain ⟨-, ⟨rfl, -, hentry⟩ | ⟨rfl, hentry, -, -⟩⟩ := of_known? h
  · exact hmemo.recovering _ _ hentry
  · have hfar := hmemo.strict _ _ hentry
    refine ⟨⟨hfar, fun q hq => ?_⟩, fun t ht e he => ?_⟩
    · obtain ⟨hposition, -⟩ := Option.filter_eq_some_iff.mp hq
      obtain ⟨f, hf, rfl⟩ := Option.map_eq_some_iff.mp hposition
      exact hfar f hf
    · have hnone := ((hfits.strict _ _ hentry).within t ht).2
      rw [hnone] at he
      cases he

/-- To keep an answer of this sort leaves only such results in the table. -/
theorem keep_anchored {c : Setting} {rule p : Nat} {a : Answer} {s : State}
    (hmemo : s.memo.Anchored c.text) (ha : a.Anchored c.text) :
    (keep c rule p (a.entry p) s).memo.Anchored c.text := by
  constructor
  · intro key e he
    rcases getElem?_keep_strict he with hold | ⟨rfl, rfl, -⟩
    · exact hmemo.strict key e hold
    · exact ha.notes.far
  · intro key e he
    rcases getElem?_keep_recovering he with hold | ⟨rfl, rfl, -⟩
    · exact hmemo.recovering key e hold
    · exact ha.fromRule p

/-- What is left of a table when results are dropped was in it. -/
theorem Memo.Anchored.settle {text : Text} {m : Memo} (h : m.Anchored text) :
    m.settle.Anchored text :=
  ⟨h.strict, by simp⟩

/-- A table of strict results alone is as good as these results are. -/
theorem Memo.anchored_of_strict {text : Text} {known : Results} (h : known.Anchored text) :
    ({ strict := known } : Memo).Anchored text :=
  ⟨h, by simp⟩

/-- A run from a boundary notes failures at boundaries and makes errors that reach from boundary to
boundary, and so do the results that it keeps. -/
theorem Run.anchored {c : Setting} {d : Nat} {job : Job} {p : Nat} {s s' : State} {out : Outcome}
    (h : Run c d job p s out s') (hready : job.Ready c p) (hfits : s.memo.Fits c.text c.points)
    (hmemo : s.memo.Anchored c.text) :
    out.Anchored c.text ∧ s'.memo.Anchored c.text := by
  induction h with
  | refused tick => exact ⟨.idle _, (State.of_tick_false tick).2 ▸ hmemo⟩
  | tooDeep tick =>
    have hkept := (State.of_tick_true tick).2.2.1
    exact ⟨.idle _, by simpa only [State.stop_memo, hkept] using hmemo⟩
  | ticked tick rest ih =>
    have hkept := (State.of_tick_true tick).2.2.1
    exact ih hready (hkept ▸ hfits) (hkept ▸ hmemo)
  | blank => exact ⟨.idle _, hmemo⟩
  | @token c d terminal kind immediate p s =>
    obtain ⟨e, he⟩ := runToken_state c terminal kind immediate p s
    exact ⟨runToken_anchored c terminal kind immediate s hready, he ▸ hmemo⟩
  | call rest ih => exact (ih hready hfits hmemo).imp_left Answer.Anchored.called
  | members rest ih => exact ih hready hfits hmemo
  | alternatives rest ih => exact ih hready hfits hmemo
  | repetition rest ih => exact ih hready hfits hmemo
  | wrap rest ih => exact (ih hready hfits hmemo).imp_left Answer.Anchored.wrapped
  | cancelled ask => exact ⟨.idle _, (State.of_ask_false ask).2 ▸ hmemo⟩
  | hit ask known =>
    have hkept := (State.of_ask_true ask).2.2.1
    rw [← hkept] at hfits hmemo
    exact ⟨Entry.answer_anchored hfits hmemo known, hmemo⟩
  | body ask unknown rest ih =>
    have hkept := (State.of_ask_true ask).2.2.1
    obtain ⟨ha, hmemo'⟩ := ih hready (hkept ▸ hfits) (hkept ▸ hmemo)
    exact ⟨Answer.Anchored.fromRule ha _, keep_anchored hmemo' ha⟩
  | seqNil => exact ⟨.idle _, hmemo⟩
  | seqSkip tail ih => exact ih hready hfits hmemo
  | seqTook head tail ihhead ihtail =>
    obtain ⟨hfirst, hmemo₁⟩ := ihhead hready hfits hmemo
    obtain ⟨htaken, hfits₁⟩ := head.fits hready hfits
    exact (ihtail (htaken.isBoundary hready rfl) hfits₁ hmemo₁).imp_left hfirst.behind
  | seqFailed head final ih => exact ih hready hfits hmemo
  | @seqEnded c d step rest p s notes s₁ failure result reach s' head armed scan ended ihhead
      ihscan =>
    obtain ⟨hfirst, hmemo₁⟩ := ihhead hready hfits hmemo
    have hfits₁ := (head.fits hready hfits).2
    have hready₁ := Job.ready_search hready (step :: rest)
    have hresult := (scan.fits hready₁ hfits₁).1
    refine ⟨⟨hfirst.notes.join_seen _, fun t ht => ?_⟩, ?_⟩
    · cases ht
      exact Setting.resumedTaken_spans hready hresult
    · rw [State.recordError_memo]
      exact (ihscan hready₁ hfits₁ hmemo₁).2
  | @seqResumed c d step rest p s notes s₁ failure result reach s₂ index a s' head armed scan
      resumed tail ihhead ihscan ihtail =>
    obtain ⟨hfirst, hmemo₁⟩ := ihhead hready hfits hmemo
    have hfits₁ := (head.fits hready hfits).2
    have hready₁ := Job.ready_search hready (step :: rest)
    obtain ⟨hresult, hfits₂⟩ := scan.fits hready₁ hfits₁
    have hmemo₂ := (ihscan hready₁ hfits₁ hmemo₁).2
    rw [← State.recordError_memo (c.resumedError? p result)] at hfits₂ hmemo₂
    have hstop := Setting.isBoundary_resumedTaken_stop failure.expected hready hresult
    obtain ⟨hrest, hmemo₃⟩ := ihtail hstop hfits₂ hmemo₂
    refine ⟨.behind ⟨hfirst.notes.join_seen _, fun t ht => ?_⟩ hrest, hmemo₃⟩
    cases ht
    exact Setting.resumedTaken_spans hready hresult
  | choiceNil => exact ⟨.of_none .empty, hmemo⟩
  | choiceTook head ih => exact ih hready hfits hmemo
  | choiceNext head tail ihhead ihtail =>
    obtain ⟨hfirst, hmemo₁⟩ := ihhead hready hfits hmemo
    have hfits₁ := (head.fits hready hfits).2
    exact (ihtail hready hfits₁ hmemo₁).imp_left (.noting hfirst.notes)
  | exhausted => exact ⟨.endRepetition .empty _ _ _, hmemo⟩
  | enough => exact ⟨.endRepetition .empty _ _ _, hmemo⟩
  | idleIteration room head still ih =>
    exact (ih hready hfits hmemo).imp_left fun hfirst => .endRepetition hfirst.notes _ _ _
  | nextIteration room head moved tail ihhead ihtail =>
    obtain ⟨hfirst, hmemo₁⟩ := ihhead hready hfits hmemo
    obtain ⟨htaken, hfits₁⟩ := head.fits hready hfits
    exact (ihtail (htaken.isBoundary hready rfl) hfits₁ hmemo₁).imp_left hfirst.behind
  | lastIteration room head final ih =>
    exact (ih hready hfits hmemo).imp_left fun hfirst => .endRepetition hfirst.notes _ _ _
  | @lostIteration c d body least most left count p s notes s₁ failure result reach s' room head
      started armed scan ended ihhead ihscan =>
    obtain ⟨hfirst, hmemo₁⟩ := ihhead hready hfits hmemo
    have hfits₁ := (head.fits hready hfits).2
    exact ⟨.endRepetition (hfirst.notes.join_seen _) _ _ _,
      (ihscan (Job.ready_search hready [body]) hfits₁ hmemo₁).2⟩
  | @foundIteration c d body least most left count p s notes s₁ failure result reach s₂ t a s' room
      head started armed scan resumed tail ihhead ihscan ihtail =>
    obtain ⟨hfirst, hmemo₁⟩ := ihhead hready hfits hmemo
    have hfits₁ := (head.fits hready hfits).2
    have hready₁ := Job.ready_search hready [body]
    obtain ⟨hresult, hfits₂⟩ := scan.fits hready₁ hfits₁
    have hmemo₂ := (ihscan hready₁ hfits₁ hmemo₁).2
    rw [← State.recordError_memo (c.iterationError? p result)] at hfits₂ hmemo₂
    have hstop :=
      Setting.isBoundary_resumedIteration?_stop failure.expected hready hresult resumed
    obtain ⟨hrest, hmemo₃⟩ := ihtail hstop hfits₂ hmemo₂
    refine ⟨.behind ⟨hfirst.notes.join_seen _, fun u hu => ?_⟩ hrest, hmemo₃⟩
    cases hu
    exact Setting.resumedIteration?_spans hready hresult resumed
  | trialNil => exact ⟨trivial, hmemo⟩
  | trialFound head past ih => exact ⟨trivial, (ih hready hfits hmemo).2⟩
  | trialNext head short tail ihhead ihtail =>
    exact ihtail hready (head.fits hready hfits).2 (ihhead hready hfits hmemo).2
  | lookRefused tick => exact ⟨trivial, (State.of_tick_false tick).2 ▸ hmemo⟩
  | lookFound tick attempts ih =>
    have hkept := (State.of_tick_true tick).2.2.1
    exact ⟨trivial, (ih hready (hkept ▸ hfits) (hkept ▸ hmemo)).2⟩
  | lookStopped tick attempts final ih =>
    have hkept := (State.of_tick_true tick).2.2.1
    exact ⟨trivial, (ih hready (hkept ▸ hfits) (hkept ▸ hmemo)).2⟩
  | lookPassed tick attempts passed ih =>
    have hkept := (State.of_tick_true tick).2.2.1
    exact ⟨trivial, (ih hready (hkept ▸ hfits) (hkept ▸ hmemo)).2⟩
  | searchEnd here ih => exact ⟨trivial, (ih hready.1 hfits hmemo).2⟩
  | searchDone here ih => exact ⟨trivial, (ih hready.1 hfits hmemo).2⟩
  | searchNext here tail ihhere ihtail =>
    exact ihtail hready.next (here.fits hready.1 hfits).2 (ihhere hready.1 hfits hmemo).2

/-- A round notes failures at boundaries. -/
theorem runRound_anchored {c : Setting} {depth : Nat} {s s' : State} {a : Answer}
    (h : runRound c depth s = (a, s')) (hfits : s.memo.Fits c.text c.points)
    (hmemo : s.memo.Anchored c.text) : a.Anchored c.text ∧ s'.memo.Anchored c.text := by
  obtain ⟨a₀, hrun, rfl⟩ := runRound_eq.mp h
  obtain ⟨ha, hmemo'⟩ := hrun.anchored c.text.isBoundary_zero hfits hmemo
  exact ⟨Answer.Anchored.map_trees ha fun t => List.append_nil _, hmemo'⟩

/-- The rounds of a parse note failures at boundaries and keep such results. -/
theorem Rounds.anchored {p : Program} {o : ParseOptions} {text : Text} {left number : Nat}
    {points points' : List Nat} {s s' : State} {a : Answer}
    (h : Rounds p o text left number points s a points' s')
    (hfits : s.memo.Fits text (roundSetting p o text points).points)
    (hmemo : s.memo.Anchored text) : a.Anchored text ∧ s'.memo.Anchored text := by
  induction h with
  | last round final => exact runRound_anchored round hfits hmemo
  | next round more rest ih =>
    exact ih ((runRound_fits round hfits).2.settle _) (runRound_anchored round hfits hmemo).2.settle

/-- Results that are carried over an edit have their furthest failures at boundaries of the new
text: these lie in the text that was looked at, and move with it. -/
theorem Results.Anchored.carryOver {edit : Edit} {old : Text} {new : String} {results : Results}
    (h : results.Anchored old) (hfits : Results.Fit old results)
    (happly : edit.apply old = .ok new) (hsize : old.size < maxOffset) :
    (edit.carryOver results).Anchored (.ofString new) := by
  intro key entry hentry f hf
  obtain ⟨key₀, entry₀, hold, hcarry⟩ := Edit.of_getElem?_carryOver hentry
  have hentry₀ := hfits key₀ entry₀ hold
  rcases Edit.carry?_eq_some hcarry with ⟨hreach, rfl, rfl⟩ | ⟨hbehind, rfl, rfl⟩
  · have hlooks := (Edit.carries_before happly hsize).looksLike
    have hbefore := (hentry₀.far f hf).2
    exact hlooks.isBoundary (Nat.zero_le _) (by omega) (h _ _ hold f hf)
  · have hlooks := (Edit.carries_behind happly hsize entry₀.reach).looksLike
    obtain ⟨f₀, hf₀, rfl⟩ := Option.map_eq_some_iff.mp hf
    obtain ⟨hle, hlt⟩ := hentry₀.far f₀ hf₀
    exact hlooks.isBoundary (by omega) (Nat.le_of_lt hlt) (h _ _ hold f₀ hf₀)

end Packrat
