import Packrat.Proofs.Parse.Anchored

/-!
# The events of a run

A run only adds to the log. None of the events that it adds begins a round, and what they tell to be
matched or skipped goes from one boundary of the text to another. What one round logs is in the
trace of the parse.
-/

namespace Packrat

/-- Whether an event may be one of a run over a text. -/
def Event.InRun (text : Text) : Event → Prop
  | round _ _ => False
  | token _ position (some length) => text.Spans position (position + length)
  | error start stop => text.Spans start stop
  | _ => True

/-- Whether a state has come of another one by events of runs over a text. -/
def State.Appends (text : Text) (s s' : State) : Prop :=
  ∃ new : List Event, s'.log = s.log.map (new ++ ·) ∧ ∀ e ∈ new, e.InRun text

namespace State.Appends

variable {text : Text} {s s₁ s' : State}

/-- Where nothing is logged, nothing is added to the log. -/
theorem of_log_eq (h : s'.log = s.log) : s.Appends text s' :=
  ⟨[], by simp [h], nofun⟩

/-- What is added in two steps is added in both together. -/
theorem trans (h : s.Appends text s₁) (h' : s₁.Appends text s') : s.Appends text s' := by
  obtain ⟨new, hlog, hnew⟩ := h
  obtain ⟨more, hlog', hmore⟩ := h'
  refine ⟨more ++ new, ?_, fun e he => (List.mem_append.mp he).elim (hmore e) (hnew e)⟩
  rw [hlog', hlog, Option.map_map]
  congr 1
  funext log
  simp

/-- An event of a run is added to the log. -/
theorem record {e : Event} (he : e.InRun text) (s : State) : s.Appends text (s.record e) :=
  ⟨[e], rfl, fun _ hmem => List.mem_singleton.mp hmem ▸ he⟩

/-- An error over a stretch between boundaries is added to the log. -/
theorem recordError {e : Option (Nat × Nat)} (he : ∀ x ∈ e, text.Spans x.1 x.2) (s : State) :
    s.Appends text (s.recordError e) := by
  cases e with
  | none => exact .of_log_eq rfl
  | some e => exact .record (e := .error e.1 e.2) (he e rfl) s

/-- A step of fuel logs nothing but that the parse is stopped, if it is. -/
theorem tick {granted : Bool} (h : s.tick = (granted, s')) : s.Appends text s' := by
  rcases s with ⟨memo, _ | _ | n, patience, _ | reason, log⟩ <;> cases h
  case some.zero.none => exact ⟨[.halt .outOfFuel], rfl, by simp [Event.InRun]⟩
  all_goals exact .of_log_eq rfl

/-- A try logs nothing but that the parse is stopped, if it is. -/
theorem ask {granted : Bool} (h : s.ask = (granted, s')) : s.Appends text s' := by
  rcases s with ⟨memo, fuel, _ | _ | n, _ | reason, log⟩ <;> cases h
  case some.zero.none => exact ⟨[.halt .cancelled], rfl, by simp [Event.InRun]⟩
  all_goals exact .of_log_eq rfl

/-- To keep a result logs nothing. -/
theorem keep (c : Setting) (rule p : Nat) (entry : Entry) (s : State) :
    s.Appends text (keep c rule p entry s) := by
  unfold Packrat.keep
  split <;> exact .of_log_eq rfl

end State.Appends

/-- A terminal is tried behind the trivia, and what it matches lies between boundaries. -/
theorem runToken_appends (c : Setting) (terminal kind : Nat) (immediate : Bool) (p : Nat)
    (s : State) : s.Appends c.text (runToken c terminal kind immediate p s).2 := by
  obtain ⟨trivia, htrivia⟩ : ∃ trivia, trivia =
      if immediate then (⟨[], p, 0⟩ : Trivia) else c.trivia p := ⟨_, rfl⟩
  simp only [runToken, ← htrivia]
  cases hlength : ((c.program.terminal terminal).scanAt c.text trivia.stop).length with
  | none => exact .record (e := .token _ _ none) trivial s
  | some n =>
    obtain ⟨hstart, hstop⟩ := Terminal.isBoundary_of_scanAt_length hlength
    exact .record (e := .token kind trivia.stop (some n)) ⟨Nat.le_add_right _ _, hstart, hstop⟩ s

namespace Setting

variable {c : Setting} {p : Nat} {result : Search}

/-- The stretch that the recovery of a sequence skips goes from the trivia to a boundary behind
it. -/
theorem resumedError?_spans (hp : c.text.isBoundary p = true)
    (h : result.Fits c (c.trivia p).stop) :
    ∀ e ∈ c.resumedError? p result, c.text.Spans e.1 e.2 := by
  have hstart := c.isBoundary_trivia_stop hp
  intro e he
  cases result with
  | abandoned => cases he
  | stopped stop =>
    cases he
    exact ⟨h.1, hstart, h.2⟩
  | found start m =>
    obtain ⟨-, he⟩ := Option.ite_none_right_eq_some.mp he
    cases he
    exact ⟨h.1, hstart, h.2.1⟩

/-- A recovery in a repetition makes an error over a stretch between boundaries. -/
theorem iterationError?_spans (hp : c.text.isBoundary p = true)
    (h : result.Fits c (c.trivia p).stop) :
    ∀ e ∈ c.iterationError? p result, c.text.Spans e.1 e.2 := by
  cases result with
  | abandoned => exact nofun
  | stopped stop => exact nofun
  | found start m => exact @resumedError?_spans _ _ (.found start _) hp h

end Setting

/-- A run from a boundary, with kept results that fit, only adds such events. -/
theorem Run.appends {c : Setting} {d : Nat} {job : Job} {p : Nat} {s s' : State} {out : Outcome}
    (h : Run c d job p s out s') (hready : job.Ready c p)
    (hfits : s.memo.Fits c.text c.points) : s.Appends c.text s' := by
  induction h with
  | refused tick => exact .tick tick
  | tooDeep tick =>
    exact (State.Appends.tick tick).trans ⟨[.halt .tooDeep], rfl, by simp [Event.InRun]⟩
  | ticked tick rest ih =>
    exact (State.Appends.tick tick).trans (ih hready ((State.of_tick_true tick).2.2.1 ▸ hfits))
  | blank => exact .of_log_eq rfl
  | @token c d terminal kind immediate p s => exact runToken_appends c terminal kind immediate p s
  | call rest ih => exact ih hready hfits
  | members rest ih => exact ih hready hfits
  | alternatives rest ih => exact ih hready hfits
  | repetition rest ih => exact ih hready hfits
  | wrap rest ih => exact ih hready hfits
  | cancelled ask => exact .ask ask
  | hit ask known => exact (State.Appends.ask ask).trans (.record (e := .hit _ _ _) trivial _)
  | body ask unknown rest ih =>
    have hkept := (State.of_ask_true ask).2.2.1
    have hbody :=
      (State.Appends.record (e := .call _ _) trivial _).trans (ih hready (hkept ▸ hfits))
    exact ((State.Appends.ask ask).trans hbody).trans
      ((State.Appends.keep _ _ _ _ _).trans (.record (e := .leave _ _) trivial _))
  | seqNil => exact .of_log_eq rfl
  | seqSkip tail ih => exact ih hready hfits
  | seqTook head tail ihhead ihtail =>
    obtain ⟨hfirst, hfits₁⟩ := head.fits hready hfits
    exact (ihhead hready hfits).trans (ihtail (hfirst.isBoundary hready rfl) hfits₁)
  | seqFailed head final ih => exact ih hready hfits
  | @seqEnded c d step rest p s notes s₁ failure result reach s' head armed scan ended ihhead
      ihscan =>
    have hfits₁ := (head.fits hready hfits).2
    have hready₁ := Job.ready_search hready (step :: rest)
    have hresult := (scan.fits hready₁ hfits₁).1
    exact ((ihhead hready hfits).trans (ihscan hready₁ hfits₁)).trans
      (.recordError (Setting.resumedError?_spans hready hresult) _)
  | @seqResumed c d step rest p s notes s₁ failure result reach s₂ index a s' head armed scan
      resumed tail ihhead ihscan ihtail =>
    have hfits₁ := (head.fits hready hfits).2
    have hready₁ := Job.ready_search hready (step :: rest)
    obtain ⟨hresult, hfits₂⟩ := scan.fits hready₁ hfits₁
    have hstop := Setting.isBoundary_resumedTaken_stop failure.expected hready hresult
    have hrest := ihtail hstop (by rwa [State.recordError_memo])
    exact ((ihhead hready hfits).trans (ihscan hready₁ hfits₁)).trans
      ((State.Appends.recordError (Setting.resumedError?_spans hready hresult) _).trans hrest)
  | choiceNil => exact .of_log_eq rfl
  | choiceTook head ih => exact ih hready hfits
  | choiceNext head tail ihhead ihtail =>
    have hrest := ihtail hready (head.fits hready hfits).2
    exact (ihhead hready hfits).trans
      ((State.Appends.record (e := .backtrack _) trivial _).trans hrest)
  | exhausted => exact .of_log_eq rfl
  | enough => exact .of_log_eq rfl
  | idleIteration room head still ih => exact ih hready hfits
  | nextIteration room head moved tail ihhead ihtail =>
    obtain ⟨hfirst, hfits₁⟩ := head.fits hready hfits
    exact (ihhead hready hfits).trans (ihtail (hfirst.isBoundary hready rfl) hfits₁)
  | lastIteration room head final ih => exact ih hready hfits
  | lostIteration room head started armed scan ended ihhead ihscan =>
    have hfits₁ := (head.fits hready hfits).2
    exact (ihhead hready hfits).trans (ihscan (Job.ready_search hready [_]) hfits₁)
  | @foundIteration c d body least most left count p s notes s₁ failure result reach s₂ t a s' room
      head started armed scan resumed tail ihhead ihscan ihtail =>
    have hfits₁ := (head.fits hready hfits).2
    have hready₁ := Job.ready_search hready [body]
    obtain ⟨hresult, hfits₂⟩ := scan.fits hready₁ hfits₁
    have hstop :=
      Setting.isBoundary_resumedIteration?_stop failure.expected hready hresult resumed
    have hrest := ihtail hstop (by rwa [State.recordError_memo])
    exact ((ihhead hready hfits).trans (ihscan hready₁ hfits₁)).trans
      ((State.Appends.recordError (Setting.iterationError?_spans hready hresult) _).trans hrest)
  | trialNil => exact .of_log_eq rfl
  | trialFound head past ih => exact ih hready hfits
  | trialNext head short tail ihhead ihtail =>
    exact (ihhead hready hfits).trans (ihtail hready (head.fits hready hfits).2)
  | lookRefused tick => exact .tick tick
  | lookFound tick attempts ih =>
    exact (State.Appends.tick tick).trans (ih hready ((State.of_tick_true tick).2.2.1 ▸ hfits))
  | lookStopped tick attempts final ih =>
    exact (State.Appends.tick tick).trans (ih hready ((State.of_tick_true tick).2.2.1 ▸ hfits))
  | lookPassed tick attempts passed ih =>
    exact (State.Appends.tick tick).trans (ih hready ((State.of_tick_true tick).2.2.1 ▸ hfits))
  | searchEnd here ih => exact ih hready.1 hfits
  | searchDone here ih => exact ih hready.1 hfits
  | searchNext here tail ihhere ihtail =>
    exact (ihhere hready.1 hfits).trans (ihtail hready.next (here.fits hready.1 hfits).2)

/-- A round adds such events to that of its beginning. -/
theorem runRound_appends {c : Setting} {depth : Nat} {s s' : State} {a : Answer}
    (h : runRound c depth s = (a, s')) (hfits : s.memo.Fits c.text c.points) :
    s.Appends c.text s' := by
  obtain ⟨a₀, hrun, -⟩ := runRound_eq.mp h
  exact hrun.appends c.text.isBoundary_zero hfits

/-- Whether the log of a state tells of an event. -/
def State.Tells (s : State) (e : Event) : Prop := ∃ log, s.log = some log ∧ e ∈ log

namespace State.Tells

variable {text : Text} {s s' : State} {e : Event}

/-- What the log tells it goes on to tell. -/
theorem appends (h : s.Tells e) (happends : s.Appends text s') : s'.Tells e := by
  obtain ⟨log, hs, he⟩ := h
  obtain ⟨new, hlog, -⟩ := happends
  exact ⟨new ++ log, by rw [hlog, hs]; rfl, List.mem_append_right _ he⟩

/-- What the log tells it tells with another event. -/
theorem record (h : s.Tells e) (e' : Event) : (s.record e').Tells e := by
  obtain ⟨log, hs, he⟩ := h
  exact ⟨e' :: log, congrArg (Option.map (e' :: ·)) hs, List.mem_cons_of_mem _ he⟩

/-- What the log tells it tells at the end of the parse. -/
theorem takenInFull (h : s.Tells e) (c : Setting) (a : Answer) :
    (takenInFull c a s).2.Tells e := by
  simp only [Packrat.takenInFull]
  split
  · exact h.record _
  · exact h

end State.Tells

section

variable {p : Program} {o : ParseOptions} {text : Text} {known : Results} {e : Event}

/-- What the log of a parse tells between two rounds, it tells in the end. -/
theorem Rounds.tells {left number : Nat} {points points' : List Nat} {s s' : State} {a : Answer}
    (h : Rounds p o text left number points s a points' s')
    (hfits : s.memo.Fits text (roundSetting p o text points).points) (he : s.Tells e) :
    s'.Tells e := by
  induction h with
  | last round =>
    have happends := runRound_appends round (by exact hfits)
    exact (he.record _).appends happends
  | next round more rest ih =>
    have happends := runRound_appends round (by exact hfits)
    exact ih ((runRound_fits round hfits).2.settle _) ((he.record _).appends happends)

/-- The first round knows no error points. -/
theorem roundSetting_nil (p : Program) (o : ParseOptions) (text : Text) :
    roundSetting p o text [] = ⟨p, text, o.memoize, [], false⟩ := by
  simp [roundSetting]

/-- The trace of a parse tells what its first round logs. -/
theorem Program.mem_log_parseWith {out : Outcome} {s : State} (hknown : Results.Fit text known)
    (hrun : Run ⟨p, text, o.memoize, [], false⟩ o.recursionLimit (.rule p.start) 0
      ((o.startState known true).record (.round 1 [])) out s)
    (he : s.Tells e) : e ∈ (p.parseWith o known true text).log := by
  obtain ⟨a, points, s', hrounds, heq⟩ := p.exists_rounds o known true text
  have hfits : (o.startState known true).memo.Fits text (roundSetting p o text []).points :=
    ⟨hknown, by simp [ParseOptions.startState]⟩
  have hsame : ∀ {b u}, runRound (roundSetting p o text []) o.recursionLimit
      ((o.startState known true).record (.round 1 (roundSetting p o text []).points)) = (b, u) →
      u = s := by
    intro b u hround
    rw [roundSetting_nil] at hround
    obtain ⟨b₀, hround, -⟩ := runRound_eq.mp hround
    exact (Prod.ext_iff.mp ((run_iff.mp hround).symm.trans (run_iff.mp hrun))).2
  have htells : s'.Tells e := by
    cases hrounds with
    | last round => exact hsame round ▸ he
    | next round more rest =>
      obtain rfl := hsame round
      exact rest.tells ((runRound_fits round hfits).2.settle _) he
  obtain ⟨log, hlog, hmem⟩ := htells.takenInFull (roundSetting p o text points) a
  rw [heq, hlog]
  exact List.mem_reverse.mpr hmem

end

end Packrat
