import Mathlib.Logic.Relation
import Packrat.Proofs.Parse.Idle

/-!
# What is run for what

A moment of a parse is one at which a job starts, with all that it starts from. `Moment.Runs` says
which jobs are run directly for another one; a way along it leads from a job to one that starts
while the first has not come to an end, so the rules on it are the calls that are open. What holds
of the kept results at a moment holds at all moments that come of it.
-/

namespace Packrat

/-- A job that starts and what it starts from. -/
structure Moment where
  setting : Setting
  /-- How deeply operations may nest. -/
  depth : Nat
  job : Job
  position : Nat
  state : State

/-- Whether every run in a setting keeps what holds of the memo. -/
def Setting.Keeps (c : Setting) (P : Memo → Prop) : Prop :=
  ∀ {d job p s out s'}, Run c d job p s out s' → job.Ready c p → s.memo.Fits c.text c.points →
    P s.memo → P s'.memo

namespace Moment

/-- `a.Runs b` says that the job of `b` is run directly for that of `a`. -/
inductive Runs : Moment → Moment → Prop
  -- operations
  | ticked {c d step p s s₁} (tick : s.tick = (true, s₁)) :
      Runs ⟨c, d + 1, .step step, p, s⟩ ⟨c, d, .operation step, p, s₁⟩
  | call {c d rule renamed p s} :
      Runs ⟨c, d, .operation (.call rule renamed), p, s⟩ ⟨c, d, .rule rule, p, s⟩
  | members {c d members p s} :
      Runs ⟨c, d, .operation (.seq members), p, s⟩ ⟨c, d, .seq members 0 true, p, s⟩
  | alternatives {c d members p s} :
      Runs ⟨c, d, .operation (.choice members), p, s⟩ ⟨c, d, .choice members, p, s⟩
  | repetition {c d body min max p s} :
      Runs ⟨c, d, .operation (.repetition body min max), p, s⟩
        ⟨c, d, .iterations body min.toNat (max.map (·.toNat)) (c.text.size + 1 - p) 0, p, s⟩
  | wrap {c d body kind p s} :
      Runs ⟨c, d, .operation (.wrap body kind), p, s⟩ ⟨c, d, .step body, p, s⟩
  -- rules
  | body {c d rule p s s₁} (ask : s.ask = (true, s₁)) (unknown : known? c rule p s₁ = none) :
      Runs ⟨c, d, .rule rule, p, s⟩
        ⟨c, d, .step (c.program.rule rule).body, p, s₁.record (.call rule p)⟩
  -- sequences
  | seqSkip {c d step rest skip isFirst p s} :
      Runs ⟨c, d, .seq (step :: rest) (skip + 1) isFirst, p, s⟩ ⟨c, d, .seq rest skip false, p, s⟩
  | seqHead {c d step rest isFirst p s} :
      Runs ⟨c, d, .seq (step :: rest) 0 isFirst, p, s⟩ ⟨c, d, .step step, p, s⟩
  | seqTail {c d step rest isFirst p s t notes s₁}
      (head : Run c d (.step step) p s (.answer ⟨some t, notes⟩) s₁) :
      Runs ⟨c, d, .seq (step :: rest) 0 isFirst, p, s⟩ ⟨c, d, .seq rest 0 false, t.stop, s₁⟩
  | seqScan {c d step rest p s notes s₁ failure}
      (head : Run c d (.step step) p s (.answer ⟨none, notes⟩) s₁)
      (armed : c.recoverable? notes = some failure) :
      Runs ⟨c, d, .seq (step :: rest) 0 false, p, s⟩
        ⟨c, d, .search (step :: rest) (c.text.charsFrom (c.trivia p).stop), (c.trivia p).stop, s₁⟩
  | seqResumed {c d step rest p s notes s₁ failure result reach s₂ index}
      (head : Run c d (.step step) p s (.answer ⟨none, notes⟩) s₁)
      (armed : c.recoverable? notes = some failure)
      (scan : Run c d (.search (step :: rest) (c.text.charsFrom (c.trivia p).stop))
        (c.trivia p).stop s₁ (.searched result reach) s₂)
      (resumed : result.index? = some index) :
      Runs ⟨c, d, .seq (step :: rest) 0 false, p, s⟩
        ⟨c, d, .seq rest index false, (c.resumedTaken p failure.expected result).stop,
          s₂.recordError (c.resumedError? p result)⟩
  -- choices
  | choiceHead {c d step rest p s} :
      Runs ⟨c, d, .choice (step :: rest), p, s⟩ ⟨c, d, .step step, p, s⟩
  | choiceNext {c d step rest p s notes s₁}
      (head : Run c d (.step step) p s (.answer ⟨none, notes⟩) s₁) :
      Runs ⟨c, d, .choice (step :: rest), p, s⟩
        ⟨c, d, .choice rest, p, s₁.record (.backtrack p)⟩
  -- repetitions
  | iteration {c d body least most left count p s} (room : most.any (· ≤ count) = false) :
      Runs ⟨c, d, .iterations body least most (left + 1) count, p, s⟩ ⟨c, d, .step body, p, s⟩
  | nextIteration {c d body least most left count p s t notes s₁}
      (room : most.any (· ≤ count) = false)
      (head : Run c d (.step body) p s (.answer ⟨some t, notes⟩) s₁) (moved : t.stop ≠ p) :
      Runs ⟨c, d, .iterations body least most (left + 1) count, p, s⟩
        ⟨c, d, .iterations body least most left (count + 1), t.stop, s₁⟩
  | iterationScan {c d body least most left count p s notes s₁ failure}
      (room : most.any (· ≤ count) = false)
      (head : Run c d (.step body) p s (.answer ⟨none, notes⟩) s₁)
      (started : 1 ≤ count ∨ least = 0) (armed : c.recoverable? notes = some failure) :
      Runs ⟨c, d, .iterations body least most (left + 1) count, p, s⟩
        ⟨c, d, .search [body] (c.text.charsFrom (c.trivia p).stop), (c.trivia p).stop, s₁⟩
  | foundIteration {c d body least most left count p s notes s₁ failure result reach s₂ t}
      (room : most.any (· ≤ count) = false)
      (head : Run c d (.step body) p s (.answer ⟨none, notes⟩) s₁)
      (started : 1 ≤ count ∨ least = 0) (armed : c.recoverable? notes = some failure)
      (scan : Run c d (.search [body] (c.text.charsFrom (c.trivia p).stop))
        (c.trivia p).stop s₁ (.searched result reach) s₂)
      (resumed : c.resumedIteration? p failure.expected result = some t) :
      Runs ⟨c, d, .iterations body least most (left + 1) count, p, s⟩
        ⟨c, d, .iterations body least most left (count + 1), t.stop,
          s₂.recordError (c.iterationError? p result)⟩
  -- searches
  | trialHead {c d floor index step rest p s} :
      Runs ⟨c, d, .trial floor index (step :: rest), p, s⟩ ⟨c, d, .step step, p, s⟩
  | trialNext {c d floor index step rest p s a s₁}
      (head : Run c d (.step step) p s (.answer a) s₁)
      (short : ∀ t, a.taken = some t → ¬ floor < t.stop) :
      Runs ⟨c, d, .trial floor index (step :: rest), p, s⟩
        ⟨c, d, .trial floor (index + 1) rest, p, s₁⟩
  | attempts {c d steps p s s₁} (tick : s.tick = (true, s₁)) :
      Runs ⟨c, d, .look steps, p, s⟩ ⟨c.strict, d, .trial (c.trivia p).stop 0 steps, p, s₁⟩
  | look {c d steps rest p s} :
      Runs ⟨c, d, .search steps rest, p, s⟩ ⟨c, d, .look steps, p, s⟩
  | searchNext {c d steps char rest p s reach s₁}
      (here : Run c d (.look steps) p s (.looked none reach) s₁) :
      Runs ⟨c, d, .search steps (char :: rest), p, s⟩
        ⟨c, d, .search steps rest, p + char.utf8Size, s₁⟩

/-- What is run in a parse that goes on is run for something in a parse that goes on. -/
theorem Runs.live {a b : Moment} (h : a.Runs b) (hlive : b.state.halted = none) :
    a.state.halted = none := by
  cases h with
  | ticked tick => exact (State.of_tick_true tick).1
  | body ask => exact (State.of_ask_true ask).1
  | seqTail head => exact head.live hlive
  | seqScan head => exact head.live hlive
  | seqResumed head _ scan => exact head.live (scan.live (by simpa using hlive))
  | choiceNext head => exact head.live hlive
  | nextIteration _ head => exact head.live hlive
  | iterationScan _ head => exact head.live hlive
  | foundIteration _ head _ _ scan => exact head.live (scan.live (by simpa using hlive))
  | trialNext head => exact head.live hlive
  | attempts tick => exact (State.of_tick_true tick).1
  | searchNext here => exact here.live hlive
  | _ => exact hlive

/-- What is run for a job is run as the job is, or without recovery. -/
theorem Runs.setting {a b : Moment} (h : a.Runs b) :
    b.setting = a.setting ∨ b.setting = a.setting.strict := by
  cases h with
  | attempts => exact .inr rfl
  | _ => exact .inl rfl

/-- Where a job may start, so may what is run for it, and what every run keeps of the memo is
kept. -/
theorem Runs.keeps {a b : Moment} {P : Memo → Prop} (h : a.Runs b)
    (hready : a.job.Ready a.setting a.position)
    (hfits : a.state.memo.Fits a.setting.text a.setting.points)
    (hkeeps : a.setting.Keeps P) (hP : P a.state.memo) :
    b.job.Ready b.setting b.position ∧ b.state.memo.Fits b.setting.text b.setting.points ∧
      P b.state.memo := by
  cases h with
  | ticked tick =>
    have hkept := (State.of_tick_true tick).2.2.1
    exact ⟨hready, hkept ▸ hfits, hkept ▸ hP⟩
  | body ask =>
    have hkept := (State.of_ask_true ask).2.2.1
    exact ⟨hready, hkept ▸ hfits, hkept ▸ hP⟩
  | seqTail head =>
    obtain ⟨hfirst, hfits₁⟩ := head.fits hready hfits
    exact ⟨hfirst.isBoundary hready rfl, hfits₁, hkeeps head hready hfits hP⟩
  | seqScan head armed =>
    have hfits₁ := (head.fits hready hfits).2
    exact ⟨Job.ready_search hready _, hfits₁, hkeeps head hready hfits hP⟩
  | @seqResumed c d step rest p s notes s₁ failure result reach s₂ index head armed scan resumed =>
    have hready₁ := Job.ready_search hready (step :: rest)
    have hfits₁ := (head.fits hready hfits).2
    obtain ⟨hresult, hfits₂⟩ := scan.fits hready₁ hfits₁
    have hP₂ := hkeeps scan hready₁ hfits₁ (hkeeps head hready hfits hP)
    rw [← State.recordError_memo (c.resumedError? p result)] at hfits₂ hP₂
    exact ⟨Setting.isBoundary_resumedTaken_stop failure.expected hready hresult, hfits₂, hP₂⟩
  | choiceNext head =>
    have hP₁ := hkeeps head hready hfits hP
    exact ⟨hready, (head.fits hready hfits).2, hP₁⟩
  | nextIteration room head moved =>
    obtain ⟨hfirst, hfits₁⟩ := head.fits hready hfits
    exact ⟨hfirst.isBoundary hready rfl, hfits₁, hkeeps head hready hfits hP⟩
  | iterationScan room head started armed =>
    have hfits₁ := (head.fits hready hfits).2
    exact ⟨Job.ready_search hready _, hfits₁, hkeeps head hready hfits hP⟩
  | @foundIteration c d body least most left count p s notes s₁ failure result reach s₂ t room head
      started armed scan resumed =>
    have hready₁ := Job.ready_search hready [body]
    have hfits₁ := (head.fits hready hfits).2
    obtain ⟨hresult, hfits₂⟩ := scan.fits hready₁ hfits₁
    have hP₂ := hkeeps scan hready₁ hfits₁ (hkeeps head hready hfits hP)
    rw [← State.recordError_memo (c.iterationError? p result)] at hfits₂ hP₂
    exact ⟨Setting.isBoundary_resumedIteration?_stop failure.expected hready hresult resumed,
      hfits₂, hP₂⟩
  | trialNext head => exact ⟨hready, (head.fits hready hfits).2, hkeeps head hready hfits hP⟩
  | attempts tick =>
    have hkept := (State.of_tick_true tick).2.2.1
    exact ⟨hready, hkept ▸ hfits, hkept ▸ hP⟩
  | look => exact ⟨hready.1, hfits, hP⟩
  | searchNext here =>
    exact ⟨hready.next, (here.fits hready.1 hfits).2, hkeeps here hready.1 hfits hP⟩
  | _ => exact ⟨hready, hfits, hP⟩

variable {g : Program} {early : Bool} {text : Text} {layers : g.Layering early}

/-- What holds at all moments in a parse of a text by a program with a layering. -/
structure Sound (layers : g.Layering early) (text : Text) (t : Moment) : Prop where
  program : t.setting.program = g
  text : t.setting.text = text
  mode : t.setting.recovering = true → early = true
  ready : t.job.Ready t.setting t.position
  fits : t.state.memo.Fits t.setting.text t.setting.points
  idles : t.state.memo.Idles early layers.idle

section

variable {c : Setting} {d p : Nat} {job : Job} {s s' : State} {out : Outcome}

/-- What a job at a sound moment comes to fits the text. -/
theorem Sound.run_fits (h : Sound layers text ⟨c, d, job, p, s⟩) (hrun : Run c d job p s out s') :
    out.Fits c p := (hrun.fits h.ready h.fits).1

/-- A job at a sound moment takes nothing only if it may. -/
theorem Sound.run_idles (h : Sound layers text ⟨c, d, job, p, s⟩)
    (hrun : Run c d job p s out s') (hlive : s'.halted = none) :
    out.Idles g early layers.idle job p := by
  obtain ⟨rfl, -, hmode, hready, hfits, hidles⟩ := h
  exact (hrun.idles layers hmode hready hfits hidles).1 hlive

/-- Another job can start from what a run has left. -/
theorem Sound.after (h : Sound layers text ⟨c, d, job, p, s⟩) (hrun : Run c d job p s out s')
    {job' : Job} {p' d' : Nat} {s'' : State} (hready : job'.Ready c p')
    (hmemo : s''.memo = s'.memo) : Sound layers text ⟨c, d', job', p', s''⟩ := by
  obtain ⟨rfl, htext, hmode, hready₀, hfits, hidles⟩ := h
  refine ⟨rfl, htext, hmode, hready, ?_, ?_⟩
  · simp only [hmemo]
    exact (hrun.fits hready₀ hfits).2
  · simp only [hmemo]
    exact (hrun.idles layers hmode hready₀ hfits hidles).2

/-- Another job can start from the same. -/
theorem Sound.restart (h : Sound layers text ⟨c, d, job, p, s⟩) {job' : Job} {p' d' : Nat}
    (hready : job'.Ready c p') (hmemo : s'.memo = s.memo) :
    Sound layers text ⟨c, d', job', p', s'⟩ := by
  obtain ⟨hprogram, htext, hmode, -, hfits, hidles⟩ := h
  refine ⟨hprogram, htext, hmode, hready, ?_, ?_⟩
  · simpa only [hmemo] using hfits
  · simpa only [hmemo] using hidles

end

/-- What holds at a moment holds at those that come of it. -/
theorem Sound.runs {a b : Moment} (h : Sound layers text a) (hruns : a.Runs b) :
    Sound layers text b := by
  obtain ⟨rfl, rfl, hmode, hready, hfits, hidles⟩ := h
  have hkeeps : a.setting.Keeps (Memo.Idles early layers.idle) :=
    fun hrun hready hfits hidles => (hrun.idles layers hmode hready hfits hidles).2
  obtain ⟨hready', hfits', hidles'⟩ := hruns.keeps hready hfits hkeeps hidles
  rcases b with ⟨c, d, job, p, s⟩
  rcases hruns.setting with hsame | hstrict
  · obtain rfl : c = a.setting := hsame
    exact ⟨rfl, rfl, hmode, hready', hfits', hidles'⟩
  · obtain rfl : c = a.setting.strict := hstrict
    exact ⟨rfl, rfl, fun hrec => (nomatch hrec), hready', hfits', hidles'⟩

end Moment

end Packrat
