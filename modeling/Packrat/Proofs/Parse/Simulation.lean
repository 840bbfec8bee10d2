import Packrat.Proofs.Strict.Completeness

/-!
# Runs that simulate each other

Two runs of one job in one round may keep different results, and so use kept results in different
places. `Simulation` lists what a relation of states needs for the second run to come to the same
as the first one: only rules need an argument of their own, everything else goes in step. Answers
agree up to the frontier in general, and exactly where the frontier matters: in recovering rounds
and where there are no error points.
-/

namespace Packrat

namespace Setting

/-- The same with results of rules kept or not. -/
def keeping (c : Setting) (memoize : Bool) : Setting := { c with memoize := memoize }

section

variable (c : Setting) (memoize : Bool) (p : Nat)

/-- Trivia are the same whether results are kept or not. -/
@[simp] theorem trivia_keeping : (c.keeping memoize).trivia p = c.trivia p :=
  trivia_congr (c := c) (d := c.keeping memoize) rfl rfl p

/-- A recovery in a sequence takes the same whether results are kept or not. -/
@[simp] theorem resumedTaken_keeping (expected : List Nat) (result : Search) :
    (c.keeping memoize).resumedTaken p expected result = c.resumedTaken p expected result := by
  cases result <;> simp only [resumedTaken, trivia_keeping] <;> rfl

/-- A recovery in a sequence makes the same error whether results are kept or not. -/
@[simp] theorem resumedError?_keeping (result : Search) :
    (c.keeping memoize).resumedError? p result = c.resumedError? p result := by
  cases result <;> simp only [resumedError?, trivia_keeping]

/-- A recovery in a repetition takes the same whether results are kept or not. -/
@[simp] theorem resumedIteration?_keeping (expected : List Nat) (result : Search) :
    (c.keeping memoize).resumedIteration? p expected result =
      c.resumedIteration? p expected result := by
  cases result <;> simp only [resumedIteration?, resumedTaken_keeping]

/-- A recovery in a repetition makes the same error whether results are kept or not. -/
@[simp] theorem iterationError?_keeping (result : Search) :
    (c.keeping memoize).iterationError? p result = c.iterationError? p result := by
  cases result <;> simp only [iterationError?, resumedError?_keeping]

/-- A search stops at the same places whether results are kept or not, as long as both parses go
on. -/
theorem stopsAt_keeping {s s' : State} (hs : s.halted = none) (hs' : s'.halted = none) (p : Nat) :
    (c.keeping memoize).stopsAt p s' = c.stopsAt p s :=
  stopsAt_congr (c := c) (d := c.keeping memoize) rfl rfl hs hs' p

end

/-- Whether a setting is that of a round, or the one for the attempts of its searches. -/
def Within (c c₀ : Setting) : Prop := c = c₀ ∨ c = c₀.strict

/-- Whether frontiers matter: they do not in the attempts of searches. -/
def Fine (c : Setting) : Prop := c.recovering = true ∨ c.points = []

variable {c c₀ : Setting}

/-- With recovery switched off, a setting is still one of the same round. -/
theorem Within.strict (h : c.Within c₀) : c.strict.Within c₀ := by
  rcases h with rfl | rfl
  · exact .inr rfl
  · exact .inr rfl

/-- All of a round is run with the program of the round. -/
theorem Within.program (h : c.Within c₀) : c.program = c₀.program := by
  rcases h with rfl | rfl <;> rfl

/-- All of a round is run on the text of the round. -/
theorem Within.text (h : c.Within c₀) : c.text = c₀.text := by
  rcases h with rfl | rfl <;> rfl

/-- All of a round is run with the error points of the round. -/
theorem Within.points (h : c.Within c₀) : c.points = c₀.points := by
  rcases h with rfl | rfl <;> rfl

/-- Results are kept all through a round or not at all. -/
theorem Within.memoize (h : c.Within c₀) : c.memoize = c₀.memoize := by
  rcases h with rfl | rfl <;> rfl

/-- What is kept is sound in a round and in the attempts of its searches alike. -/
theorem Within.sound_iff (h : c.Within c₀) {m : Memo} :
    m.Sound c.program c.text c.points ↔ m.Sound c₀.program c₀.text c₀.points := by
  rw [h.program, h.text, h.points]

/-- Where frontiers matter, no error point lies in a quiet stretch. -/
theorem Quiet.anyBetween {start stop : Nat} (h : c.Quiet start stop) (hfine : c.Fine) :
    anyBetween c.points start stop = false := by
  rcases hfine with hrec | hpoints
  · exact h hrec
  · simp [Packrat.anyBetween, hpoints]

end Setting

/-- Whether answers are the same, up to the frontier where it does not matter. -/
structure Answer.Agrees (c : Setting) (a b : Answer) : Prop where
  plain : a.plain = b.plain
  exact : c.Fine → a = b

/-- Whether the second outcome is the first one, up to the frontier of an answer. -/
def Outcome.Agrees (c : Setting) : Outcome → Outcome → Prop
  | answer a, out => ∃ b, out = .answer b ∧ a.Agrees c b
  | result, out => out = result

namespace Answer.Agrees

variable {c : Setting} {a b : Answer}

/-- An answer agrees with itself. -/
theorem refl (c : Setting) (a : Answer) : a.Agrees c a := ⟨rfl, fun _ => rfl⟩

/-- If an answer agrees with another one, so does the other with it. -/
theorem symm (h : a.Agrees c b) : b.Agrees c a := ⟨h.plain.symm, fun hfine => (h.exact hfine).symm⟩

/-- Answers that agree with the same answer agree. -/
theorem trans {b' : Answer} (h : a.Agrees c b) (h' : b.Agrees c b') : a.Agrees c b' :=
  ⟨h.plain.trans h'.plain, fun hfine => (h.exact hfine).trans (h'.exact hfine)⟩

/-- Answers that agree take the same. -/
theorem taken (h : a.Agrees c b) : a.taken = b.taken := by
  have htaken := congrArg Answer.taken h.plain
  exact htaken

/-- Answers that agree have the same furthest failure. -/
theorem far (h : a.Agrees c b) : a.notes.far = b.notes.far :=
  congrArg (fun a => a.notes.far) h.plain

/-- Answers that agree have looked as far. -/
theorem reach (h : a.Agrees c b) : a.notes.reach = b.notes.reach :=
  congrArg (fun a => a.notes.reach) h.plain

/-- Answers that agree take the same. -/
theorem exists_notes {taken : Option Taken} {notes : Notes}
    (h : Answer.Agrees c ⟨taken, notes⟩ b) : ∃ notes', b = ⟨taken, notes'⟩ :=
  ⟨b.notes, by rw [show taken = b.taken from h.taken]⟩

/-- The same change of answers that agree. -/
theorem map {f g : Answer → Answer} (h : a.Agrees c b) (hplain : ∀ a, (f a).plain = g a.plain) :
    (f a).Agrees c (f b) :=
  ⟨by rw [hplain, hplain, h.plain], fun hfine => by rw [h.exact hfine]⟩

/-- Answers that agree still do so behind answers that agree. -/
theorem behind {t : Taken} {taken : Option Taken} {notes notes' : Notes}
    (hfirst : Answer.Agrees c ⟨taken, notes⟩ ⟨taken, notes'⟩) (hrest : a.Agrees c b) :
    (Answer.behind t notes a).Agrees c (.behind t notes' b) := by
  refine ⟨?_, fun hfine => ?_⟩
  · have hnotes : notes.plain = notes'.plain := congrArg Answer.notes hfirst.plain
    rw [plain_behind, plain_behind, hnotes, hrest.plain]
  · cases hfirst.exact hfine
    rw [hrest.exact hfine]

/-- Answers that agree still do so when notes are added that agree. -/
theorem noting {taken : Option Taken} {notes notes' : Notes}
    (hfirst : Answer.Agrees c ⟨taken, notes⟩ ⟨taken, notes'⟩) (hrest : a.Agrees c b) :
    (Answer.noting notes a).Agrees c (.noting notes' b) := by
  refine ⟨?_, fun hfine => ?_⟩
  · have hnotes : notes.plain = notes'.plain := congrArg Answer.notes hfirst.plain
    rw [plain_noting, plain_noting, hnotes, hrest.plain]
  · cases hfirst.exact hfine
    rw [hrest.exact hfine]

/-- Looking at more of the text keeps notes in agreement. -/
theorem seen {taken : Option Taken} {notes notes' : Notes}
    (h : Answer.Agrees c ⟨taken, notes⟩ ⟨taken, notes'⟩) (taken' : Option Taken) (reach : Nat) :
    Answer.Agrees c ⟨taken', notes.join (.seen reach)⟩ ⟨taken', notes'.join (.seen reach)⟩ := by
  refine ⟨?_, fun hfine => ?_⟩
  · have hnotes : notes.plain = notes'.plain := congrArg Answer.notes h.plain
    simp only [Answer.plain, plain_join, hnotes]
  · cases h.exact hfine
    rfl

/-- A repetition ends in answers that agree when the notes of its iterations do. -/
theorem endRepetition {taken : Option Taken} {least count p : Nat} {notes notes' : Notes}
    (h : Answer.Agrees c ⟨taken, notes⟩ ⟨taken, notes'⟩) :
    (endRepetition least count p notes).Agrees c (endRepetition least count p notes') := by
  refine ⟨?_, fun hfine => ?_⟩
  · have hnotes : notes.plain = notes'.plain := congrArg Answer.notes h.plain
    rw [plain_endRepetition, plain_endRepetition, hnotes]
  · cases h.exact hfine
    rfl

/-- Answers that agree are recovered from alike. -/
theorem recoverable? {taken : Option Taken} {notes notes' : Notes}
    (h : Answer.Agrees c ⟨taken, notes⟩ ⟨taken, notes'⟩) :
    c.recoverable? notes' = c.recoverable? notes := by
  simp only [Setting.recoverable?, show notes.far = notes'.far from h.far]

end Answer.Agrees

/-- What a relation of the states of two runs in a round needs for the second run, which keeps
results or does not, to come to the same as the first one. -/
structure Simulation (c₀ : Setting) (memoize : Bool) (rel : State → State → Prop) : Prop where
  poorer : ∀ {u u'}, rel u u' → u.Poorer u'
  sound : ∀ {u u'}, rel u u' → u.memo.Sound c₀.program c₀.text c₀.points
  record : ∀ {u u'} (e e' : Event), rel u u' → rel (u.record e) (u'.record e')
  tick : ∀ {u u' v}, rel u u' → u.tick = (true, v) → ∃ v', u'.tick = (true, v') ∧ rel v v'
  /-- Where the first run uses a kept result, the second one has an answer that agrees. -/
  hit : ∀ {c d rule p u u' v entry recovering}, c.Within c₀ → c.text.isBoundary p = true →
    rel u u' → u.ask = (true, v) → known? c rule p v = some (entry, recovering) →
    ∃ a' v', Run (c.keeping memoize) d (.rule rule) p u' (.answer a') v' ∧
      (entry.answer c recovering).Agrees c a' ∧
      rel (v.record (.hit rule p (entry.taken.map (·.stop)))) v'
  /-- Where the first run runs the body of a rule, which can be simulated, the second one has an
  answer that agrees. -/
  body : ∀ {c d d' rule p u u' v a w}, c.Within c₀ → c.text.isBoundary p = true → rel u u' →
    u.ask = (true, v) → known? c rule p v = none →
    Run c d (.step (c.program.rule rule).body) p (v.record (.call rule p)) (.answer a) w →
    w.halted = none →
    (∀ u', rel (v.record (.call rule p)) u' → ∃ a' w',
      Run (c.keeping memoize) d' (.step (c.program.rule rule).body) p u' (.answer a') w' ∧
        a.Agrees c a' ∧ rel w w') →
    ∃ a' v', Run (c.keeping memoize) d' (.rule rule) p u' (.answer a') v' ∧
      (a.fromRule p).Agrees c a' ∧
      rel ((keep c rule p (a.entry p) w).record (.leave rule (a.taken.map (·.stop)))) v'

namespace Simulation

variable {c₀ : Setting} {memoize : Bool} {rel : State → State → Prop}

/-- Noting an error on both sides keeps states related. -/
theorem recordError (sim : Simulation c₀ memoize rel) {u u' : State} (h : rel u u')
    (e : Option (Nat × Nat)) : rel (u.recordError e) (u'.recordError e) := by
  cases e with
  | none => exact h
  | some e => exact sim.record _ _ h

/-- What is kept in the first of two related states fits the text. -/
theorem fits (sim : Simulation c₀ memoize rel) {c : Setting} (hwithin : c.Within c₀)
    {u u' : State} (h : rel u u') : u.memo.Fits c.text c.points := by
  rw [hwithin.text, hwithin.points]
  exact (sim.sound h).fits

end Simulation

/-- A terminal comes to the same whether results are kept or not. -/
theorem runToken_keeping (c : Setting) (memoize : Bool) (terminal kind : Nat) (immediate : Bool)
    (p : Nat) (s s' : State) :
    (runToken (c.keeping memoize) terminal kind immediate p s').1 =
      (runToken c terminal kind immediate p s).1 := by
  obtain ⟨trivia, htrivia⟩ : ∃ trivia, trivia =
      if immediate then (⟨[], p, 0⟩ : Trivia) else c.trivia p := ⟨_, rfl⟩
  simp only [runToken, Setting.trivia_keeping, ← htrivia]
  have hscan : ((c.keeping memoize).program.terminal terminal).scanAt (c.keeping memoize).text
      trivia.stop = (c.program.terminal terminal).scanAt c.text trivia.stop := rfl
  rw [hscan]
  cases ((c.program.terminal terminal).scanAt c.text trivia.stop).length <;> rfl

/-- A run that is simulated comes to the same and ends in states that are related again. -/
theorem Run.simulated {c₀ : Setting} {memoize : Bool} {rel : State → State → Prop}
    (sim : Simulation c₀ memoize rel) {c : Setting} {d : Nat} {job : Job} {p : Nat} {u v : State}
    {out : Outcome} (h : Run c d job p u out v) (hwithin : c.Within c₀) (hlive : v.halted = none)
    (hready : job.Ready c p) {d' : Nat} (hd : d ≤ d') {u' : State} (hrel : rel u u') :
    ∃ out' v', Run (c.keeping memoize) d' job p u' out' v' ∧ out.Agrees c out' ∧ rel v v' := by
  induction h generalizing d' u' with
  | refused tick => exact absurd hlive (State.of_tick_false tick).1
  | tooDeep => simp at hlive
  | ticked tick rest ih =>
    obtain ⟨k, rfl⟩ : ∃ k, d' = k + 1 := ⟨d' - 1, by omega⟩
    obtain ⟨v', htick, hrel'⟩ := sim.tick hrel tick
    obtain ⟨_, w', hrun, ⟨a', rfl, hagrees⟩, hrel''⟩ :=
      ih hwithin hlive hready (Nat.le_of_succ_le_succ hd) hrel'
    exact ⟨_, w', .ticked htick hrun, ⟨a', rfl, hagrees⟩, hrel''⟩
  | blank => exact ⟨_, _, .blank, ⟨_, rfl, .refl _ _⟩, hrel⟩
  | @token c d terminal kind immediate p u =>
    obtain ⟨e, he⟩ := runToken_state c terminal kind immediate p u
    obtain ⟨e', he'⟩ := runToken_state (c.keeping memoize) terminal kind immediate p u'
    refine ⟨_, _, .token, ⟨_, rfl, ?_⟩, ?_⟩
    · rw [runToken_keeping c memoize terminal kind immediate p u u']
      exact .refl _ _
    · rw [he, he']
      exact sim.record e e' hrel
  | call rest ih =>
    obtain ⟨_, v', hrun, ⟨a', rfl, hagrees⟩, hrel'⟩ := ih hwithin hlive hready hd hrel
    refine ⟨_, v', .call hrun, ⟨_, rfl, ?_⟩, hrel'⟩
    rw [State.isHalted_eq_false.mpr hlive, State.isHalted_eq_false.mpr (sim.poorer hrel').live]
    exact hagrees.map fun a => plain_called a _ _ _ _
  | members rest ih =>
    obtain ⟨_, v', hrun, ⟨a', rfl, hagrees⟩, hrel'⟩ := ih hwithin hlive hready hd hrel
    exact ⟨_, v', .members hrun, ⟨a', rfl, hagrees⟩, hrel'⟩
  | alternatives rest ih =>
    obtain ⟨_, v', hrun, ⟨a', rfl, hagrees⟩, hrel'⟩ := ih hwithin hlive hready hd hrel
    exact ⟨_, v', .alternatives hrun, ⟨a', rfl, hagrees⟩, hrel'⟩
  | repetition rest ih =>
    obtain ⟨_, v', hrun, ⟨a', rfl, hagrees⟩, hrel'⟩ := ih hwithin hlive hready hd hrel
    exact ⟨_, v', .repetition hrun, ⟨a', rfl, hagrees⟩, hrel'⟩
  | wrap rest ih =>
    obtain ⟨_, v', hrun, ⟨a', rfl, hagrees⟩, hrel'⟩ := ih hwithin hlive hready hd hrel
    exact ⟨_, v', .wrap hrun, ⟨_, rfl, hagrees.map fun a => plain_wrapped a _ _⟩, hrel'⟩
  | cancelled ask => exact absurd hlive (State.of_ask_false ask).1
  | hit ask known =>
    obtain ⟨a', v', hrun, hagrees, hrel'⟩ := sim.hit hwithin hready hrel ask known
    exact ⟨_, v', hrun, ⟨a', rfl, hagrees⟩, hrel'⟩
  | body ask unknown rest ih =>
    have hlive' := hlive
    rw [State.record_halted, keep_halted] at hlive'
    obtain ⟨a', v', hrun, hagrees, hrel'⟩ :=
      sim.body hwithin hready hrel ask unknown rest hlive' fun u' hrel' => by
        obtain ⟨_, w', hrun, ⟨a', rfl, hagrees⟩, hrel''⟩ := ih hwithin hlive' hready hd hrel'
        exact ⟨a', w', hrun, hagrees, hrel''⟩
    exact ⟨_, v', hrun, ⟨a', rfl, hagrees⟩, hrel'⟩
  | seqNil => exact ⟨_, _, .seqNil, ⟨_, rfl, .refl _ _⟩, hrel⟩
  | seqSkip tail ih =>
    obtain ⟨_, v', hrun, ⟨a', rfl, hagrees⟩, hrel'⟩ := ih hwithin hlive hready hd hrel
    exact ⟨_, v', .seqSkip hrun, ⟨a', rfl, hagrees⟩, hrel'⟩
  | seqTook head tail ihhead ihtail =>
    have htiles := (head.fits hready (sim.fits hwithin hrel)).1.tiles _ rfl
    obtain ⟨_, v₁, hhead, ⟨_, rfl, hagrees⟩, hrel₁⟩ :=
      ihhead hwithin (tail.live hlive) hready hd hrel
    obtain ⟨notes', rfl⟩ := hagrees.exists_notes
    obtain ⟨_, v', htail, ⟨a', rfl, hagrees'⟩, hrel'⟩ :=
      ihtail hwithin hlive (Tree.TilesAll.isBoundary hready _ htiles) hd hrel₁
    exact ⟨_, v', .seqTook hhead htail, ⟨_, rfl, hagrees.behind hagrees'⟩, hrel'⟩
  | seqFailed head final ih =>
    obtain ⟨_, v', hhead, ⟨_, rfl, hagrees⟩, hrel'⟩ := ih hwithin hlive hready hd hrel
    obtain ⟨notes', rfl⟩ := hagrees.exists_notes
    refine ⟨_, v', .seqFailed hhead (final.imp_right fun hnone => ?_), ⟨_, rfl, hagrees⟩, hrel'⟩
    exact hagrees.recoverable?.trans hnone
  | choiceNil => exact ⟨_, _, .choiceNil, ⟨_, rfl, .refl _ _⟩, hrel⟩
  | choiceTook head ih =>
    obtain ⟨_, v', hhead, ⟨_, rfl, hagrees⟩, hrel'⟩ := ih hwithin hlive hready hd hrel
    obtain ⟨notes', rfl⟩ := hagrees.exists_notes
    exact ⟨_, v', .choiceTook hhead, ⟨_, rfl, hagrees⟩, hrel'⟩
  | choiceNext head tail ihhead ihtail =>
    obtain ⟨_, v₁, hhead, ⟨_, rfl, hagrees⟩, hrel₁⟩ :=
      ihhead hwithin (tail.live hlive) hready hd hrel
    obtain ⟨notes', rfl⟩ := hagrees.exists_notes
    obtain ⟨_, v', htail, ⟨a', rfl, hagrees'⟩, hrel'⟩ :=
      ihtail hwithin hlive hready hd (sim.record _ _ hrel₁)
    exact ⟨_, v', .choiceNext hhead htail, ⟨_, rfl, hagrees.noting hagrees'⟩, hrel'⟩
  | exhausted => exact ⟨_, _, .exhausted, ⟨_, rfl, .refl _ _⟩, hrel⟩
  | enough full => exact ⟨_, _, .enough full, ⟨_, rfl, .refl _ _⟩, hrel⟩
  | idleIteration room head still ih =>
    obtain ⟨_, v', hhead, ⟨_, rfl, hagrees⟩, hrel'⟩ := ih hwithin hlive hready hd hrel
    obtain ⟨notes', rfl⟩ := hagrees.exists_notes
    exact ⟨_, v', .idleIteration room hhead still, ⟨_, rfl, hagrees.endRepetition⟩, hrel'⟩
  | nextIteration room head moved tail ihhead ihtail =>
    have htiles := (head.fits hready (sim.fits hwithin hrel)).1.tiles _ rfl
    obtain ⟨_, v₁, hhead, ⟨_, rfl, hagrees⟩, hrel₁⟩ :=
      ihhead hwithin (tail.live hlive) hready hd hrel
    obtain ⟨notes', rfl⟩ := hagrees.exists_notes
    obtain ⟨_, v', htail, ⟨a', rfl, hagrees'⟩, hrel'⟩ :=
      ihtail hwithin hlive (Tree.TilesAll.isBoundary hready _ htiles) hd hrel₁
    exact ⟨_, v', .nextIteration room hhead moved htail, ⟨_, rfl, hagrees.behind hagrees'⟩, hrel'⟩
  | lastIteration room head final ih =>
    obtain ⟨_, v', hhead, ⟨_, rfl, hagrees⟩, hrel'⟩ := ih hwithin hlive hready hd hrel
    obtain ⟨notes', rfl⟩ := hagrees.exists_notes
    refine ⟨_, v', .lastIteration room hhead fun hstarted => ?_,
      ⟨_, rfl, hagrees.endRepetition⟩, hrel'⟩
    exact hagrees.recoverable?.trans (final hstarted)
  | seqEnded head armed scan ended ihhead ihscan =>
    rw [State.recordError_halted] at hlive
    have hstart := Setting.isBoundary_trivia_stop _ hready
    obtain ⟨_, v₁, hhead, ⟨_, rfl, hagrees⟩, hrel₁⟩ :=
      ihhead hwithin (scan.live hlive) hready hd hrel
    obtain ⟨notes', rfl⟩ := hagrees.exists_notes
    obtain ⟨_, v₂, hscan, rfl, hrel₂⟩ := ihscan hwithin hlive ⟨hstart, rfl⟩ hd hrel₁
    rw [← Setting.trivia_keeping _ memoize] at hscan
    refine ⟨_, _, .seqEnded hhead (hagrees.recoverable?.trans armed) hscan ended, ⟨_, rfl, ?_⟩, ?_⟩
    · rw [Setting.trivia_keeping, Setting.resumedTaken_keeping]
      exact hagrees.seen _ _
    · rw [Setting.resumedError?_keeping]
      exact sim.recordError hrel₂ _
  | @seqResumed c d step rest p u notes u₁ failure result reach u₂ index a v head armed scan
      resumed tail ihhead ihscan ihtail =>
    have hlive₂ := tail.live hlive
    rw [State.recordError_halted] at hlive₂
    have hstart := Setting.isBoundary_trivia_stop c hready
    obtain ⟨_, v₁, hhead, ⟨_, rfl, hagrees⟩, hrel₁⟩ :=
      ihhead hwithin (scan.live hlive₂) hready hd hrel
    obtain ⟨notes', rfl⟩ := hagrees.exists_notes
    obtain ⟨hresult, -⟩ := scan.fits ⟨hstart, rfl⟩ (sim.fits hwithin hrel₁)
    have htiles := Setting.resumedTaken_tiles failure.expected hready hresult
    obtain ⟨_, v₂, hscan, rfl, hrel₂⟩ := ihscan hwithin hlive₂ ⟨hstart, rfl⟩ hd hrel₁
    obtain ⟨_, v', htail, ⟨a', rfl, hagrees'⟩, hrel'⟩ :=
      ihtail hwithin hlive (Tree.TilesAll.isBoundary hready _ htiles) hd
        (sim.recordError hrel₂ (c.resumedError? p result))
    rw [← Setting.trivia_keeping c memoize] at hscan
    rw [← Setting.resumedTaken_keeping c memoize, ← Setting.resumedError?_keeping c memoize]
      at htail
    refine ⟨_, v', .seqResumed hhead (hagrees.recoverable?.trans armed) hscan resumed htail,
      ⟨_, rfl, ?_⟩, hrel'⟩
    rw [Setting.trivia_keeping, Setting.resumedTaken_keeping]
    exact (hagrees.seen none _).behind hagrees'
  | lostIteration room head started armed scan ended ihhead ihscan =>
    have hstart := Setting.isBoundary_trivia_stop _ hready
    obtain ⟨_, v₁, hhead, ⟨_, rfl, hagrees⟩, hrel₁⟩ :=
      ihhead hwithin (scan.live hlive) hready hd hrel
    obtain ⟨notes', rfl⟩ := hagrees.exists_notes
    obtain ⟨_, v₂, hscan, rfl, hrel₂⟩ := ihscan hwithin hlive ⟨hstart, rfl⟩ hd hrel₁
    rw [← Setting.trivia_keeping _ memoize] at hscan
    rw [← Setting.resumedIteration?_keeping _ memoize] at ended
    refine ⟨_, v₂, .lostIteration room hhead started (hagrees.recoverable?.trans armed) hscan ended,
      ⟨_, rfl, ?_⟩, hrel₂⟩
    rw [Setting.trivia_keeping]
    exact (hagrees.seen none _).endRepetition
  | @foundIteration c d body least most left count p u notes u₁ failure result reach u₂ t a v room
      head started armed scan resumed tail ihhead ihscan ihtail =>
    have hlive₂ := tail.live hlive
    rw [State.recordError_halted] at hlive₂
    have hstart := Setting.isBoundary_trivia_stop c hready
    obtain ⟨_, v₁, hhead, ⟨_, rfl, hagrees⟩, hrel₁⟩ :=
      ihhead hwithin (scan.live hlive₂) hready hd hrel
    obtain ⟨notes', rfl⟩ := hagrees.exists_notes
    obtain ⟨hresult, -⟩ := scan.fits ⟨hstart, rfl⟩ (sim.fits hwithin hrel₁)
    have htiles := Setting.resumedIteration?_tiles failure.expected hready hresult resumed
    obtain ⟨_, v₂, hscan, rfl, hrel₂⟩ := ihscan hwithin hlive₂ ⟨hstart, rfl⟩ hd hrel₁
    obtain ⟨_, v', htail, ⟨a', rfl, hagrees'⟩, hrel'⟩ :=
      ihtail hwithin hlive (Tree.TilesAll.isBoundary hready _ htiles) hd
        (sim.recordError hrel₂ (c.iterationError? p result))
    rw [← Setting.trivia_keeping c memoize] at hscan
    rw [← Setting.resumedIteration?_keeping c memoize] at resumed
    rw [← Setting.iterationError?_keeping c memoize] at htail
    refine ⟨_, v', .foundIteration room hhead started (hagrees.recoverable?.trans armed) hscan
      resumed htail, ⟨_, rfl, ?_⟩, hrel'⟩
    rw [Setting.trivia_keeping]
    exact (hagrees.seen none _).behind hagrees'
  | trialNil => exact ⟨_, _, .trialNil, rfl, hrel⟩
  | trialFound head past ih =>
    obtain ⟨_, v', hhead, ⟨_, rfl, hagrees⟩, hrel'⟩ := ih hwithin hlive hready hd hrel
    obtain ⟨notes', rfl⟩ := hagrees.exists_notes
    refine ⟨_, v', .trialFound hhead past, ?_, hrel'⟩
    rw [← show _ = notes'.reach from hagrees.reach]
    rfl
  | trialNext head short tail ihhead ihtail =>
    obtain ⟨_, v₁, hhead, ⟨a', rfl, hagrees⟩, hrel₁⟩ :=
      ihhead hwithin (tail.live hlive) hready hd hrel
    obtain ⟨_, v', htail, rfl, hrel'⟩ := ihtail hwithin hlive hready hd hrel₁
    refine ⟨_, v', .trialNext hhead (hagrees.taken ▸ short) htail, ?_, hrel'⟩
    rw [hagrees.reach]
    rfl
  | lookRefused tick => exact absurd hlive (State.of_tick_false tick).1
  | lookFound tick attempts ih =>
    obtain ⟨v₁, htick, hrel₁⟩ := sim.tick hrel tick
    obtain ⟨_, v', hattempts, rfl, hrel'⟩ := ih hwithin.strict hlive hready hd hrel₁
    rw [← Setting.trivia_keeping _ memoize] at hattempts
    refine ⟨_, v', .lookFound htick hattempts, ?_, hrel'⟩
    rw [Setting.trivia_keeping]
    rfl
  | @lookStopped c d steps p u u₁ v reach further tick attempts final ih =>
    obtain ⟨v₁, htick, hrel₁⟩ := sim.tick hrel tick
    obtain ⟨_, v', hattempts, rfl, hrel'⟩ := ih hwithin.strict hlive hready hd hrel₁
    have hstops := Setting.stopsAt_keeping c memoize hlive (sim.poorer hrel').live p
    rw [← Setting.trivia_keeping c memoize] at hattempts
    refine ⟨_, v', .lookStopped htick hattempts (hstops.trans final), ?_, hrel'⟩
    rw [Setting.trivia_keeping]
    rfl
  | @lookPassed c d steps p u u₁ v reach further tick attempts passed ih =>
    obtain ⟨v₁, htick, hrel₁⟩ := sim.tick hrel tick
    obtain ⟨_, v', hattempts, rfl, hrel'⟩ := ih hwithin.strict hlive hready hd hrel₁
    have hstops := Setting.stopsAt_keeping c memoize hlive (sim.poorer hrel').live p
    rw [← Setting.trivia_keeping c memoize] at hattempts
    refine ⟨_, v', .lookPassed htick hattempts (hstops.trans passed), ?_, hrel'⟩
    rw [Setting.trivia_keeping]
    rfl
  | searchEnd here ih =>
    obtain ⟨_, v', hhere, rfl, hrel'⟩ := ih hwithin hlive hready.1 hd hrel
    exact ⟨_, v', .searchEnd hhere, rfl, hrel'⟩
  | searchDone here ih =>
    obtain ⟨_, v', hhere, rfl, hrel'⟩ := ih hwithin hlive hready.1 hd hrel
    exact ⟨_, v', .searchDone hhere, rfl, hrel'⟩
  | searchNext here tail ihhere ihtail =>
    obtain ⟨_, v₁, hhere, rfl, hrel₁⟩ := ihhere hwithin (tail.live hlive) hready.1 hd hrel
    obtain ⟨_, v', htail, rfl, hrel'⟩ := ihtail hwithin hlive hready.next hd hrel₁
    exact ⟨_, v', .searchNext hhere htail, rfl, hrel'⟩

end Packrat
