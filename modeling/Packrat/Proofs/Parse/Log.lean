import Packrat.Proofs.Parse.Coverage

/-!
# What runs log

A run comes to the same whatever is logged, and puts the same events on every log. Where these tell
of a terminal that failed, it was tried in the text that the run looked at.
-/

namespace Packrat

/-- Whether the attempt at a terminal lies in a stretch, if an event tells of one that failed. -/
def Event.FailsIn (low high : Nat) (e : Event) : Prop :=
  ∀ kind q, e = .token kind q none → low ≤ q ∧ q < high

/-- The state with another log. -/
def State.withLog (s : State) (log : Option (List Event)) : State := { s with log := log }

/-- What there is to look at behind what a job comes to. -/
def Outcome.reach : Outcome → Nat
  | answer a => a.notes.reach
  | tried _ reach => reach
  | looked _ reach => reach
  | searched _ reach => reach

/-- Whether there are events, each one of some kind, that lead from any log to one in a
relation. -/
def Logs (P : Event → Prop) (R : Option (List Event) → Option (List Event) → Prop) : Prop :=
  ∃ new : List Event, (∀ e ∈ new, P e) ∧ ∀ log, R log (log.map (new ++ ·))

namespace Logs

variable {P Q : Event → Prop} {R R₁ R₂ : Option (List Event) → Option (List Event) → Prop}

/-- Nothing need be logged. -/
theorem nil (h : ∀ log, R log log) : Logs P R := by
  refine ⟨[], nofun, fun log => ?_⟩
  simpa using h log

/-- What may be logged may be widened, and so may what is said of the logs. -/
theorem mono (h : Logs P R₁) (hP : ∀ e, P e → Q e)
    (hR : ∀ {log log'}, R₁ log log' → R log log') : Logs Q R := by
  obtain ⟨new, hnew, hlogs⟩ := h
  exact ⟨new, fun e he => hP e (hnew e he), fun log => hR (hlogs log)⟩

/-- What is said of the logs may be weakened. -/
theorem map (h : Logs P R₁) (hR : ∀ {log log'}, R₁ log log' → R log log') : Logs P R :=
  h.mono (fun _ => id) hR

/-- The events of two parts are those of the first and then those of the second. -/
theorem comp (h₁ : Logs P R₁) (h₂ : Logs P R₂) :
    Logs P fun log log'' => ∃ log', R₁ log log' ∧ R₂ log' log'' := by
  obtain ⟨new₁, hnew₁, hlogs₁⟩ := h₁
  obtain ⟨new₂, hnew₂, hlogs₂⟩ := h₂
  refine ⟨new₂ ++ new₁, fun e he => ?_, fun log => ⟨_, hlogs₁ log, ?_⟩⟩
  · exact (List.mem_append.mp he).elim (hnew₂ e) (hnew₁ e)
  · simpa [Option.map_map, Function.comp_def] using hlogs₂ (log.map (new₁ ++ ·))

/-- What is logged in two steps is logged in both together. -/
theorem trans (h₁ : Logs P R₁) (h₂ : Logs P R₂)
    (h : ∀ {log log' log''}, R₁ log log' → R₂ log' log'' → R log log'') : Logs P R :=
  (h₁.comp h₂).map fun ⟨_, hfirst, hsecond⟩ => h hfirst hsecond

/-- An event that may be logged goes to the front of every log. -/
theorem event {e : Event} (he : P e) : Logs P fun log log' => log' = log.map (e :: ·) :=
  ⟨[e], fun _ hmem => List.mem_singleton.mp hmem ▸ he, fun _ => rfl⟩

/-- A state records an event on every log alike. -/
theorem record (s : State) {e : Event} (he : P e) :
    Logs P fun log log' => (s.withLog log).record e = (s.record e).withLog log' :=
  (event he).map fun hlog => by
    subst hlog
    rfl

/-- A state records an error, if there is one, on every log alike. -/
theorem recordError (s : State) (e : Option (Nat × Nat))
    (hP : ∀ start stop, P (.error start stop)) :
    Logs P fun log log' => (s.withLog log).recordError e = (s.recordError e).withLog log' := by
  cases e with
  | none => exact nil fun _ => rfl
  | some e => exact record s (hP e.1 e.2)

variable {s s' : State}

/-- A step of fuel is granted or refused alike on every log. -/
theorem tick {granted : Bool} (h : s.tick = (granted, s')) (hP : ∀ reason, P (.halt reason)) :
    Logs P fun log log' => (s.withLog log).tick = (granted, s'.withLog log') := by
  rcases s with ⟨memo, _ | _ | n, patience, _ | reason, log⟩ <;> cases h
  case some.zero.none =>
    exact (event (hP .outOfFuel)).map fun hlog => by
      subst hlog
      rfl
  all_goals exact nil fun _ => rfl

/-- A try is granted or refused alike on every log. -/
theorem ask {granted : Bool} (h : s.ask = (granted, s')) (hP : ∀ reason, P (.halt reason)) :
    Logs P fun log log' => (s.withLog log).ask = (granted, s'.withLog log') := by
  rcases s with ⟨memo, fuel, _ | _ | n, _ | reason, log⟩ <;> cases h
  case some.zero.none =>
    exact (event (hP .cancelled)).map fun hlog => by
      subst hlog
      rfl
  all_goals exact nil fun _ => rfl

end Logs

section

variable {low high low' high' : Nat}

/-- What fails in a stretch fails in a wider one. -/
theorem Event.FailsIn.mono {e : Event} (h : e.FailsIn low high) (hlow : low' ≤ low)
    (hhigh : high ≤ high') : e.FailsIn low' high' := by
  intro kind q he
  obtain ⟨hle, hlt⟩ := h kind q he
  exact ⟨Nat.le_trans hlow hle, Nat.lt_of_lt_of_le hlt hhigh⟩

/-- That a parse is stopped is no failure. -/
theorem Event.failsIn_halt (reason : Halt) : (Event.halt reason).FailsIn low high := nofun

/-- That an error is made is no failure of a terminal. -/
theorem Event.failsIn_error (start stop : Nat) : (Event.error start stop).FailsIn low high := nofun

/-- The events of a part, which looked no further than the whole. -/
theorem Logs.widen {R : Option (List Event) → Option (List Event) → Prop}
    (h : Logs (Event.FailsIn low' high') R) (hlow : low ≤ low') (hhigh : high' ≤ high) :
    Logs (Event.FailsIn low high) R :=
  h.mono (fun _ he => he.mono hlow hhigh) id

end

/-- A result is kept alike on every log. -/
theorem keep_withLog (c : Setting) (rule p : Nat) (entry : Entry) (s : State)
    (log : Option (List Event)) :
    keep c rule p entry (s.withLog log) = (keep c rule p entry s).withLog log := by
  have hhalted : (s.withLog log).isHalted = s.isHalted := rfl
  unfold keep
  rw [hhalted]
  split <;> rfl

/-- A terminal comes to the same whatever is logged, and fails in the text that it looks at. -/
theorem runToken_logs (c : Setting) (terminal kind : Nat) (immediate : Bool) (p : Nat)
    (s : State) :
    Logs (Event.FailsIn p (runToken c terminal kind immediate p s).1.notes.reach) fun log log' =>
      runToken c terminal kind immediate p (s.withLog log) =
        ((runToken c terminal kind immediate p s).1,
          (runToken c terminal kind immediate p s).2.withLog log') := by
  obtain ⟨trivia, htrivia⟩ : ∃ trivia, trivia =
      if immediate then (⟨[], p, 0⟩ : Trivia) else c.trivia p := ⟨_, rfl⟩
  have hfar := (runToken_fits c terminal kind immediate (p := p) s).far
  simp only [runToken, ← htrivia] at hfar ⊢
  cases hlength : ((c.program.terminal terminal).scanAt c.text trivia.stop).length with
  | some n =>
    refine (Logs.event (e := .token kind trivia.stop (some n)) ?_).map fun hlog => ?_
    · rintro _ _ ⟨⟩
    · subst hlog
      rfl
  | none =>
    simp only [hlength] at hfar
    refine (Logs.event (e := .token kind trivia.stop none) ?_).map fun hlog => ?_
    · rintro _ _ ⟨⟩
      exact hfar _ rfl
    · subst hlog
      rfl

/-- What a search behind trivia looks at is noted with the failure that it starts from. -/
theorem le_reach_join {notes : Notes} {n reach further : Nat} (h : n ≤ reach) :
    n ≤ (notes.join (.seen (max further reach))).reach := by
  simp only [Notes.join_reach, Notes.seen_reach]
  omega

/-- Every run comes to the same whatever is logged, puts the same events on every log, and looks at
the text wherever a terminal fails in it. -/
theorem Run.logs {c : Setting} {d : Nat} {job : Job} {p : Nat} {s s' : State} {out : Outcome}
    (h : Run c d job p s out s') (hready : job.Ready c p) (hfits : s.memo.Fits c.text c.points) :
    Logs (Event.FailsIn p out.reach) fun log log' =>
      Run c d job p (s.withLog log) out (s'.withLog log') := by
  induction h with
  | refused tick => exact (Logs.tick tick Event.failsIn_halt).map .refused
  | tooDeep tick =>
    refine (Logs.tick tick Event.failsIn_halt).trans (.event (e := .halt .tooDeep) nofun) ?_
    rintro _ _ _ htick rfl
    exact .tooDeep htick
  | ticked tick rest ih =>
    have hkept := (State.of_tick_true tick).2.2.1
    exact (Logs.tick tick Event.failsIn_halt).trans (ih hready (hkept ▸ hfits)) .ticked
  | blank => exact .nil fun _ => .blank
  | @token c d terminal kind immediate p s =>
    refine (runToken_logs c terminal kind immediate p s).map fun {log log'} htoken => ?_
    have hrun : Run c d (.operation (.token terminal kind immediate)) p (s.withLog log) _ _ :=
      .token
    rwa [htoken] at hrun
  | call rest ih => exact (ih hready hfits).map .call
  | members rest ih => exact (ih hready hfits).map .members
  | alternatives rest ih => exact (ih hready hfits).map .alternatives
  | repetition rest ih => exact (ih hready hfits).map .repetition
  | wrap rest ih => exact (ih hready hfits).map .wrap
  | cancelled ask => exact (Logs.ask ask Event.failsIn_halt).map .cancelled
  | @hit c d rule p s s₁ entry recovering ask known =>
    refine (Logs.ask ask Event.failsIn_halt).trans
      (.record s₁ (e := .hit rule p (entry.taken.map (·.stop))) nofun) ?_
    intro log log' log'' hask hrecord
    rw [← hrecord]
    exact .hit hask known
  | @body c d rule p s s₁ a s₂ ask unknown rest ih =>
    have hkept := (State.of_ask_true ask).2.2.1
    have hrest := (ih hready (hkept ▸ hfits)).widen (Nat.le_refl p) (Nat.le_max_right p _)
    have hcall := (Logs.record s₁ (P := Event.FailsIn p (max p a.notes.reach))
      (e := .call rule p) nofun).comp hrest
    have hleave := hcall.comp (.record (keep c rule p (a.entry p) s₂)
      (e := .leave rule (a.taken.map (·.stop))) nofun)
    refine (Logs.ask ask Event.failsIn_halt).trans hleave ?_
    rintro log log₁ log' hask ⟨log₃, ⟨log₂, hcall, hbody⟩, hleave⟩
    rw [← hcall] at hbody
    rw [← hleave, ← keep_withLog]
    exact .body hask unknown hbody
  | seqNil => exact .nil fun _ => .seqNil
  | seqSkip tail ih => exact (ih hready hfits).map .seqSkip
  | seqTook head tail ihhead ihtail =>
    obtain ⟨hfirst, hfits₁⟩ := head.fits hready hfits
    have htail := ihtail (hfirst.isBoundary hready rfl) hfits₁
    exact ((ihhead hready hfits).widen (Nat.le_refl _) (Nat.le_max_left _ _)).trans
      (htail.widen (hfirst.le rfl) (Nat.le_max_right _ _)) .seqTook
  | seqFailed head final ih => exact (ih hready hfits).map fun hhead => .seqFailed hhead final
  | @seqEnded c d step rest p s notes s₁ failure result reach s' head armed scan ended ihhead
      ihscan =>
    have hfits₁ := (head.fits hready hfits).2
    have hscan := ihscan (Job.ready_search hready _) hfits₁
    refine ((((ihhead hready hfits).widen (Nat.le_refl _) (Nat.le_max_left _ _)).comp
      (hscan.widen (c.le_trivia_stop p) (le_reach_join (Nat.le_refl reach)))).comp
      (.recordError s' (c.resumedError? p result) Event.failsIn_error)).map ?_
    rintro log log' ⟨log₂, ⟨log₁, hhead, hscan⟩, herror⟩
    rw [← herror]
    exact .seqEnded hhead armed hscan ended
  | @seqResumed c d step rest p s notes s₁ failure result reach s₂ index a s' head armed scan
      resumed tail ihhead ihscan ihtail =>
    have hfits₁ := (head.fits hready hfits).2
    have hstart := Job.ready_search hready (step :: rest)
    obtain ⟨hresult, hfits₂⟩ := scan.fits hstart hfits₁
    have hscan := ihscan hstart hfits₁
    have htiles := Setting.resumedTaken_tiles failure.expected hready hresult
    rw [← State.recordError_memo (c.resumedError? p result)] at hfits₂
    have htail := ihtail (Tree.TilesAll.isBoundary hready _ htiles) hfits₂
    refine ((((((ihhead hready hfits).widen (Nat.le_refl _) ?_).comp
      (hscan.widen (c.le_trivia_stop p) ?_)).comp
      (.recordError s₂ (c.resumedError? p result) Event.failsIn_error)).comp
      (htail.widen (Tree.TilesAll.le _ htiles) (Nat.le_max_right _ _)))).map ?_
    · exact Nat.le_trans (Nat.le_max_left _ _) (Nat.le_max_left _ _)
    · exact Nat.le_trans (le_reach_join (Nat.le_refl reach)) (Nat.le_max_left _ _)
    rintro log log' ⟨log₃, ⟨log₂, ⟨log₁, hhead, hscan⟩, herror⟩, htail⟩
    rw [← herror] at htail
    exact .seqResumed hhead armed hscan resumed htail
  | choiceNil => exact .nil fun _ => .choiceNil
  | choiceTook head ih => exact (ih hready hfits).map .choiceTook
  | @choiceNext c d step rest p s notes s₁ a s' head tail ihhead ihtail =>
    have htail := ihtail hready (head.fits hready hfits).2
    refine ((((ihhead hready hfits).widen (Nat.le_refl _) (Nat.le_max_left _ _)).comp
      (.record s₁ (e := .backtrack p) nofun)).comp
      (htail.widen (Nat.le_refl _) (Nat.le_max_right _ _))).map ?_
    rintro log log' ⟨log₂, ⟨log₁, hhead, hrecord⟩, htail⟩
    rw [← hrecord] at htail
    exact .choiceNext hhead htail
  | exhausted => exact .nil fun _ => .exhausted
  | enough full => exact .nil fun _ => .enough full
  | idleIteration room head still ih =>
    exact (ih hready hfits).map fun hhead => .idleIteration room hhead still
  | nextIteration room head moved tail ihhead ihtail =>
    obtain ⟨hfirst, hfits₁⟩ := head.fits hready hfits
    have htail := ihtail (hfirst.isBoundary hready rfl) hfits₁
    exact ((ihhead hready hfits).widen (Nat.le_refl _) (Nat.le_max_left _ _)).trans
      (htail.widen (hfirst.le rfl) (Nat.le_max_right _ _))
      fun hhead htail => .nextIteration room hhead moved htail
  | lastIteration room head final ih =>
    exact (ih hready hfits).map fun hhead => .lastIteration room hhead final
  | @lostIteration c d body least most left count p s notes s₁ failure result reach s' room head
      started armed scan ended ihhead ihscan =>
    have hfits₁ := (head.fits hready hfits).2
    have hscan := ihscan (Job.ready_search hready _) hfits₁
    exact ((ihhead hready hfits).widen (Nat.le_refl _) (Nat.le_max_left _ _)).trans
      (hscan.widen (c.le_trivia_stop p) (le_reach_join (Nat.le_refl reach)))
      fun hhead hscan => .lostIteration room hhead started armed hscan ended
  | @foundIteration c d body least most left count p s notes s₁ failure result reach s₂ t a s' room
      head started armed scan resumed tail ihhead ihscan ihtail =>
    have hfits₁ := (head.fits hready hfits).2
    have hstart := Job.ready_search hready [body]
    obtain ⟨hresult, hfits₂⟩ := scan.fits hstart hfits₁
    have hscan := ihscan hstart hfits₁
    have htiles := Setting.resumedIteration?_tiles failure.expected hready hresult resumed
    rw [← State.recordError_memo (c.iterationError? p result)] at hfits₂
    have htail := ihtail (Tree.TilesAll.isBoundary hready _ htiles) hfits₂
    refine ((((((ihhead hready hfits).widen (Nat.le_refl _) ?_).comp
      (hscan.widen (c.le_trivia_stop p) ?_)).comp
      (.recordError s₂ (c.iterationError? p result) Event.failsIn_error)).comp
      (htail.widen (Tree.TilesAll.le _ htiles) (Nat.le_max_right _ _)))).map ?_
    · exact Nat.le_trans (Nat.le_max_left _ _) (Nat.le_max_left _ _)
    · exact Nat.le_trans (le_reach_join (Nat.le_refl reach)) (Nat.le_max_left _ _)
    rintro log log' ⟨log₃, ⟨log₂, ⟨log₁, hhead, hscan⟩, herror⟩, htail⟩
    rw [← herror] at htail
    exact .foundIteration room hhead started armed hscan resumed htail
  | trialNil => exact .nil fun _ => .trialNil
  | trialFound head past ih => exact (ih hready hfits).map fun hhead => .trialFound hhead past
  | trialNext head short tail ihhead ihtail =>
    have htail := ihtail hready (head.fits hready hfits).2
    exact ((ihhead hready hfits).widen (Nat.le_refl _) (Nat.le_max_left _ _)).trans
      (htail.widen (Nat.le_refl _) (Nat.le_max_right _ _))
      fun hhead htail => .trialNext hhead short htail
  | lookRefused tick => exact (Logs.tick tick Event.failsIn_halt).map .lookRefused
  | lookFound tick attempts ih =>
    have hkept := (State.of_tick_true tick).2.2.1
    have hattempts := ih hready (hkept ▸ hfits)
    exact (Logs.tick tick Event.failsIn_halt).trans
      (hattempts.widen (Nat.le_refl _) (Nat.le_max_right _ _)) .lookFound
  | @lookStopped c d steps p s s₁ reach further s' tick attempts final ih =>
    have hkept := (State.of_tick_true tick).2.2.1
    have hattempts := ih hready (hkept ▸ hfits)
    refine (Logs.tick tick Event.failsIn_halt).trans
      (hattempts.widen (Nat.le_refl _) ?_) fun htick hattempts => .lookStopped htick hattempts final
    exact Nat.le_trans (Nat.le_max_right _ reach) (Nat.le_max_left _ further)
  | @lookPassed c d steps p s s₁ reach further s' tick attempts passed ih =>
    have hkept := (State.of_tick_true tick).2.2.1
    have hattempts := ih hready (hkept ▸ hfits)
    refine (Logs.tick tick Event.failsIn_halt).trans
      (hattempts.widen (Nat.le_refl _) ?_) fun htick hattempts => .lookPassed htick hattempts passed
    exact Nat.le_trans (Nat.le_max_right _ reach) (Nat.le_max_left _ further)
  | searchEnd here ih => exact (ih hready.1 hfits).map .searchEnd
  | searchDone here ih => exact (ih hready.1 hfits).map .searchDone
  | searchNext here tail ihhere ihtail =>
    have htail := ihtail hready.next (here.fits hready.1 hfits).2
    exact ((ihhere hready.1 hfits).widen (Nat.le_refl _) (Nat.le_max_left _ _)).trans
      (htail.widen (Nat.le_add_right _ _) (Nat.le_max_right _ _)) .searchNext

end Packrat
