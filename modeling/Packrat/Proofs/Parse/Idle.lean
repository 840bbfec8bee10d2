import Packrat.Proofs.Parse.Coverage
import Packrat.Proofs.Program.Layers

/-!
# Runs that take nothing

A run that ends where it started, in a parse that goes on, is one of something that may take
nothing. Recovery adds to this that a sequence may end behind its first member; a match that a
search finds always ends behind the place where it was found. `Run.idles` is the induction that
carries this, with results that were kept.
-/

namespace Packrat

/-- Whether a result is kept under a key where sequences may end early if `early` says so: without
recovery the results that error points had a part in are never used. -/
def Memo.Holds (m : Memo) (early : Bool) (key : MemoKey) (e : Entry) : Prop :=
  m.strict[key]? = some e ∨ early = true ∧ m.recovering[key]? = some e

/-- A result that is found is kept. -/
theorem holds_of_known? {early : Bool} {c : Setting} {rule p : Nat} {s : State} {entry : Entry}
    {recovering : Bool} (hmode : c.recovering = true → early = true)
    (h : known? c rule p s = some (entry, recovering)) : s.memo.Holds early (rule, p) entry := by
  obtain ⟨-, ⟨-, hrec, hentry⟩ | ⟨-, hentry, -⟩⟩ := of_known? h
  · exact .inr ⟨hmode hrec, hentry⟩
  · exact .inl hentry

/-- A result is only kept in a parse that goes on. -/
theorem holds_keep {early : Bool} {c : Setting} {rule p : Nat} {entry e : Entry} {s : State}
    {key : MemoKey} (h : (keep c rule p entry s).memo.Holds early key e) :
    s.memo.Holds early key e ∨ key = (rule, p) ∧ e = entry ∧ s.halted = none := by
  by_cases hlive : s.halted = none
  · rcases h with h | ⟨hearly, h⟩
    · exact (getElem?_keep_strict h).imp .inl fun ⟨hkey, he, _⟩ => ⟨hkey, he, hlive⟩
    · exact (getElem?_keep_recovering h).imp (fun hold => .inr ⟨hearly, hold⟩)
        fun ⟨hkey, he, _⟩ => ⟨hkey, he, hlive⟩
  · rw [keep_memo, if_neg fun h => hlive h.2] at h
    exact .inl h

/-- What a table holds when results are dropped it held before. -/
theorem Memo.Holds.of_settle {m : Memo} {early : Bool} {key : MemoKey} {e : Entry}
    (h : m.settle.Holds early key e) : m.Holds early key e := by
  rcases h with h | ⟨-, h⟩
  · exact .inl h
  · simp at h

/-- Whether the rules with kept results in which nothing is taken are among some rules. -/
def Memo.Idles (early : Bool) (idle : Nat → Prop) (m : Memo) : Prop :=
  ∀ key e, m.Holds early key e → ∀ t, e.taken = some t → t.stop = key.2 → idle key.1

/-- Whether a job may succeed without taking anything. A sequence that has come past its first
member may where it may end early, and a repetition after enough iterations. -/
def Job.Idles (g : Program) (early : Bool) (idle : Nat → Prop) : Job → Prop
  | step op => g.Idles early idle op
  | operation op => g.Idles early idle op
  | rule i => idle i
  | seq members skip isFirst =>
    early = true ∧ (isFirst = false ∨ 0 < skip) ∨ g.IdlesThrough early idle (members.drop skip)
  | choice members => g.IdlesAmong early idle members
  | iterations _ least _ _ count => least ≤ count
  | _ => True

/-- Whether a search ended with a match that takes something. -/
def Search.Moves (result : Search) : Prop := ∀ start m, result = .found start m → start < m.stop

/-- What holds of what a job at a position comes to, as far as taking nothing is concerned. -/
def Outcome.Idles (g : Program) (early : Bool) (idle : Nat → Prop) (job : Job) (p : Nat) :
    Outcome → Prop
  | answer a => ∀ t, a.taken = some t → t.stop = p → job.Idles g early idle
  | tried found _ => ∀ floor index steps, job = .trial floor index steps →
      ∀ m, found = some m → floor < m.stop
  | looked result _ => ∀ r, result = some r → r.Moves
  | searched result _ => result.Moves

namespace Answer

variable {c : Setting} {a : Answer} {t : Taken}

/-- The node of a rule ends where the rule does. -/
theorem stop_of_called {rule : Nat} {renamed : Option Nat} {halted : Bool}
    (h : (a.called c rule renamed halted).taken = some t) :
    ∃ u, a.taken = some u ∧ u.stop = t.stop := by
  obtain ⟨u, hu, rfl⟩ := Option.map_eq_some_iff.mp h
  exact ⟨u, hu, by split <;> rfl⟩

/-- A part that is given a name ends where the part does. -/
theorem stop_of_wrapped {kind : Nat} (h : (a.wrapped c kind).taken = some t) :
    ∃ u, a.taken = some u ∧ u.stop = t.stop := by
  obtain ⟨u, hu, rfl⟩ := Option.map_eq_some_iff.mp h
  exact ⟨u, hu, rfl⟩

/-- An answer behind what was taken ends where the answer does. -/
theorem stop_of_behind {first : Taken} {notes : Notes}
    (h : (Answer.behind first notes a).taken = some t) :
    ∃ u, a.taken = some u ∧ u.stop = t.stop := by
  obtain ⟨u, hu, rfl⟩ := Option.map_eq_some_iff.mp h
  exact ⟨u, hu, rfl⟩

end Answer

/-- A repetition that ends well has had enough iterations. -/
theorem le_of_endRepetition {least count p : Nat} {notes : Notes} {t : Taken}
    (h : (endRepetition least count p notes).taken = some t) : least ≤ count := by
  unfold endRepetition at h
  split at h
  · cases h
  · omega

/-- A terminal that takes nothing may be empty. -/
theorem mayBeEmpty_of_runToken {c : Setting} {terminal kind p : Nat} {immediate : Bool} {s : State}
    {t : Taken} (ht : (runToken c terminal kind immediate p s).1.taken = some t)
    (hstop : t.stop = p) : (c.program.terminal terminal).MayBeEmpty := by
  obtain ⟨trivia, htrivia⟩ : ∃ trivia, trivia =
      if immediate then (⟨[], p, 0⟩ : Trivia) else c.trivia p := ⟨_, rfl⟩
  have hle : p ≤ trivia.stop := by
    rw [htrivia]
    split
    · exact Nat.le_refl _
    · exact c.le_trivia_stop p
  simp only [runToken, ← htrivia] at ht
  cases hlength : ((c.program.terminal terminal).scanAt c.text trivia.stop).length with
  | none => simp [hlength] at ht
  | some n =>
    simp only [hlength, Option.some.injEq] at ht
    subst ht
    simp only at hstop
    obtain rfl : n = 0 := by omega
    exact ⟨_, _, hlength⟩

namespace Setting

variable {c : Setting} {p : Nat} {expected : List Nat} {result : Search}

/-- A sequence that goes on after a recovery has taken something. -/
theorem lt_resumedTaken_stop {index : Nat} (hindex : result.index? = some index)
    (hfits : result.Fits c (c.trivia p).stop) (hmoves : result.Moves) :
    p < (c.resumedTaken p expected result).stop := by
  cases result with
  | found start m =>
    have hstart := hfits.1
    have hmove := hmoves start m rfl
    have hle := c.le_trivia_stop p
    have hstop : (c.resumedTaken p expected (.found start m)).stop = m.stop := by
      simp only [resumedTaken, Taken.andThen]
      split <;> rfl
    omega
  | stopped => cases hindex
  | abandoned => cases hindex

/-- So has a repetition. -/
theorem lt_resumedIteration?_stop {t : Taken} (ht : c.resumedIteration? p expected result = some t)
    (hfits : result.Fits c (c.trivia p).stop) (hmoves : result.Moves) : p < t.stop := by
  cases result with
  | found start m =>
    cases ht
    have hindex : (Search.found start { m with index := 0 }).index? = some 0 := rfl
    refine lt_resumedTaken_stop hindex hfits fun start' m' h => ?_
    cases h
    exact hmoves start m rfl
  | stopped => cases ht
  | abandoned => cases ht

end Setting

/-- A run that ends where it started in a parse that goes on is one of something that may take
nothing, and this also holds of what is kept. -/
theorem Run.idles {early : Bool} {c : Setting} {d : Nat} {job : Job} {p : Nat} {s s' : State}
    {out : Outcome} (h : Run c d job p s out s') (layers : c.program.Layering early)
    (hmode : c.recovering = true → early = true) (hready : job.Ready c p)
    (hfits : s.memo.Fits c.text c.points) (hmemo : s.memo.Idles early layers.idle) :
    (s'.halted = none → out.Idles c.program early layers.idle job p) ∧
      s'.memo.Idles early layers.idle := by
  induction h with
  | refused tick =>
    refine ⟨fun hlive => absurd hlive (State.of_tick_false tick).1, ?_⟩
    exact (State.of_tick_false tick).2 ▸ hmemo
  | tooDeep tick =>
    refine ⟨fun hlive => by simp at hlive, ?_⟩
    rw [State.stop_memo, (State.of_tick_true tick).2.2.1]
    exact hmemo
  | ticked tick rest ih =>
    have hkept := (State.of_tick_true tick).2.2.1
    exact ih layers hmode hready (hkept ▸ hfits) (hkept ▸ hmemo)
  | blank => exact ⟨fun _ _ _ _ => trivial, hmemo⟩
  | @token c d terminal kind immediate p s =>
    obtain ⟨e, he⟩ := runToken_state c terminal kind immediate p s
    exact ⟨fun _ t ht hstop => mayBeEmpty_of_runToken ht hstop, he ▸ hmemo⟩
  | call rest ih =>
    obtain ⟨ha, hmemo'⟩ := ih layers hmode hready hfits hmemo
    refine ⟨fun hlive t ht hstop => ?_, hmemo'⟩
    obtain ⟨u, hu, hsame⟩ := Answer.stop_of_called ht
    exact ha hlive u hu (hsame.trans hstop)
  | members rest ih =>
    obtain ⟨ha, hmemo'⟩ := ih layers hmode hready hfits hmemo
    refine ⟨fun hlive t ht hstop => ?_, hmemo'⟩
    rcases ha hlive t ht hstop with ⟨-, hlater | hlater⟩ | hidles
    · cases hlater
    · cases hlater
    · exact hidles
  | alternatives rest ih => exact ih layers hmode hready hfits hmemo
  | repetition rest ih =>
    obtain ⟨ha, hmemo'⟩ := ih layers hmode hready hfits hmemo
    exact ⟨fun hlive t ht hstop => Nat.le_zero.mp (ha hlive t ht hstop), hmemo'⟩
  | wrap rest ih =>
    obtain ⟨ha, hmemo'⟩ := ih layers hmode hready hfits hmemo
    refine ⟨fun hlive t ht hstop => ?_, hmemo'⟩
    obtain ⟨u, hu, hsame⟩ := Answer.stop_of_wrapped ht
    exact ha hlive u hu (hsame.trans hstop)
  | cancelled ask =>
    refine ⟨fun hlive => absurd hlive (State.of_ask_false ask).1, ?_⟩
    exact (State.of_ask_false ask).2 ▸ hmemo
  | hit ask known =>
    have hkept := (State.of_ask_true ask).2.2.1
    rw [← hkept] at hmemo
    exact ⟨fun _ t ht hstop => hmemo _ _ (holds_of_known? hmode known) t ht hstop, hmemo⟩
  | body ask unknown rest ih =>
    have hkept := (State.of_ask_true ask).2.2.1
    obtain ⟨ha, hmemo'⟩ := ih layers hmode hready (hkept ▸ hfits) (hkept ▸ hmemo)
    refine ⟨fun hlive t ht hstop => ?_, fun key e he => ?_⟩
    · exact layers.idle_of_body _ (ha (by simpa using hlive) t ht hstop)
    · rcases holds_keep he with hold | ⟨rfl, rfl, hlive⟩
      · exact hmemo' key e hold
      · exact fun t ht hstop => layers.idle_of_body _ (ha hlive t ht hstop)
  | seqNil => exact ⟨fun _ _ _ _ => .inr (by simp [Program.IdlesThrough]), hmemo⟩
  | seqSkip tail ih =>
    obtain ⟨ha, hmemo'⟩ := ih layers hmode hready hfits hmemo
    refine ⟨fun hlive t ht hstop => ?_, hmemo'⟩
    exact (ha hlive t ht hstop).imp_left fun hlater => ⟨hlater.1, .inr (Nat.succ_pos _)⟩
  | @seqTook c d step rest isFirst p s t notes s₁ a s' head tail ihhead ihtail =>
    obtain ⟨hhead, hmemo₁⟩ := ihhead layers hmode hready hfits hmemo
    obtain ⟨hfirst, hfits₁⟩ := head.fits hready hfits
    have hready₁ := hfirst.isBoundary hready rfl
    obtain ⟨htail, hmemo₂⟩ := ihtail layers hmode hready₁ hfits₁ hmemo₁
    refine ⟨fun hlive u hu hstop => ?_, hmemo₂⟩
    obtain ⟨v, hv, hsame⟩ := Answer.stop_of_behind hu
    have hle := hfirst.le rfl
    have hle' := (tail.fits hready₁ hfits₁).1.le hv
    have hstill : t.stop = p := by omega
    refine .inr ⟨hhead (tail.live hlive) t rfl hstill, ?_⟩
    exact (htail hlive v hv (by omega)).imp_left And.left
  | seqFailed head final ih =>
    exact ⟨fun _ _ ht => (nomatch ht), (ih layers hmode hready hfits hmemo).2⟩
  | seqEnded head armed scan ended ihhead ihscan =>
    obtain ⟨hfirst, hfits₁⟩ := head.fits hready hfits
    obtain ⟨-, hmemo₁⟩ := ihhead layers hmode hready hfits hmemo
    obtain ⟨-, hmemo₂⟩ := ihscan layers hmode (Job.ready_search hready _) hfits₁ hmemo₁
    refine ⟨fun _ _ _ _ => .inl ⟨hmode (Setting.of_recoverable? armed).1, .inl rfl⟩, ?_⟩
    rwa [State.recordError_memo]
  | @seqResumed c d step rest p s notes s₁ failure result reach s₂ index a s' head armed scan
      resumed tail ihhead ihscan ihtail =>
    have hready₁ := Job.ready_search hready (step :: rest)
    obtain ⟨hfirst, hfits₁⟩ := head.fits hready hfits
    obtain ⟨hresult, hfits₂⟩ := scan.fits hready₁ hfits₁
    obtain ⟨-, hmemo₁⟩ := ihhead layers hmode hready hfits hmemo
    obtain ⟨-, hmemo₂⟩ := ihscan layers hmode hready₁ hfits₁ hmemo₁
    have hready₂ := Setting.isBoundary_resumedTaken_stop failure.expected hready hresult
    obtain ⟨-, hmemo₃⟩ := ihtail layers hmode hready₂ (by rwa [State.recordError_memo])
      (by rwa [State.recordError_memo])
    exact ⟨fun _ _ _ _ => .inl ⟨hmode (Setting.of_recoverable? armed).1, .inl rfl⟩, hmemo₃⟩
  | choiceNil => exact ⟨fun _ _ ht => (nomatch ht), hmemo⟩
  | choiceTook head ih =>
    obtain ⟨ha, hmemo'⟩ := ih layers hmode hready hfits hmemo
    exact ⟨fun hlive t ht hstop => .inl (ha hlive t ht hstop), hmemo'⟩
  | choiceNext head tail ihhead ihtail =>
    obtain ⟨-, hfits₁⟩ := head.fits hready hfits
    obtain ⟨-, hmemo₁⟩ := ihhead layers hmode hready hfits hmemo
    obtain ⟨ha, hmemo₂⟩ := ihtail layers hmode hready hfits₁ hmemo₁
    exact ⟨fun hlive t ht hstop => .inr (ha hlive t ht hstop), hmemo₂⟩
  | exhausted => exact ⟨fun _ _ ht _ => le_of_endRepetition ht, hmemo⟩
  | enough => exact ⟨fun _ _ ht _ => le_of_endRepetition ht, hmemo⟩
  | idleIteration room head still ih =>
    exact ⟨fun _ _ ht _ => le_of_endRepetition ht, (ih layers hmode hready hfits hmemo).2⟩
  | @nextIteration c d body least most left count p s t notes s₁ a s' room head moved tail ihhead
      ihtail =>
    obtain ⟨hfirst, hfits₁⟩ := head.fits hready hfits
    have hready₁ := hfirst.isBoundary hready rfl
    obtain ⟨-, hmemo₁⟩ := ihhead layers hmode hready hfits hmemo
    obtain ⟨-, hmemo₂⟩ := ihtail layers hmode hready₁ hfits₁ hmemo₁
    refine ⟨fun _ u hu hstop => ?_, hmemo₂⟩
    obtain ⟨v, hv, hsame⟩ := Answer.stop_of_behind hu
    have hle := hfirst.le rfl
    have hle' := (tail.fits hready₁ hfits₁).1.le hv
    omega
  | lastIteration room head final ih =>
    exact ⟨fun _ _ ht _ => le_of_endRepetition ht, (ih layers hmode hready hfits hmemo).2⟩
  | lostIteration room head started armed scan ended ihhead ihscan =>
    obtain ⟨-, hfits₁⟩ := head.fits hready hfits
    obtain ⟨-, hmemo₁⟩ := ihhead layers hmode hready hfits hmemo
    obtain ⟨-, hmemo₂⟩ := ihscan layers hmode (Job.ready_search hready _) hfits₁ hmemo₁
    exact ⟨fun _ _ ht _ => le_of_endRepetition ht, hmemo₂⟩
  | @foundIteration c d body least most left count p s notes s₁ failure result reach s₂ t a s' room
      head started armed scan resumed tail ihhead ihscan ihtail =>
    have hready₁ := Job.ready_search hready [body]
    obtain ⟨-, hfits₁⟩ := head.fits hready hfits
    obtain ⟨hresult, hfits₂⟩ := scan.fits hready₁ hfits₁
    obtain ⟨-, hmemo₁⟩ := ihhead layers hmode hready hfits hmemo
    obtain ⟨hmoves, hmemo₂⟩ := ihscan layers hmode hready₁ hfits₁ hmemo₁
    have hready₂ :=
      Setting.isBoundary_resumedIteration?_stop failure.expected hready hresult resumed
    rw [← State.recordError_memo (c.iterationError? p result)] at hfits₂ hmemo₂
    obtain ⟨-, hmemo₃⟩ := ihtail layers hmode hready₂ hfits₂ hmemo₂
    refine ⟨fun hlive u hu hstop => ?_, hmemo₃⟩
    obtain ⟨v, hv, hsame⟩ := Answer.stop_of_behind hu
    have hlive₂ : s₂.halted = none := by simpa using tail.live hlive
    have hlt := Setting.lt_resumedIteration?_stop resumed hresult (hmoves hlive₂)
    have hle := (tail.fits hready₂ hfits₂).1.le hv
    omega
  | trialNil => exact ⟨fun _ _ _ _ _ _ hm => (nomatch hm), hmemo⟩
  | trialFound head past ih =>
    refine ⟨fun _ _ _ _ hjob m hm => ?_, (ih layers hmode hready hfits hmemo).2⟩
    cases hjob
    cases hm
    exact past
  | trialNext head short tail ihhead ihtail =>
    obtain ⟨-, hfits₁⟩ := head.fits hready hfits
    obtain ⟨-, hmemo₁⟩ := ihhead layers hmode hready hfits hmemo
    obtain ⟨htail, hmemo₂⟩ := ihtail layers hmode hready hfits₁ hmemo₁
    refine ⟨fun hlive _ _ _ hjob m hm => ?_, hmemo₂⟩
    cases hjob
    exact htail hlive _ _ _ rfl m hm
  | lookRefused tick =>
    refine ⟨fun hlive => absurd hlive (State.of_tick_false tick).1, ?_⟩
    exact (State.of_tick_false tick).2 ▸ hmemo
  | @lookFound c d steps p s s₁ found reach s' tick attempts ih =>
    have hkept := (State.of_tick_true tick).2.2.1
    obtain ⟨hfound, hmemo'⟩ :=
      ih layers (fun h => nomatch h) hready (hkept ▸ hfits) (hkept ▸ hmemo)
    refine ⟨fun hlive r hr start m hfoundAt => ?_, hmemo'⟩
    cases hr
    cases hfoundAt
    exact Nat.lt_of_le_of_lt (c.le_trivia_stop p) (hfound hlive _ _ _ rfl found rfl)
  | lookStopped tick attempts final ih =>
    have hkept := (State.of_tick_true tick).2.2.1
    obtain ⟨-, hmemo'⟩ := ih layers (fun h => nomatch h) hready (hkept ▸ hfits) (hkept ▸ hmemo)
    refine ⟨fun _ r hr start m hfoundAt => ?_, hmemo'⟩
    cases hr
    cases hfoundAt
  | lookPassed tick attempts passed ih =>
    have hkept := (State.of_tick_true tick).2.2.1
    obtain ⟨-, hmemo'⟩ := ih layers (fun h => nomatch h) hready (hkept ▸ hfits) (hkept ▸ hmemo)
    exact ⟨fun _ r hr => (nomatch hr), hmemo'⟩
  | @searchEnd c d steps p s result reach s' here ih =>
    obtain ⟨hresult, hmemo'⟩ := ih layers hmode hready.1 hfits hmemo
    refine ⟨fun hlive start m hfound => ?_, hmemo'⟩
    cases result with
    | none => cases hfound
    | some r => exact hresult hlive r rfl start m hfound
  | searchDone here ih =>
    obtain ⟨hresult, hmemo'⟩ := ih layers hmode hready.1 hfits hmemo
    exact ⟨fun hlive => hresult hlive _ rfl, hmemo'⟩
  | searchNext here tail ihhere ihtail =>
    obtain ⟨-, hfits₁⟩ := here.fits hready.1 hfits
    obtain ⟨-, hmemo₁⟩ := ihhere layers hmode hready.1 hfits hmemo
    exact ihtail layers hmode hready.next hfits₁ hmemo₁

end Packrat
