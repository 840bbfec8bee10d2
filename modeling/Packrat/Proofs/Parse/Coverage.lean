import Packrat.Proofs.Parse.Memo
import Packrat.Proofs.Parse.Trivia

/-!
# Answers cover the text

Whatever a run takes from a boundary covers the text from there to the boundary where it stops,
in strict and recovering rounds, with results that were kept, and in a parse that stops early.
Its failures lie in the text that it looked at, and where no error point can have a part in it, it
takes no more than it looked at and makes no errors. `Run.fits` is the induction that carries all
of this; the kept results fit in the same way.
-/

namespace Packrat

/-- What holds of an answer from a position on. -/
structure Answer.Fits (c : Setting) (p : Nat) (a : Answer) : Prop where
  far : ∀ f, a.notes.far = some f → p ≤ f.position ∧ f.position < a.notes.reach
  tiles : ∀ t, a.taken = some t → Tree.TilesAll c.text t.trees p t.stop
  quiet : c.Quiet p a.notes.reach → ∀ t, a.taken = some t →
    t.stop ≤ max p a.notes.reach ∧ t.errors = []

/-- What holds of a kept result. -/
structure Entry.Fits (text : Text) (p : Nat) (e : Entry) : Prop where
  reach : p ≤ e.reach
  far : ∀ f, e.far = some f → p ≤ f.position ∧ f.position < e.reach
  tiles : ∀ t, e.taken = some t → Tree.TilesAll text t.trees p t.stop

/-- What holds of a result that was found as without recovery. -/
structure Entry.FitsStrict (text : Text) (p : Nat) (e : Entry) : Prop extends
    Entry.Fits text p e where
  boundary : text.isBoundary p = true
  within : ∀ t, e.taken = some t → t.stop ≤ e.reach ∧ t.errors = []

/-- What holds of strict results. -/
def Results.Fit (text : Text) (r : Results) : Prop :=
  ∀ (key : MemoKey) (e : Entry), r[key]? = some e → e.FitsStrict text key.2

/-- What holds of all kept results at some error points. -/
structure Memo.Fits (text : Text) (points : List Nat) (m : Memo) : Prop where
  strict : Results.Fit text m.strict
  recovering : ∀ (key : MemoKey) (e : Entry), m.recovering[key]? = some e →
    e.Fits text key.2 ∧ anyBetween points key.2 e.reach = true

/-- What holds of the end of a search from a position on. -/
def Search.Fits (c : Setting) (p : Nat) : Search → Prop
  | found start m =>
    p ≤ start ∧ c.text.isBoundary start = true ∧ Tree.TilesAll c.text m.trees start m.stop
  | stopped stop => p ≤ stop ∧ c.text.isBoundary stop = true
  | abandoned => True

/-- What holds of what a job comes to. -/
def Outcome.Fits (c : Setting) (p : Nat) : Outcome → Prop
  | answer a => a.Fits c p
  | tried found _ => ∀ m, found = some m → Tree.TilesAll c.text m.trees p m.stop
  | looked result _ => ∀ r, result = some r → r.Fits c p
  | searched result _ => result.Fits c p

/-- Where a job may start: at a boundary, and a search with the characters from there on. -/
def Job.Ready (c : Setting) (p : Nat) : Job → Prop
  | search _ rest => c.text.isBoundary p = true ∧ rest = c.text.charsFrom p
  | _ => c.text.isBoundary p = true

/-- A search starts behind the trivia. -/
theorem Job.ready_search {c : Setting} {p : Nat} (h : c.text.isBoundary p = true)
    (steps : List Step) :
    (Job.search steps (c.text.charsFrom (c.trivia p).stop)).Ready c (c.trivia p).stop :=
  ⟨c.isBoundary_trivia_stop h, rfl⟩

/-- A search goes on behind the next character. -/
theorem Job.Ready.next {c : Setting} {p : Nat} {steps : List Step} {char : Char}
    {rest : List Char} (h : (Job.search steps (char :: rest)).Ready c p) :
    (Job.search steps rest).Ready c (p + char.utf8Size) := by
  obtain ⟨hp, hrest⟩ := h
  obtain ⟨xs, ys, hsplit⟩ := Text.isBoundary_iff.mp hp
  rw [hsplit.charsFrom] at hrest
  subst hrest
  have hnext : c.text.Splits (p + utf8Length [char]) (xs ++ [char]) rest := hsplit.advance
  simp only [utf8Length_cons, utf8Length_nil, Nat.add_zero] at hnext
  exact ⟨hnext.isBoundary, hnext.charsFrom.symm⟩

namespace Answer.Fits

variable {c : Setting} {p : Nat}

/-- What is taken ends no earlier than it starts. -/
theorem le {a : Answer} {t : Taken} (h : a.Fits c p) (ht : a.taken = some t) : p ≤ t.stop :=
  Tree.TilesAll.le _ (h.tiles t ht)

/-- An answer from a boundary stops at a boundary. -/
theorem isBoundary {a : Answer} {t : Taken} (h : a.Fits c p) (hp : c.text.isBoundary p = true)
    (ht : a.taken = some t) : c.text.isBoundary t.stop = true :=
  Tree.TilesAll.isBoundary hp _ (h.tiles t ht)

/-- An answer that takes nothing fits if its failure lies in the text that it looked at. -/
theorem of_isNone {notes : Notes}
    (hfar : ∀ f, notes.far = some f → p ≤ f.position ∧ f.position < notes.reach) :
    Answer.Fits c p ⟨none, notes⟩ :=
  ⟨hfar, by simp, by simp⟩

/-- An operation that is not run takes no text and fails nowhere. -/
theorem idle : Answer.Fits c p (.idle p) :=
  ⟨by simp [Answer.idle], by simp [Answer.idle, Tree.tilesAll_nil], by simp [Answer.idle]⟩

/-- What is taken first and what is taken behind it fit together. -/
theorem behind {t : Taken} {notes : Notes} {a : Answer} (hfirst : Answer.Fits c p ⟨some t, notes⟩)
    (hrest : Answer.Fits c t.stop a) : Answer.Fits c p (.behind t notes a) := by
  have htiles := hfirst.tiles t rfl
  have hle := Tree.TilesAll.le _ htiles
  refine ⟨fun f hf => ?_, fun u hu => ?_, fun hquiet u hu => ?_⟩
  · rcases furthest_position hf with ⟨g, hg, hpos⟩ | ⟨g, hg, hpos⟩
    · have := hfirst.far g hg
      simp only [Answer.behind, Notes.join_reach]
      simp only at this
      omega
    · have := hrest.far g hg
      simp only [Answer.behind, Notes.join_reach]
      omega
  · obtain ⟨v, hv, rfl⟩ := Option.map_eq_some_iff.mp hu
    exact htiles.append (hrest.tiles v hv)
  · obtain ⟨v, hv, rfl⟩ := Option.map_eq_some_iff.mp hu
    simp only [Answer.behind, Notes.join_reach] at hquiet ⊢
    have hhead := hfirst.quiet (hquiet.mono (Nat.le_refl _) (Nat.le_max_left _ _)) t rfl
    have htail := hrest.quiet (hquiet.mono hle (Nat.le_max_right _ _)) v hv
    refine ⟨?_, by simp [Taken.andThen, hhead.2, htail.2]⟩
    have h₁ := hhead.1
    have h₂ := htail.1
    simp only [Taken.andThen] at h₁ h₂ ⊢
    omega

/-- The failures of an alternative that was given up fit to those of the next ones. -/
theorem noting {notes : Notes} {a : Answer} (hfirst : Answer.Fits c p ⟨none, notes⟩)
    (hrest : Answer.Fits c p a) : Answer.Fits c p (.noting notes a) := by
  refine ⟨fun f hf => ?_, hrest.tiles, fun hquiet t ht => ?_⟩
  · rcases furthest_position hf with ⟨g, hg, hpos⟩ | ⟨g, hg, hpos⟩
    · have := hfirst.far g hg
      simp only [Answer.noting, Notes.join_reach]
      simp only at this
      omega
    · have := hrest.far g hg
      simp only [Answer.noting, Notes.join_reach]
      omega
  · simp only [Answer.noting, Notes.join_reach] at hquiet ⊢
    obtain ⟨hstop, herrors⟩ :=
      hrest.quiet (hquiet.mono (Nat.le_refl _) (Nat.le_max_right _ _)) t ht
    exact ⟨by omega, herrors⟩

/-- The end of a repetition takes nothing more. -/
theorem endRepetition {least count : Nat} {notes : Notes}
    (hfar : ∀ f, notes.far = some f → p ≤ f.position ∧ f.position < notes.reach) :
    Answer.Fits c p (endRepetition least count p notes) := by
  unfold Packrat.endRepetition
  split
  · exact of_isNone hfar
  · refine ⟨hfar, fun t ht => ?_, fun _ t ht => ?_⟩ <;> cases ht
    · exact Tree.tilesAll_nil _ _
    · exact ⟨Nat.le_max_left _ _, rfl⟩

/-- Changing only the trees, so that they cover the same, fits as well. -/
theorem map_trees {a : Answer} {f : List Tree → List Tree} (h : a.Fits c p)
    (hf : ∀ t, a.taken = some t → Tree.TilesAll c.text (f t.trees) p t.stop) :
    Answer.Fits c p ⟨a.taken.map fun t => { t with trees := f t.trees }, a.notes⟩ := by
  refine ⟨h.far, fun t ht => ?_, fun hquiet t ht => ?_⟩
  · obtain ⟨u, hu, rfl⟩ := Option.map_eq_some_iff.mp ht
    exact hf u hu
  · obtain ⟨u, hu, rfl⟩ := Option.map_eq_some_iff.mp ht
    exact h.quiet hquiet u hu

/-- A name for a part covers what the part covers. -/
theorem wrapped {a : Answer} {kind : Nat} (h : a.Fits c p) : (a.wrapped c kind).Fits c p :=
  h.map_trees fun t ht => c.close_tiles (h.tiles t ht)

/-- The node of a rule covers what the rule takes. -/
theorem called {a : Answer} {rule : Nat} {renamed : Option Nat} {halted : Bool}
    (h : a.Fits c p) : (a.called c rule renamed halted).Fits c p := by
  refine ⟨h.far, fun t ht => ?_, fun hquiet t ht => ?_⟩
  · obtain ⟨u, hu, rfl⟩ := Option.map_eq_some_iff.mp ht
    split
    · exact h.tiles u hu
    · exact c.close_tiles (h.tiles u hu)
  · obtain ⟨u, hu, rfl⟩ := Option.map_eq_some_iff.mp ht
    split
    · exact h.quiet hquiet u hu
    · exact h.quiet hquiet u hu

/-- What a rule tells covers what its answer covers. -/
theorem fromRule {a : Answer} (h : a.Fits c p) : (a.fromRule p).Fits c p := by
  refine ⟨fun f hf => ?_, h.tiles, fun hquiet t ht => ?_⟩
  · have := h.far f hf
    simp only [Answer.fromRule]
    omega
  · simp only [Answer.fromRule] at hquiet ⊢
    obtain ⟨hstop, herrors⟩ := h.quiet (hquiet.mono (Nat.le_refl _) (Nat.le_max_right _ _)) t ht
    exact ⟨by omega, herrors⟩

/-- Where a failure is recovered from, an error point has a part. -/
theorem not_quiet {notes : Notes} {f : Failure} {reach : Nat}
    (h : Answer.Fits c p ⟨none, notes⟩) (harmed : c.recoverable? notes = some f)
    (hreach : notes.reach ≤ reach) : ¬ c.Quiet p reach := by
  have hfar := h.far f (Setting.of_recoverable? harmed).2.1
  simp only at hfar
  exact Setting.not_quiet_of_recoverable? harmed hfar.1 (by omega)

/-- A failure that is recovered from leaves failures in the text that was looked at, and what is
taken instead is never quiet. -/
theorem recovered {notes : Notes} {f : Failure} {t : Taken} {reach : Nat}
    (h : Answer.Fits c p ⟨none, notes⟩) (harmed : c.recoverable? notes = some f)
    (htiles : Tree.TilesAll c.text t.trees p t.stop) :
    Answer.Fits c p ⟨some t, notes.join (.seen reach)⟩ := by
  refine ⟨fun g hg => ?_, fun u hu => ?_, fun hquiet => ?_⟩
  · have := h.far g (by simpa using hg)
    simp only [Notes.join_reach] at this ⊢
    omega
  · cases hu
    exact htiles
  · exact absurd hquiet (h.not_quiet harmed (Nat.le_max_left _ _))

end Answer.Fits

/-- A terminal covers what it takes, and fails where it looked. -/
theorem runToken_fits (c : Setting) (terminal kind : Nat) (immediate : Bool) {p : Nat} (s : State) :
    (runToken c terminal kind immediate p s).1.Fits c p := by
  obtain ⟨trivia, htrivia⟩ : ∃ trivia, trivia =
      if immediate then (⟨[], p, 0⟩ : Trivia) else c.trivia p := ⟨_, rfl⟩
  have hleaves : Tree.TilesAll c.text trivia.leaves p trivia.stop := by
    rw [htrivia]
    split
    · exact Tree.tilesAll_nil _ _
    · exact c.trivia_tiles p
  have hbound : trivia.stop ≤ max p trivia.reach := by
    rw [htrivia]
    split
    · simp
    · exact c.trivia_stop_le p
  have hle := Tree.TilesAll.le _ hleaves
  simp only [runToken, ← htrivia]
  cases hlength : ((c.program.terminal terminal).scanAt c.text trivia.stop).length with
  | none =>
    have hpos := Terminal.reach_pos_scanAt hlength
    refine .of_isNone fun f hf => ?_
    simp only [Option.some.injEq] at hf
    subst hf
    simp only
    omega
  | some n =>
    obtain ⟨hstart, hstop⟩ := Terminal.isBoundary_of_scanAt_length hlength
    have hreach := Terminal.length_le_reach_scanAt hlength
    refine ⟨by simp, fun t ht => ?_, fun _ t ht => ?_⟩
    · cases ht
      refine hleaves.append ?_
      split
      · rename_i hn
        simp [hn, Tree.tilesAll_nil]
      · exact Tree.tilesAll_singleton.mpr ⟨by simp only; omega, hstart, hstop, rfl⟩
    · cases ht
      refine ⟨?_, rfl⟩
      simp only [Notes.seen_reach]
      omega

namespace Setting

variable {c : Setting} {p : Nat} (expected : List Nat)

/-- What the recovery of a sequence takes covers the text up to where it stops. -/
theorem resumedTaken_tiles {result : Search} (hp : c.text.isBoundary p = true)
    (h : result.Fits c (c.trivia p).stop) :
    Tree.TilesAll c.text (c.resumedTaken p expected result).trees p
      (c.resumedTaken p expected result).stop := by
  have hstart := c.isBoundary_trivia_stop hp
  cases result with
  | abandoned => exact c.trivia_tiles p
  | stopped stop =>
    exact (c.trivia_tiles p).append
      (Tree.tilesAll_singleton.mpr (c.errorNode_tiles hstart h.2 h.1))
  | found start m =>
    obtain ⟨hle, hboundary, hm⟩ := h
    by_cases hskipped : ((c.trivia p).stop < start || 0 < m.index) = true
    · simp only [resumedTaken, hskipped, if_true]
      exact (c.trivia_tiles p).append
        ((Tree.tilesAll_singleton.mpr (c.errorNode_tiles hstart hboundary hle)).append hm)
    · simp only [resumedTaken, hskipped]
      have heq : (c.trivia p).stop = start := by
        simp only [Bool.or_eq_true, decide_eq_true_eq, not_or] at hskipped
        omega
      exact (c.trivia_tiles p).append (heq ▸ hm)

/-- What a recovery takes in a repetition covers the text up to where it resumes. -/
theorem resumedIteration?_tiles {result : Search} {t : Taken} (hp : c.text.isBoundary p = true)
    (h : result.Fits c (c.trivia p).stop) (ht : c.resumedIteration? p expected result = some t) :
    Tree.TilesAll c.text t.trees p t.stop := by
  cases result with
  | found start m =>
    cases ht
    exact resumedTaken_tiles expected hp h
  | stopped => cases ht
  | abandoned => cases ht

/-- A sequence goes on at a boundary after a recovery. -/
theorem isBoundary_resumedTaken_stop {result : Search} (hp : c.text.isBoundary p = true)
    (h : result.Fits c (c.trivia p).stop) :
    c.text.isBoundary (c.resumedTaken p expected result).stop = true :=
  Tree.TilesAll.isBoundary hp _ (resumedTaken_tiles expected hp h)

/-- So does a repetition. -/
theorem isBoundary_resumedIteration?_stop {result : Search} {t : Taken}
    (hp : c.text.isBoundary p = true) (h : result.Fits c (c.trivia p).stop)
    (ht : c.resumedIteration? p expected result = some t) : c.text.isBoundary t.stop = true :=
  Tree.TilesAll.isBoundary hp _ (resumedIteration?_tiles expected hp h ht)

end Setting

/-- The answer that a kept result stands for fits. -/
theorem Entry.answer_fits {c : Setting} {rule p : Nat} {s : State} {entry : Entry}
    {recovering : Bool} (hmemo : s.memo.Fits c.text c.points)
    (h : known? c rule p s = some (entry, recovering)) :
    (entry.answer c recovering).Fits c p := by
  obtain ⟨_, ⟨_, hrec, hentry⟩ | ⟨_, hentry, _, _⟩⟩ := of_known? h
  · obtain ⟨hfits, hpoint⟩ := hmemo.recovering _ _ hentry
    refine ⟨hfits.far, hfits.tiles, fun hquiet => ?_⟩
    have hclear := hquiet hrec
    simp only [Entry.answer] at hclear
    simp [hclear] at hpoint
  · have hfits := hmemo.strict _ _ hentry
    refine ⟨hfits.far, hfits.tiles, fun _ t ht => ?_⟩
    obtain ⟨hstop, herrors⟩ := hfits.within t ht
    simp only [Entry.answer]
    exact ⟨by omega, herrors⟩

/-- The result of a rule fits when its answer does. -/
theorem Answer.Fits.entry {c : Setting} {p : Nat} {a : Answer} (h : a.Fits c p) :
    (a.entry p).Fits c.text p := by
  refine ⟨Nat.le_max_left _ _, fun f hf => ?_, h.tiles⟩
  have := h.far f hf
  simp only [Answer.entry]
  omega

/-- Keeping the answer of a rule keeps results that fit. -/
theorem keep_fits {c : Setting} {rule p : Nat} {a : Answer} {s : State}
    (hp : c.text.isBoundary p = true) (hmemo : s.memo.Fits c.text c.points) (ha : a.Fits c p) :
    (keep c rule p (a.entry p) s).memo.Fits c.text c.points := by
  constructor
  · intro key e he
    rcases getElem?_keep_strict he with hold | ⟨rfl, rfl, hquiet, -⟩
    · exact hmemo.strict key e hold
    · refine ⟨ha.entry, hp, fun t ht => ?_⟩
      simp only [Answer.entry] at hquiet ht ⊢
      exact ha.quiet (hquiet.mono (Nat.le_refl _) (Nat.le_max_right _ _)) t ht
  · intro key e he
    rcases getElem?_keep_recovering he with hold | ⟨rfl, rfl, -, hpoint⟩
    · exact hmemo.recovering key e hold
    · exact ⟨ha.entry, hpoint⟩

/-- A search that finds nothing at the end of the text stops there. -/
theorem Search.Fits.getD {c : Setting} {p : Nat} {result : Option Search}
    (hp : c.text.isBoundary p = true) (h : ∀ r, result = some r → r.Fits c p) :
    (result.getD (.stopped p)).Fits c p := by
  cases result with
  | none => exact ⟨Nat.le_refl _, hp⟩
  | some r => exact h r rfl

/-- What a search from a position finds lies behind earlier positions as well. -/
theorem Search.Fits.earlier {c : Setting} {p q : Nat} {result : Search} (hpq : p ≤ q)
    (h : result.Fits c q) : result.Fits c p := by
  cases result with
  | found => exact ⟨Nat.le_trans hpq h.1, h.2⟩
  | stopped => exact ⟨Nat.le_trans hpq h.1, h.2⟩
  | abandoned => trivial

/-- A run from a boundary, with kept results that fit, comes to something that fits, and keeps
results that fit. -/
theorem Run.fits {c : Setting} {d : Nat} {job : Job} {p : Nat} {s s' : State} {out : Outcome}
    (h : Run c d job p s out s') (hready : job.Ready c p)
    (hmemo : s.memo.Fits c.text c.points) :
    out.Fits c p ∧ s'.memo.Fits c.text c.points := by
  induction h with
  | refused tick => exact ⟨.idle, (State.of_tick_false tick).2 ▸ hmemo⟩
  | tooDeep tick =>
    have hkept := (State.of_tick_true tick).2.2.1
    exact ⟨.idle, by simpa only [State.stop_memo, hkept] using hmemo⟩
  | ticked tick rest ih => exact ih hready ((State.of_tick_true tick).2.2.1 ▸ hmemo)
  | blank => exact ⟨.idle, hmemo⟩
  | token =>
    rename_i c d terminal kind immediate p s
    obtain ⟨e, he⟩ := runToken_state c terminal kind immediate p s
    exact ⟨runToken_fits c terminal kind immediate s, he ▸ hmemo⟩
  | call rest ih => exact (ih hready hmemo).imp_left Answer.Fits.called
  | members rest ih => exact ih hready hmemo
  | alternatives rest ih => exact ih hready hmemo
  | repetition rest ih => exact ih hready hmemo
  | wrap rest ih => exact (ih hready hmemo).imp_left Answer.Fits.wrapped
  | cancelled ask => exact ⟨.idle, (State.of_ask_false ask).2 ▸ hmemo⟩
  | hit ask known =>
    have hkept := (State.of_ask_true ask).2.2.1
    rw [← hkept] at hmemo
    exact ⟨Entry.answer_fits hmemo known, hmemo⟩
  | body ask unknown rest ih =>
    have hkept := (State.of_ask_true ask).2.2.1
    obtain ⟨ha, hmemo'⟩ := ih hready (hkept ▸ hmemo)
    exact ⟨Answer.Fits.fromRule ha, keep_fits hready hmemo' ha⟩
  | seqNil => exact ⟨.idle, hmemo⟩
  | seqSkip tail ih => exact ih hready hmemo
  | seqTook head tail ihhead ihtail =>
    obtain ⟨hfirst, hmemo₁⟩ := ihhead hready hmemo
    have hstop := Tree.TilesAll.isBoundary hready _ (hfirst.tiles _ rfl)
    exact (ihtail hstop hmemo₁).imp_left hfirst.behind
  | seqFailed head final ih => exact ih hready hmemo
  | seqEnded head armed scan ended ihhead ihscan =>
    obtain ⟨hfirst, hmemo₁⟩ := ihhead hready hmemo
    obtain ⟨hresult, hmemo₂⟩ := ihscan ⟨Setting.isBoundary_trivia_stop _ hready, rfl⟩ hmemo₁
    refine ⟨hfirst.recovered armed (Setting.resumedTaken_tiles _ hready hresult), ?_⟩
    rwa [State.recordError_memo]
  | @seqResumed c d step rest p s notes s₁ failure result reach s₂ index a s' head armed scan
      resumed tail ihhead ihscan ihtail =>
    obtain ⟨hfirst, hmemo₁⟩ := ihhead hready hmemo
    obtain ⟨hresult, hmemo₂⟩ := ihscan ⟨Setting.isBoundary_trivia_stop _ hready, rfl⟩ hmemo₁
    have htiles := Setting.resumedTaken_tiles failure.expected hready hresult
    obtain ⟨hrest, hmemo₃⟩ := ihtail (Tree.TilesAll.isBoundary hready _ htiles)
      (by rwa [State.recordError_memo])
    exact ⟨(hfirst.recovered armed htiles).behind hrest, hmemo₃⟩
  | choiceNil => exact ⟨.of_isNone (by simp), hmemo⟩
  | choiceTook head ih => exact ih hready hmemo
  | choiceNext head tail ihhead ihtail =>
    obtain ⟨hfirst, hmemo₁⟩ := ihhead hready hmemo
    exact (ihtail hready hmemo₁).imp_left hfirst.noting
  | exhausted => exact ⟨.endRepetition (by simp), hmemo⟩
  | enough => exact ⟨.endRepetition (by simp), hmemo⟩
  | idleIteration room head still ih =>
    exact (ih hready hmemo).imp_left fun hfirst => .endRepetition hfirst.far
  | nextIteration room head moved tail ihhead ihtail =>
    obtain ⟨hfirst, hmemo₁⟩ := ihhead hready hmemo
    have hstop := Tree.TilesAll.isBoundary hready _ (hfirst.tiles _ rfl)
    exact (ihtail hstop hmemo₁).imp_left hfirst.behind
  | lastIteration room head final ih =>
    exact (ih hready hmemo).imp_left fun hfirst => .endRepetition hfirst.far
  | lostIteration room head started armed scan ended ihhead ihscan =>
    obtain ⟨hfirst, hmemo₁⟩ := ihhead hready hmemo
    obtain ⟨-, hmemo₂⟩ := ihscan ⟨Setting.isBoundary_trivia_stop _ hready, rfl⟩ hmemo₁
    refine ⟨.endRepetition fun f hf => ?_, hmemo₂⟩
    have := hfirst.far f (by simpa using hf)
    simp only [Notes.join_reach] at this ⊢
    omega
  | foundIteration room head started armed scan resumed tail ihhead ihscan ihtail =>
    obtain ⟨hfirst, hmemo₁⟩ := ihhead hready hmemo
    obtain ⟨hresult, hmemo₂⟩ := ihscan ⟨Setting.isBoundary_trivia_stop _ hready, rfl⟩ hmemo₁
    have htiles := Setting.resumedIteration?_tiles _ hready hresult resumed
    obtain ⟨hrest, hmemo₃⟩ := ihtail (Tree.TilesAll.isBoundary hready _ htiles)
      (by rwa [State.recordError_memo])
    exact ⟨(hfirst.recovered armed htiles).behind hrest, hmemo₃⟩
  | trialNil => exact ⟨by simp [Outcome.Fits], hmemo⟩
  | trialFound head past ih =>
    obtain ⟨ha, hmemo'⟩ := ih hready hmemo
    refine ⟨fun m hm => ?_, hmemo'⟩
    cases hm
    exact ha.tiles _ rfl
  | trialNext head short tail ihhead ihtail =>
    obtain ⟨-, hmemo₁⟩ := ihhead hready hmemo
    exact ihtail hready hmemo₁
  | lookRefused tick =>
    refine ⟨fun r hr => ?_, (State.of_tick_false tick).2 ▸ hmemo⟩
    cases hr
    trivial
  | lookFound tick attempts ih =>
    obtain ⟨hm, hmemo'⟩ := ih hready ((State.of_tick_true tick).2.2.1 ▸ hmemo)
    refine ⟨fun r hr => ?_, hmemo'⟩
    cases hr
    exact ⟨Nat.le_refl _, hready, hm _ rfl⟩
  | lookStopped tick attempts final ih =>
    obtain ⟨-, hmemo'⟩ := ih hready ((State.of_tick_true tick).2.2.1 ▸ hmemo)
    refine ⟨fun r hr => ?_, hmemo'⟩
    cases hr
    exact ⟨Nat.le_refl _, hready⟩
  | lookPassed tick attempts passed ih =>
    obtain ⟨-, hmemo'⟩ := ih hready ((State.of_tick_true tick).2.2.1 ▸ hmemo)
    exact ⟨by simp [Outcome.Fits], hmemo'⟩
  | searchEnd here ih =>
    exact (ih hready.1 hmemo).imp_left fun hresult => Search.Fits.getD hready.1 hresult
  | searchDone here ih =>
    exact (ih hready.1 hmemo).imp_left fun hresult => hresult _ rfl
  | searchNext here tail ihhere ihtail =>
    obtain ⟨-, hmemo₁⟩ := ihhere hready.1 hmemo
    obtain ⟨hresult, hmemo₂⟩ := ihtail hready.next hmemo₁
    exact ⟨Search.Fits.earlier (Nat.le_add_right _ _) hresult, hmemo₂⟩

end Packrat
