import Packrat.Proofs.Strict.Soundness

/-!
# Runs follow derivations

Where something is derived without recovery and no error point has a part in the derivation, a run
in a parse that goes on comes to the same, in a recovering round as well. It keeps no results but
those of the rules in the derivation. This needs that the results that are kept apart, because an
error point had a part in them, are never those of such derivations.
-/

namespace Packrat

/-- Whether error points have a part in all derivations of the results that are kept apart. -/
def Memo.Armed (g : Program) (text : Text) (points : List Nat) (m : Memo) : Prop :=
  ∀ (key : MemoKey) (e : Entry), m.recovering[key]? = some e → ∀ allowed a,
    Derives g text allowed (.rule key.1) key.2 a → anyBetween points key.2 a.notes.reach = true

/-- What holds of the results that are kept in a round. -/
structure Memo.Sound (g : Program) (text : Text) (points : List Nat) (m : Memo) : Prop where
  fits : m.Fits text points
  valid : m.Valid g text
  armed : m.Armed g text points

/-- Strict results that fit and are derived are sound wherever the error points are. -/
theorem Memo.sound_of_strict {g : Program} {text : Text} {m : Memo}
    (hfits : Results.Fit text m.strict) (hvalid : m.Valid g text) (hnone : m.recovering = {})
    (points : List Nat) : m.Sound g text points := by
  refine ⟨⟨hfits, fun key e he => ?_⟩, hvalid, fun key e he => ?_⟩
  · simp [hnone] at he
  · simp [hnone] at he

/-- Where nothing is kept, all that is kept is sound. -/
theorem Memo.sound_empty (g : Program) (text : Text) (points : List Nat) :
    ({} : Memo).Sound g text points :=
  sound_of_strict (by simp [Results.Fit]) (by simp [Valid]) rfl points

/-- What is settled is sound wherever the error points are. -/
theorem Memo.Sound.settle {g : Program} {text : Text} {points : List Nat} {m : Memo}
    (h : m.Sound g text points) (points' : List Nat) : m.settle.Sound g text points' := by
  refine sound_of_strict (m := m.settle) ?_ h.valid.settle (settle_recovering m) points'
  rw [settle_strict]
  exact h.fits.strict

/-- Whether an answer is the one that is derived if something is derived in which no error point
has a part, with no more results kept than the derivation has. -/
def Answer.Follows (c : Setting) (m m' : Memo) (task : Task) (p : Nat) (a : Answer) : Prop :=
  ∀ allowed a₀, Derives c.program c.text allowed task p a₀ → c.Quiet p a₀.notes.reach →
    a.plain = a₀ ∧ (∀ key ∈ m'.strict, key ∈ m.strict ∨ allowed key) ∧
      m'.recovering = m.recovering

/-- Whether what a job comes to follows the derivations if it is an answer. -/
def Outcome.Follows (c : Setting) (m m' : Memo) (job : Job) (p : Nat) : Outcome → Prop
  | .answer a => ∀ task, job.task? = some task → job.Roomy c p → a.Follows c m m' task p
  | _ => True

variable {c : Setting} {d p : Nat} {job : Job} {s s' : State} {out : Outcome}

/-- What a run keeps fits and is derived, so it is sound if what is kept apart depends on error
points. -/
theorem Run.sound_of_armed (h : Run c d job p s out s') (hready : job.Ready c p)
    (hsound : s.memo.Sound c.program c.text c.points)
    (harmed : s'.memo.Armed c.program c.text c.points) :
    s'.memo.Sound c.program c.text c.points :=
  ⟨(h.fits hready hsound.fits).2, (h.derived hready hsound.fits hsound.valid).2, harmed⟩

namespace Answer.Follows

variable {m m' : Memo} {task : Task} {a : Answer}

/-- An answer that is derived whenever something is, with nothing more kept. -/
theorem of_unchanged (h : ∀ allowed a₀, Derives c.program c.text allowed task p a₀ →
    c.Quiet p a₀.notes.reach → a.plain = a₀) : a.Follows c m m task p :=
  fun allowed a₀ hderives hquiet =>
    ⟨h allowed a₀ hderives hquiet, fun _ hkey => .inl hkey, rfl⟩

/-- An answer whose derivations come from those of another answer. -/
theorem map {b : Answer} {task' : Task} (h : a.Follows c m m' task p)
    (hmap : ∀ allowed b₀, Derives c.program c.text allowed task' p b₀ → ∃ a₀,
      Derives c.program c.text allowed task p a₀ ∧ a₀.notes.reach ≤ b₀.notes.reach ∧
        (a.plain = a₀ → b.plain = b₀)) : b.Follows c m m' task' p := by
  intro allowed b₀ hderives hquiet
  obtain ⟨a₀, hderives', hreach, hplain⟩ := hmap allowed b₀ hderives
  obtain ⟨ha, hkept⟩ := h allowed a₀ hderives' (hquiet.mono (Nat.le_refl _) hreach)
  exact ⟨hplain ha, hkept⟩

/-- An answer in two steps, the second one behind the first. -/
theorem behind {m₁ : Memo} {t : Taken} {notes : Notes} {first rest : Task}
    (hp : c.text.isBoundary p = true) (hfirst : Answer.Follows c m m₁ first p ⟨some t, notes⟩)
    (hrest : a.Follows c m₁ m' rest t.stop)
    (hcases : ∀ allowed b₀, Derives c.program c.text allowed task p b₀ → ∃ a₁,
      Derives c.program c.text allowed first p a₁ ∧ a₁.notes.reach ≤ b₀.notes.reach ∧
        (a₁.taken = some t → ∃ a₀, Derives c.program c.text allowed rest t.stop a₀ ∧
          b₀ = .behind t a₁.notes a₀)) :
    (Answer.behind t notes a).Follows c m m' task p := by
  intro allowed b₀ hderives hquiet
  obtain ⟨a₁, hhead, hreach, hnext⟩ := hcases allowed b₀ hderives
  obtain ⟨rfl, hkeys, hrecovering⟩ := hfirst allowed a₁ hhead (hquiet.mono (Nat.le_refl _) hreach)
  obtain ⟨a₀, htail, rfl⟩ := hnext rfl
  have hle := (hhead.stop_bounds hp).1
  obtain ⟨rfl, hkeys', hrecovering'⟩ :=
    hrest allowed a₀ htail (hquiet.mono hle (Nat.le_max_right _ _))
  refine ⟨plain_behind a notes t, fun key hkey => ?_, hrecovering'.trans hrecovering⟩
  exact (hkeys' key hkey).elim (hkeys key) .inr

/-- An answer in two steps, the first one a failure. -/
theorem noting {m₁ : Memo} {notes : Notes} {first rest : Task}
    (hfirst : Answer.Follows c m m₁ first p ⟨none, notes⟩) (hrest : a.Follows c m₁ m' rest p)
    (hcases : ∀ allowed b₀, Derives c.program c.text allowed task p b₀ → ∃ a₁,
      Derives c.program c.text allowed first p a₁ ∧ a₁.notes.reach ≤ b₀.notes.reach ∧
        (a₁.taken = none → ∃ a₀, Derives c.program c.text allowed rest p a₀ ∧
          b₀ = .noting a₁.notes a₀)) :
    (Answer.noting notes a).Follows c m m' task p := by
  intro allowed b₀ hderives hquiet
  obtain ⟨a₁, hhead, hreach, hnext⟩ := hcases allowed b₀ hderives
  obtain ⟨rfl, hkeys, hrecovering⟩ := hfirst allowed a₁ hhead (hquiet.mono (Nat.le_refl _) hreach)
  obtain ⟨a₀, htail, rfl⟩ := hnext rfl
  obtain ⟨rfl, hkeys', hrecovering'⟩ :=
    hrest allowed a₀ htail (hquiet.mono (Nat.le_refl _) (Nat.le_max_right _ _))
  refine ⟨plain_noting a notes, fun key hkey => ?_, hrecovering'.trans hrecovering⟩
  exact (hkeys' key hkey).elim (hkeys key) .inr

/-- Where a failure is recovered from, error points have a part in the derivations of the failure
and so in all that start with them. -/
theorem of_recovered {m₁ : Memo} {notes : Notes} {f : Failure} {first : Task}
    (hfits : Answer.Fits c p ⟨none, notes⟩) (harmed : c.recoverable? notes = some f)
    (hfirst : Answer.Follows c m m₁ first p ⟨none, notes⟩)
    (hcases : ∀ allowed b₀, Derives c.program c.text allowed task p b₀ → ∃ a₁,
      Derives c.program c.text allowed first p a₁ ∧ a₁.notes.reach ≤ b₀.notes.reach) :
    a.Follows c m m' task p := by
  intro allowed b₀ hderives hquiet
  obtain ⟨a₁, hhead, hreach⟩ := hcases allowed b₀ hderives
  have hquiet₁ := hquiet.mono (Nat.le_refl _) hreach
  obtain ⟨rfl, -⟩ := hfirst allowed a₁ hhead hquiet₁
  exact absurd hquiet₁ (hfits.not_quiet harmed (Nat.le_refl _))

end Answer.Follows

/-- To keep an answer that follows its derivations keeps nothing apart that is derived without error
points. -/
theorem Memo.Armed.keep {rule : Nat} {a : Answer} {m : Memo}
    (h : s.memo.Armed c.program c.text c.points)
    (ha : a.Follows c m s.memo (.step (c.program.rule rule).body) p) :
    (Packrat.keep c rule p (a.entry p) s).memo.Armed c.program c.text c.points := by
  intro key e he allowed a₀ hderives
  rcases getElem?_keep_recovering he with hold | ⟨rfl, rfl, -, hpoint⟩
  · exact h key e hold allowed a₀ hderives
  · cases hderives with
    | @rule _ _ b₀ known body =>
      rw [← Bool.not_eq_false]
      intro hclear
      have hquiet : c.Quiet p b₀.notes.reach := fun _ =>
        Setting.anyBetween_mono hclear (Nat.le_refl _) (Nat.le_max_right _ _)
      obtain ⟨rfl, -⟩ := ha allowed b₀ body hquiet
      simp only [Answer.entry] at hpoint
      simp only [Answer.fromRule, Answer.plain, Notes.plain] at hclear
      rw [hclear] at hpoint
      cases hpoint

/-- What a rule tells follows its derivations when the answer of its body does. -/
theorem Answer.Follows.keep {rule : Nat} {a : Answer} {m : Memo}
    (ha : a.Follows c m s.memo (.step (c.program.rule rule).body) p) :
    (a.fromRule p).Follows c m (Packrat.keep c rule p (a.entry p) s).memo (.rule rule) p := by
  intro allowed a₀ hderives hquiet
  cases hderives with
  | @rule _ _ b₀ known body =>
    obtain ⟨rfl, hkeys, hrecovering⟩ :=
      ha allowed b₀ body (hquiet.mono (Nat.le_refl _) (Nat.le_max_right _ _))
    refine ⟨rfl, fun key hkey => ?_, ?_⟩
    · rcases of_mem_keep_strict hkey with hold | rfl
      · exact hkeys key hold
      · exact .inr known
    · have hkept : (Packrat.keep c rule p (a.entry p) s).memo.recovering = s.memo.recovering :=
        keep_recovering hquiet
      rw [hkept, hrecovering]

/-- A run in a parse that goes on follows every derivation in which no error point has a part, and
keeps such results only. -/
theorem Run.follows (h : Run c d job p s out s') (hlive : s'.halted = none)
    (hready : job.Ready c p) (hsound : s.memo.Sound c.program c.text c.points) :
    out.Follows c s.memo s'.memo job p ∧ s'.memo.Armed c.program c.text c.points := by
  induction h with
  | refused tick => exact absurd hlive (State.of_tick_false tick).1
  | tooDeep => simp at hlive
  | ticked tick rest ih =>
    have hkept := (State.of_tick_true tick).2.2.1
    obtain ⟨ha, harmed⟩ := ih hlive hready (hkept ▸ hsound)
    refine ⟨?_, harmed⟩
    rintro task ⟨⟩ -
    exact hkept ▸ ha _ rfl trivial
  | blank =>
    refine ⟨?_, hsound.armed⟩
    rintro task ⟨⟩ -
    refine .of_unchanged fun allowed a₀ hderives _ => ?_
    cases hderives
    rfl
  | @token c d terminal kind immediate p s =>
    obtain ⟨e, he⟩ := runToken_state c terminal kind immediate p s
    rw [he]
    refine ⟨?_, hsound.armed⟩
    rintro task ⟨⟩ -
    refine .of_unchanged fun allowed a₀ hderives _ => ?_
    cases hderives
    exact plain_runToken c terminal kind immediate p s
  | call rest ih =>
    refine (ih hlive hready hsound).imp_left fun ha => ?_
    rintro task ⟨⟩ -
    refine (ha _ rfl trivial).map fun allowed b₀ hderives => ?_
    cases hderives with
    | call hderives =>
      refine ⟨_, hderives, Nat.le_refl _, fun hplain => ?_⟩
      rw [plain_called, State.isHalted_eq_false.mpr hlive, hplain]
  | members rest ih =>
    refine (ih hlive hready hsound).imp_left fun ha => ?_
    rintro task ⟨⟩ -
    refine (ha _ rfl trivial).map fun allowed b₀ hderives => ?_
    cases hderives with
    | members hderives => exact ⟨_, hderives, Nat.le_refl _, id⟩
  | alternatives rest ih =>
    refine (ih hlive hready hsound).imp_left fun ha => ?_
    rintro task ⟨⟩ -
    refine (ha _ rfl trivial).map fun allowed b₀ hderives => ?_
    cases hderives with
    | alternatives hderives => exact ⟨_, hderives, Nat.le_refl _, id⟩
  | repetition rest ih =>
    refine (ih hlive hready hsound).imp_left fun ha => ?_
    rintro task ⟨⟩ -
    refine (ha _ rfl (Nat.le_refl _)).map fun allowed b₀ hderives => ?_
    cases hderives with
    | repetition hderives => exact ⟨_, hderives, Nat.le_refl _, id⟩
  | wrap rest ih =>
    refine (ih hlive hready hsound).imp_left fun ha => ?_
    rintro task ⟨⟩ -
    refine (ha _ rfl trivial).map fun allowed b₀ hderives => ?_
    cases hderives with
    | wrap hderives =>
      refine ⟨_, hderives, Nat.le_refl _, fun hplain => ?_⟩
      rw [plain_wrapped, hplain]
  | cancelled ask => exact absurd hlive (State.of_ask_false ask).1
  | @hit c d rule p s s₁ entry recovering ask known =>
    have hkept := (State.of_ask_true ask).2.2.1
    rw [← hkept] at hsound ⊢
    refine ⟨?_, hsound.armed⟩
    rintro task ⟨⟩ -
    refine .of_unchanged fun allowed a₀ hderives hquiet => ?_
    obtain ⟨-, ⟨rfl, hrec, hentry⟩ | ⟨rfl, hentry, -, -⟩⟩ := of_known? known
    · have hpoint := hsound.armed _ _ hentry allowed a₀ hderives
      rw [hquiet hrec] at hpoint
      cases hpoint
    · rw [plain_answer]
      exact (hsound.valid _ _ hentry).unique hderives
  | @body c d rule p s s₁ a s₂ ask unknown rest ih =>
    have hkept := (State.of_ask_true ask).2.2.1
    have hlive₂ : s₂.halted = none := by simpa using hlive
    obtain ⟨ha, harmed⟩ := ih hlive₂ hready (hkept ▸ hsound)
    have hbody := ha _ rfl trivial
    rw [State.record_memo, hkept] at hbody
    refine ⟨?_, harmed.keep hbody⟩
    rintro task ⟨⟩ -
    exact hbody.keep
  | seqNil =>
    refine ⟨?_, hsound.armed⟩
    rintro task ⟨⟩ -
    refine .of_unchanged fun allowed a₀ hderives _ => ?_
    rw [List.drop_nil] at hderives
    cases hderives
    rfl
  | seqSkip tail ih => exact ih hlive hready hsound
  | seqTook head tail ihhead ihtail =>
    have hlive₁ := tail.live hlive
    obtain ⟨ha, harmed₁⟩ := ihhead hlive₁ hready hsound
    have hstop := Tree.TilesAll.isBoundary hready _ ((head.fits hready hsound.fits).1.tiles _ rfl)
    obtain ⟨hrest, harmed'⟩ :=
      ihtail hlive hstop (head.sound_of_armed hready hsound harmed₁)
    refine ⟨?_, harmed'⟩
    rintro task ⟨⟩ -
    refine .behind hready (ha _ rfl trivial) (hrest _ rfl trivial) fun allowed b₀ hderives => ?_
    obtain ⟨a₁, hhead, hreach, -, hnext⟩ := hderives.of_seq
    exact ⟨a₁, hhead, hreach, hnext _⟩
  | seqFailed head final ih =>
    refine (ih hlive hready hsound).imp_left fun ha => ?_
    rintro task ⟨⟩ -
    refine (ha _ rfl trivial).map fun allowed b₀ hderives => ?_
    obtain ⟨a₁, hhead, hreach, hfailed, -⟩ := hderives.of_seq
    exact ⟨a₁, hhead, hreach, fun hplain => hplain.trans (hfailed (hplain ▸ rfl)).symm⟩
  | seqEnded head armed scan ended ihhead ihscan =>
    rw [State.recordError_halted] at hlive
    have hlive₁ := scan.live hlive
    obtain ⟨ha, harmed₁⟩ := ihhead hlive₁ hready hsound
    obtain ⟨-, harmed₂⟩ := ihscan hlive ⟨Setting.isBoundary_trivia_stop _ hready, rfl⟩
      (head.sound_of_armed hready hsound harmed₁)
    refine ⟨?_, by rwa [State.recordError_memo]⟩
    rintro task ⟨⟩ -
    refine .of_recovered (head.fits hready hsound.fits).1 armed (ha _ rfl trivial)
      fun allowed b₀ hderives => ?_
    obtain ⟨a₁, hhead, hreach, -⟩ := hderives.of_seq
    exact ⟨a₁, hhead, hreach⟩
  | @seqResumed c d step rest p s notes s₁ failure result reach s₂ index a s' head armed scan
      resumed tail ihhead ihscan ihtail =>
    have hlive₂ := tail.live hlive
    rw [State.recordError_halted] at hlive₂
    have hlive₁ := scan.live hlive₂
    obtain ⟨hfirst, hfits₁⟩ := head.fits hready hsound.fits
    obtain ⟨ha, harmed₁⟩ := ihhead hlive₁ hready hsound
    have hsound₁ := head.sound_of_armed hready hsound harmed₁
    have hstart := Setting.isBoundary_trivia_stop c hready
    obtain ⟨hresult, -⟩ := scan.fits ⟨hstart, rfl⟩ hfits₁
    obtain ⟨-, harmed₂⟩ := ihscan hlive₂ ⟨hstart, rfl⟩ hsound₁
    have hsound₂ := scan.sound_of_armed ⟨hstart, rfl⟩ hsound₁ harmed₂
    have htiles := Setting.resumedTaken_tiles failure.expected hready hresult
    obtain ⟨-, harmed'⟩ := ihtail hlive (Tree.TilesAll.isBoundary hready _ htiles)
      (by rwa [State.recordError_memo])
    refine ⟨?_, harmed'⟩
    rintro task ⟨⟩ -
    refine .of_recovered hfirst armed (ha _ rfl trivial) fun allowed b₀ hderives => ?_
    obtain ⟨a₁, hhead, hreach, -⟩ := hderives.of_seq
    exact ⟨a₁, hhead, hreach⟩
  | choiceNil =>
    refine ⟨?_, hsound.armed⟩
    rintro task ⟨⟩ -
    refine .of_unchanged fun allowed a₀ hderives _ => ?_
    cases hderives
    rfl
  | choiceTook head ih =>
    refine (ih hlive hready hsound).imp_left fun ha => ?_
    rintro task ⟨⟩ -
    refine (ha _ rfl trivial).map fun allowed b₀ hderives => ?_
    obtain ⟨a₁, hhead, hreach, htook, -⟩ := hderives.of_choice
    exact ⟨a₁, hhead, hreach, fun hplain => hplain.trans (htook (hplain ▸ rfl)).symm⟩
  | choiceNext head tail ihhead ihtail =>
    have hlive₁ := tail.live hlive
    obtain ⟨ha, harmed₁⟩ := ihhead hlive₁ hready hsound
    obtain ⟨hrest, harmed'⟩ :=
      ihtail hlive hready (head.sound_of_armed hready hsound harmed₁)
    refine ⟨?_, harmed'⟩
    rintro task ⟨⟩ -
    refine .noting (ha _ rfl trivial) (hrest _ rfl trivial) fun allowed b₀ hderives => ?_
    obtain ⟨a₁, hhead, hreach, -, hnext⟩ := hderives.of_choice
    exact ⟨a₁, hhead, hreach, hnext⟩
  | exhausted =>
    refine ⟨fun task _ hroom => ?_, hsound.armed⟩
    have hle := Text.le_size_of_isBoundary hready
    simp only [Job.Roomy] at hroom
    omega
  | enough full =>
    refine ⟨?_, hsound.armed⟩
    rintro task ⟨⟩ -
    refine .of_unchanged fun allowed a₀ hderives _ => ?_
    exact (hderives.unique (.enough full : Derives _ _ allowed _ _ _)).symm
  | idleIteration room head still ih =>
    refine (ih hlive hready hsound).imp_left fun ha => ?_
    rintro task ⟨⟩ -
    refine (ha _ rfl trivial).map fun allowed b₀ hderives => ?_
    obtain ⟨a₁, hhead, hreach, hends, -⟩ := hderives.of_iterations room
    refine ⟨a₁, hhead, hreach, fun hplain => ?_⟩
    rw [hends (by rintro t ht; rw [← hplain] at ht; cases ht; exact still), plain_endRepetition,
      ← hplain]
    rfl
  | nextIteration room head moved tail ihhead ihtail =>
    have hlive₁ := tail.live hlive
    obtain ⟨ha, harmed₁⟩ := ihhead hlive₁ hready hsound
    have htiles := (head.fits hready hsound.fits).1.tiles _ rfl
    have hle := Tree.TilesAll.le _ htiles
    obtain ⟨hrest, harmed'⟩ := ihtail hlive (Tree.TilesAll.isBoundary hready _ htiles)
      (head.sound_of_armed hready hsound harmed₁)
    refine ⟨?_, harmed'⟩
    rintro task ⟨⟩ hroom
    simp only [Job.Roomy] at hroom
    refine .behind hready (ha _ rfl trivial) (hrest _ rfl (by simp only [Job.Roomy]; omega))
      fun allowed b₀ hderives => ?_
    obtain ⟨a₁, hhead, hreach, -, hnext⟩ := hderives.of_iterations room
    exact ⟨a₁, hhead, hreach, fun ht => hnext _ ht moved⟩
  | lastIteration room head final ih =>
    refine (ih hlive hready hsound).imp_left fun ha => ?_
    rintro task ⟨⟩ -
    refine (ha _ rfl trivial).map fun allowed b₀ hderives => ?_
    obtain ⟨a₁, hhead, hreach, hends, -⟩ := hderives.of_iterations room
    refine ⟨a₁, hhead, hreach, fun hplain => ?_⟩
    rw [hends (by rintro t ht; rw [← hplain] at ht; cases ht), plain_endRepetition, ← hplain]
    rfl
  | lostIteration room head started armed scan ended ihhead ihscan =>
    have hlive₁ := scan.live hlive
    obtain ⟨ha, harmed₁⟩ := ihhead hlive₁ hready hsound
    obtain ⟨-, harmed₂⟩ := ihscan hlive ⟨Setting.isBoundary_trivia_stop _ hready, rfl⟩
      (head.sound_of_armed hready hsound harmed₁)
    refine ⟨?_, harmed₂⟩
    rintro task ⟨⟩ -
    refine .of_recovered (head.fits hready hsound.fits).1 armed (ha _ rfl trivial)
      fun allowed b₀ hderives => ?_
    obtain ⟨a₁, hhead, hreach, -⟩ := hderives.of_iterations room
    exact ⟨a₁, hhead, hreach⟩
  | @foundIteration c d body least most left count p s notes s₁ failure result reach s₂ t a s' room
      head started armed scan resumed tail ihhead ihscan ihtail =>
    have hlive₂ := tail.live hlive
    rw [State.recordError_halted] at hlive₂
    have hlive₁ := scan.live hlive₂
    obtain ⟨hfirst, hfits₁⟩ := head.fits hready hsound.fits
    obtain ⟨ha, harmed₁⟩ := ihhead hlive₁ hready hsound
    have hsound₁ := head.sound_of_armed hready hsound harmed₁
    have hstart := Setting.isBoundary_trivia_stop c hready
    obtain ⟨hresult, -⟩ := scan.fits ⟨hstart, rfl⟩ hfits₁
    obtain ⟨-, harmed₂⟩ := ihscan hlive₂ ⟨hstart, rfl⟩ hsound₁
    have hsound₂ := scan.sound_of_armed ⟨hstart, rfl⟩ hsound₁ harmed₂
    have htiles := Setting.resumedIteration?_tiles failure.expected hready hresult resumed
    obtain ⟨-, harmed'⟩ := ihtail hlive (Tree.TilesAll.isBoundary hready _ htiles)
      (by rwa [State.recordError_memo])
    refine ⟨?_, harmed'⟩
    rintro task ⟨⟩ -
    refine .of_recovered hfirst armed (ha _ rfl trivial) fun allowed b₀ hderives => ?_
    obtain ⟨a₁, hhead, hreach, -⟩ := hderives.of_iterations room
    exact ⟨a₁, hhead, hreach⟩
  | trialNil => exact ⟨trivial, hsound.armed⟩
  | trialFound head past ih => exact ⟨trivial, (ih hlive hready hsound).2⟩
  | trialNext head short tail ihhead ihtail =>
    have hlive₁ := tail.live hlive
    have hsound₁ := head.sound_of_armed hready hsound (ihhead hlive₁ hready hsound).2
    exact ⟨trivial, (ihtail hlive hready hsound₁).2⟩
  | lookRefused tick => exact absurd hlive (State.of_tick_false tick).1
  | lookFound tick attempts ih =>
    exact ⟨trivial, (ih hlive hready ((State.of_tick_true tick).2.2.1 ▸ hsound)).2⟩
  | lookStopped tick attempts final ih =>
    exact ⟨trivial, (ih hlive hready ((State.of_tick_true tick).2.2.1 ▸ hsound)).2⟩
  | lookPassed tick attempts passed ih =>
    exact ⟨trivial, (ih hlive hready ((State.of_tick_true tick).2.2.1 ▸ hsound)).2⟩
  | searchEnd here ih => exact ⟨trivial, (ih hlive hready.1 hsound).2⟩
  | searchDone here ih => exact ⟨trivial, (ih hlive hready.1 hsound).2⟩
  | searchNext here tail ihhere ihtail =>
    have hlive₁ := tail.live hlive
    have hsound₁ := here.sound_of_armed hready.1 hsound (ihhere hlive₁ hready.1 hsound).2
    exact ⟨trivial, (ihtail hlive hready.next hsound₁).2⟩

/-- What is kept stays sound as long as the parse goes on. -/
theorem Run.sound (h : Run c d job p s out s') (hlive : s'.halted = none)
    (hready : job.Ready c p) (hsound : s.memo.Sound c.program c.text c.points) :
    s'.memo.Sound c.program c.text c.points :=
  h.sound_of_armed hready hsound (h.follows hlive hready hsound).2

end Packrat
