import Packrat.Proofs.Strict.Derivation

/-!
# Runs are derivations where no error point lies

A run in a parse that goes on comes to what is derived without recovery, as long as no error point
has a part in it: it may use kept results, but those were derived, and it may be limited, but no
limit was met. So the strict results of a memo are always those of derivations that call nothing
but rules whose results are kept too.
-/

namespace Packrat

/-- What a job is about, unless it is a search. -/
def Job.task? : Job → Option Task
  | .step op => some (.step op)
  | .operation op => some (.step op)
  | .rule number => some (.rule number)
  | .seq members skip _ => some (.seq (members.drop skip))
  | .choice members => some (.choice members)
  | .iterations body least most _ count => some (.iterations body least most count)
  | _ => none

/-- Whether more iterations are left than bytes. -/
def Job.Roomy (c : Setting) (p : Nat) : Job → Prop
  | .iterations _ _ _ left _ => c.text.size + 1 - p ≤ left
  | _ => True

/-- The rules and positions whose results are kept; all of them if none are kept at all. -/
def Setting.Allowed (c : Setting) (m : Memo) (key : MemoKey) : Prop :=
  c.memoize = true → key ∈ m.strict

/-- Whether the strict results of a memo are those of derivations. -/
def Memo.Valid (g : Program) (text : Text) (m : Memo) : Prop :=
  ∀ (key : MemoKey) (e : Entry), m.strict[key]? = some e →
    Derives g text (· ∈ m.strict) (.rule key.1) key.2 e.plain

/-- Whether an answer is derived if no error point has a part in it. -/
def Answer.Derived (c : Setting) (m : Memo) (task : Task) (p : Nat) (a : Answer) : Prop :=
  c.Quiet p a.notes.reach → Derives c.program c.text (c.Allowed m) task p a.plain ∧
    (anyBetween c.points p a.notes.reach = false → a.Exact)

/-- Whether what a job comes to is derived if it is an answer. -/
def Outcome.Derived (c : Setting) (m : Memo) (job : Job) (p : Nat) : Outcome → Prop
  | .answer a => ∀ task, job.task? = some task → job.Roomy c p → a.Derived c m task p
  | _ => True

namespace Answer.Derived

variable {c : Setting} {m m' : Memo} {p : Nat} {a : Answer}

/-- A derivation that calls rules with kept results still does when more are kept. -/
theorem mono {task : Task} (h : a.Derived c m task p)
    (hkeys : ∀ key ∈ m.strict, key ∈ m'.strict) : a.Derived c m' task p := by
  intro hquiet
  obtain ⟨hderives, hexact⟩ := h hquiet
  exact ⟨hderives.mono fun key hkey hmemo => hkeys key (hkey hmemo), hexact⟩

/-- What is derived in two steps, the second one behind the first. -/
theorem behind {t : Taken} {notes : Notes} {task first rest : Task} (hle : p ≤ t.stop)
    (hfirst : Answer.Derived c m first p ⟨some t, notes⟩) (hrest : a.Derived c m rest t.stop)
    (htook : Derives c.program c.text (c.Allowed m) first p ⟨some t, notes.plain⟩ →
      Derives c.program c.text (c.Allowed m) rest t.stop a.plain →
      Derives c.program c.text (c.Allowed m) task p (.behind t notes.plain a.plain)) :
    (Answer.behind t notes a).Derived c m task p := by
  intro hquiet
  simp only [Answer.behind, Notes.join_reach] at hquiet
  obtain ⟨hhead, hexact⟩ := hfirst (hquiet.mono (Nat.le_refl _) (Nat.le_max_left _ _))
  obtain ⟨htail, hexact'⟩ := hrest (hquiet.mono hle (Nat.le_max_right _ _))
  refine ⟨?_, fun hclear => ?_⟩
  · rw [plain_behind]
    exact htook hhead htail
  · simp only [Answer.behind, Notes.join_reach] at hclear
    exact .behind (hexact (Setting.anyBetween_mono hclear (Nat.le_refl _) (Nat.le_max_left _ _)))
      (hexact' (Setting.anyBetween_mono hclear hle (Nat.le_max_right _ _)))

/-- What is derived in two steps, the first one a failure. -/
theorem noting {notes : Notes} {task first rest : Task}
    (hfirst : Answer.Derived c m first p ⟨none, notes⟩) (hrest : a.Derived c m rest p)
    (hnext : Derives c.program c.text (c.Allowed m) first p ⟨none, notes.plain⟩ →
      Derives c.program c.text (c.Allowed m) rest p a.plain →
      Derives c.program c.text (c.Allowed m) task p (.noting notes.plain a.plain)) :
    (Answer.noting notes a).Derived c m task p := by
  intro hquiet
  simp only [Answer.noting, Notes.join_reach] at hquiet
  obtain ⟨hhead, hexact⟩ := hfirst (hquiet.mono (Nat.le_refl _) (Nat.le_max_left _ _))
  obtain ⟨htail, hexact'⟩ := hrest (hquiet.mono (Nat.le_refl _) (Nat.le_max_right _ _))
  refine ⟨?_, fun hclear => ?_⟩
  · rw [plain_noting]
    exact hnext hhead htail
  · simp only [Answer.noting, Notes.join_reach] at hclear
    exact .noting
      (hexact (Setting.anyBetween_mono hclear (Nat.le_refl _) (Nat.le_max_left _ _)))
      (hexact' (Setting.anyBetween_mono hclear (Nat.le_refl _) (Nat.le_max_right _ _)))

/-- What is derived of an answer with the same notes. -/
theorem map {b : Answer} {task task' : Task} (h : a.Derived c m task p)
    (hnotes : b.notes = a.notes)
    (hmap : Derives c.program c.text (c.Allowed m) task p a.plain →
      Derives c.program c.text (c.Allowed m) task' p b.plain) : b.Derived c m task' p := by
  intro hquiet
  rw [hnotes] at hquiet
  obtain ⟨hderives, hexact⟩ := h hquiet
  refine ⟨hmap hderives, fun hclear => ?_⟩
  rw [hnotes] at hclear
  exact (hexact hclear).map (by rw [hnotes]) (by rw [hnotes])

/-- Where an error point lies in the stretch, nothing is asked of an answer. -/
theorem of_not_quiet {task : Task} (h : ¬ c.Quiet p a.notes.reach) : a.Derived c m task p :=
  fun hquiet => absurd hquiet h

end Answer.Derived

/-- Settling drops no strict results. -/
theorem Memo.Valid.settle {g : Program} {text : Text} {m : Memo} (h : m.Valid g text) :
    m.settle.Valid g text := by
  simpa only [Valid, settle_strict] using h

/-- Adding a result that is derived keeps the strict results those of derivations. -/
theorem Memo.Valid.keep {c : Setting} {rule p : Nat} {a : Answer} {s : State}
    (h : s.memo.Valid c.program c.text)
    (ha : s.halted = none → a.Derived c s.memo (.step (c.program.rule rule).body) p) :
    (Packrat.keep c rule p (a.entry p) s).memo.Valid c.program c.text := by
  intro key e he
  rcases getElem?_keep_strict he with hold | ⟨rfl, rfl, hquiet, hmemo, hlive⟩
  · exact (h key e hold).mono fun key hkey => mem_keep_strict hkey
  · rw [plain_entry]
    refine .rule (mem_keep_self hlive hmemo hquiet) ?_
    refine (ha hlive (hquiet.mono (Nat.le_refl _) (Nat.le_max_right _ _))).1.mono fun key hkey => ?_
    exact mem_keep_strict (hkey hmemo)

/-- A run in a parse that goes on comes to what is derived, where no error point lies; every run
keeps the strict results those of derivations. -/
theorem Run.derived {c : Setting} {d : Nat} {job : Job} {p : Nat} {s s' : State} {out : Outcome}
    (h : Run c d job p s out s') (hready : job.Ready c p) (hfits : s.memo.Fits c.text c.points)
    (hvalid : s.memo.Valid c.program c.text) :
    (s'.halted = none → out.Derived c s'.memo job p) ∧ s'.memo.Valid c.program c.text := by
  induction h with
  | refused tick =>
    obtain ⟨hhalted, hkept⟩ := State.of_tick_false tick
    exact ⟨fun hlive => absurd hlive hhalted, hkept ▸ hvalid⟩
  | tooDeep tick =>
    have hkept := (State.of_tick_true tick).2.2.1
    exact ⟨by simp, by simpa only [State.stop_memo, hkept] using hvalid⟩
  | ticked tick rest ih =>
    have hkept := (State.of_tick_true tick).2.2.1
    obtain ⟨ha, hvalid'⟩ := ih hready (hkept ▸ hfits) (hkept ▸ hvalid)
    refine ⟨fun hlive => ?_, hvalid'⟩
    rintro task ⟨⟩ -
    exact ha hlive _ rfl trivial
  | blank =>
    refine ⟨fun _ => ?_, hvalid⟩
    rintro task ⟨⟩ - -
    exact ⟨.blank, fun _ => rfl⟩
  | @token c d terminal kind immediate p s =>
    obtain ⟨e, he⟩ := runToken_state c terminal kind immediate p s
    refine ⟨fun _ => ?_, he ▸ hvalid⟩
    rintro task ⟨⟩ - -
    exact ⟨plain_runToken c terminal kind immediate p s ▸ .token, exact_runToken⟩
  | call rest ih =>
    refine (ih hready hfits hvalid).imp_left fun ha hlive => ?_
    rintro task ⟨⟩ -
    refine (ha hlive _ rfl trivial).map rfl fun hderives => ?_
    rw [plain_called, State.isHalted_eq_false.mpr hlive]
    exact .call hderives
  | members rest ih =>
    refine (ih hready hfits hvalid).imp_left fun ha hlive => ?_
    rintro task ⟨⟩ -
    exact (ha hlive _ rfl trivial).map rfl .members
  | alternatives rest ih =>
    refine (ih hready hfits hvalid).imp_left fun ha hlive => ?_
    rintro task ⟨⟩ -
    exact (ha hlive _ rfl trivial).map rfl .alternatives
  | repetition rest ih =>
    refine (ih hready hfits hvalid).imp_left fun ha hlive => ?_
    rintro task ⟨⟩ -
    exact (ha hlive _ rfl (Nat.le_refl _)).map rfl .repetition
  | wrap rest ih =>
    refine (ih hready hfits hvalid).imp_left fun ha hlive => ?_
    rintro task ⟨⟩ -
    refine (ha hlive _ rfl trivial).map rfl fun hderives => ?_
    rw [plain_wrapped]
    exact .wrap hderives
  | cancelled ask =>
    obtain ⟨hhalted, hkept⟩ := State.of_ask_false ask
    exact ⟨fun hlive => absurd hlive hhalted, hkept ▸ hvalid⟩
  | @hit c d rule p s s₁ entry recovering ask known =>
    have hkept := (State.of_ask_true ask).2.2.1
    rw [← hkept] at hfits hvalid
    refine ⟨fun _ => ?_, hvalid⟩
    rintro task ⟨⟩ - hquiet
    obtain ⟨-, ⟨rfl, hrec, hentry⟩ | ⟨rfl, hentry, -, -⟩⟩ := of_known? known
    · have hpoint := (hfits.recovering _ _ hentry).2
      rw [show anyBetween c.points p entry.reach = false from hquiet hrec] at hpoint
      cases hpoint
    · rw [plain_answer]
      exact ⟨(hvalid _ _ hentry).mono fun key hkey _ => hkey,
        Entry.exact_answer (hfits.strict _ _ hentry).toFits⟩
  | @body c d rule p s s₁ a s₂ ask unknown rest ih =>
    have hkept := (State.of_ask_true ask).2.2.1
    obtain ⟨ha, hvalid₂⟩ := ih hready (hkept ▸ hfits) (hkept ▸ hvalid)
    refine ⟨fun hlive => ?_, hvalid₂.keep fun hlive₂ => ha hlive₂ _ rfl trivial⟩
    have hlive₂ : s₂.halted = none := by simpa using hlive
    rintro task ⟨⟩ - hquiet
    obtain ⟨hderives, hexact⟩ :=
      ha hlive₂ _ rfl trivial (hquiet.mono (Nat.le_refl _) (Nat.le_max_right _ _))
    refine ⟨.rule (fun hmemo => mem_keep_self hlive₂ hmemo hquiet)
      (hderives.mono fun key hkey hmemo => mem_keep_strict (hkey hmemo)), fun hclear => ?_⟩
    have hclear' := Setting.anyBetween_mono hclear (Nat.le_refl _) (Nat.le_max_right _ _)
    exact (hexact hclear').map rfl rfl
  | seqNil =>
    refine ⟨fun _ => ?_, hvalid⟩
    rintro task ⟨⟩ - -
    rw [List.drop_nil]
    exact ⟨.seqNil, fun _ => rfl⟩
  | seqSkip tail ih => exact ih hready hfits hvalid
  | seqTook head tail ihhead ihtail =>
    obtain ⟨hfirst, hfits₁⟩ := head.fits hready hfits
    have htiles := hfirst.tiles _ rfl
    obtain ⟨ha, hvalid₁⟩ := ihhead hready hfits hvalid
    obtain ⟨hrest, hvalid'⟩ := ihtail (Tree.TilesAll.isBoundary hready _ htiles) hfits₁ hvalid₁
    refine ⟨fun hlive => ?_, hvalid'⟩
    rintro task ⟨⟩ -
    exact .behind (Tree.TilesAll.le _ htiles)
      ((ha (tail.live hlive) _ rfl trivial).mono fun _ => tail.mem_strict)
      (hrest hlive _ rfl trivial) .seqTook
  | seqFailed head final ih =>
    refine (ih hready hfits hvalid).imp_left fun ha hlive => ?_
    rintro task ⟨⟩ -
    exact (ha hlive _ rfl trivial).map rfl .seqFailed
  | seqEnded head armed scan ended ihhead ihscan =>
    obtain ⟨hfirst, hfits₁⟩ := head.fits hready hfits
    obtain ⟨-, hvalid₁⟩ := ihhead hready hfits hvalid
    obtain ⟨-, hvalid₂⟩ := ihscan ⟨Setting.isBoundary_trivia_stop _ hready, rfl⟩ hfits₁ hvalid₁
    refine ⟨fun _ task _ _ => .of_not_quiet (hfirst.not_quiet armed (Nat.le_max_left _ _)), ?_⟩
    rwa [State.recordError_memo]
  | @seqResumed c d step rest p s notes s₁ failure result reach s₂ index a s' head armed scan
      resumed tail ihhead ihscan ihtail =>
    obtain ⟨hfirst, hfits₁⟩ := head.fits hready hfits
    have hstart := Setting.isBoundary_trivia_stop c hready
    obtain ⟨hresult, hfits₂⟩ := scan.fits ⟨hstart, rfl⟩ hfits₁
    obtain ⟨-, hvalid₁⟩ := ihhead hready hfits hvalid
    obtain ⟨-, hvalid₂⟩ := ihscan ⟨hstart, rfl⟩ hfits₁ hvalid₁
    have htiles := Setting.resumedTaken_tiles failure.expected hready hresult
    obtain ⟨-, hvalid'⟩ := ihtail (Tree.TilesAll.isBoundary hready _ htiles)
      (by rwa [State.recordError_memo]) (by rwa [State.recordError_memo])
    refine ⟨fun _ task _ _ => .of_not_quiet (hfirst.not_quiet armed ?_), hvalid'⟩
    simp only [Answer.behind, Notes.join_reach]
    omega
  | choiceNil =>
    refine ⟨fun _ => ?_, hvalid⟩
    rintro task ⟨⟩ - -
    exact ⟨.choiceNil, fun _ => rfl⟩
  | choiceTook head ih =>
    refine (ih hready hfits hvalid).imp_left fun ha hlive => ?_
    rintro task ⟨⟩ -
    exact (ha hlive _ rfl trivial).map rfl .choiceTook
  | choiceNext head tail ihhead ihtail =>
    obtain ⟨-, hfits₁⟩ := head.fits hready hfits
    obtain ⟨ha, hvalid₁⟩ := ihhead hready hfits hvalid
    obtain ⟨hrest, hvalid'⟩ := ihtail hready hfits₁ hvalid₁
    refine ⟨fun hlive => ?_, hvalid'⟩
    rintro task ⟨⟩ -
    exact .noting ((ha (tail.live hlive) _ rfl trivial).mono fun _ => tail.mem_strict)
      (hrest hlive _ rfl trivial) .choiceNext
  | exhausted =>
    refine ⟨fun _ task _ hroom => ?_, hvalid⟩
    have hle := Text.le_size_of_isBoundary hready
    simp only [Job.Roomy] at hroom
    omega
  | enough full =>
    refine ⟨fun _ => ?_, hvalid⟩
    rintro task ⟨⟩ - -
    exact ⟨.enough full, fun _ => rfl⟩
  | idleIteration room head still ih =>
    refine (ih hready hfits hvalid).imp_left fun ha hlive => ?_
    rintro task ⟨⟩ -
    exact (ha hlive _ rfl trivial).map rfl fun hderives => .idleIteration room hderives still
  | nextIteration room head moved tail ihhead ihtail =>
    obtain ⟨hfirst, hfits₁⟩ := head.fits hready hfits
    have htiles := hfirst.tiles _ rfl
    have hle := Tree.TilesAll.le _ htiles
    obtain ⟨ha, hvalid₁⟩ := ihhead hready hfits hvalid
    obtain ⟨hrest, hvalid'⟩ := ihtail (Tree.TilesAll.isBoundary hready _ htiles) hfits₁ hvalid₁
    refine ⟨fun hlive => ?_, hvalid'⟩
    rintro task ⟨⟩ hroom
    refine .behind hle ((ha (tail.live hlive) _ rfl trivial).mono fun _ => tail.mem_strict)
      (hrest hlive _ rfl ?_) fun h₁ h₂ => .nextIteration room h₁ moved h₂
    simp only [Job.Roomy] at hroom ⊢
    omega
  | lastIteration room head final ih =>
    refine (ih hready hfits hvalid).imp_left fun ha hlive => ?_
    rintro task ⟨⟩ -
    exact (ha hlive _ rfl trivial).map rfl fun hderives => .lastIteration room hderives
  | lostIteration room head started armed scan ended ihhead ihscan =>
    obtain ⟨hfirst, hfits₁⟩ := head.fits hready hfits
    obtain ⟨-, hvalid₁⟩ := ihhead hready hfits hvalid
    obtain ⟨-, hvalid₂⟩ := ihscan ⟨Setting.isBoundary_trivia_stop _ hready, rfl⟩ hfits₁ hvalid₁
    exact ⟨fun _ task _ _ => .of_not_quiet (hfirst.not_quiet armed (Nat.le_max_left _ _)), hvalid₂⟩
  | @foundIteration c d body least most left count p s notes s₁ failure result reach s₂ t a s' room
      head started armed scan resumed tail ihhead ihscan ihtail =>
    obtain ⟨hfirst, hfits₁⟩ := head.fits hready hfits
    have hstart := Setting.isBoundary_trivia_stop c hready
    obtain ⟨hresult, hfits₂⟩ := scan.fits ⟨hstart, rfl⟩ hfits₁
    obtain ⟨-, hvalid₁⟩ := ihhead hready hfits hvalid
    obtain ⟨-, hvalid₂⟩ := ihscan ⟨hstart, rfl⟩ hfits₁ hvalid₁
    have htiles := Setting.resumedIteration?_tiles failure.expected hready hresult resumed
    obtain ⟨-, hvalid'⟩ := ihtail (Tree.TilesAll.isBoundary hready _ htiles)
      (by rwa [State.recordError_memo]) (by rwa [State.recordError_memo])
    refine ⟨fun _ task _ _ => .of_not_quiet (hfirst.not_quiet armed ?_), hvalid'⟩
    simp only [Answer.behind, Notes.join_reach]
    omega
  | trialNil => exact ⟨fun _ => trivial, hvalid⟩
  | trialFound head past ih => exact ⟨fun _ => trivial, (ih hready hfits hvalid).2⟩
  | trialNext head short tail ihhead ihtail =>
    obtain ⟨-, hfits₁⟩ := head.fits hready hfits
    obtain ⟨-, hvalid₁⟩ := ihhead hready hfits hvalid
    exact ⟨fun _ => trivial, (ihtail hready hfits₁ hvalid₁).2⟩
  | lookRefused tick => exact ⟨fun _ => trivial, (State.of_tick_false tick).2 ▸ hvalid⟩
  | lookFound tick attempts ih =>
    have hkept := (State.of_tick_true tick).2.2.1
    exact ⟨fun _ => trivial, (ih hready (hkept ▸ hfits) (hkept ▸ hvalid)).2⟩
  | lookStopped tick attempts final ih =>
    have hkept := (State.of_tick_true tick).2.2.1
    exact ⟨fun _ => trivial, (ih hready (hkept ▸ hfits) (hkept ▸ hvalid)).2⟩
  | lookPassed tick attempts passed ih =>
    have hkept := (State.of_tick_true tick).2.2.1
    exact ⟨fun _ => trivial, (ih hready (hkept ▸ hfits) (hkept ▸ hvalid)).2⟩
  | searchEnd here ih => exact ⟨fun _ => trivial, (ih hready.1 hfits hvalid).2⟩
  | searchDone here ih => exact ⟨fun _ => trivial, (ih hready.1 hfits hvalid).2⟩
  | searchNext here tail ihhere ihtail =>
    obtain ⟨-, hfits₁⟩ := here.fits hready.1 hfits
    obtain ⟨-, hvalid₁⟩ := ihhere hready.1 hfits hvalid
    exact ⟨fun _ => trivial, (ihtail (hready.next) hfits₁ hvalid₁).2⟩

end Packrat
