import Packrat.Proofs.Parse.Depth
import Packrat.Proofs.Strict.Completeness
import Packrat.Proofs.Terminal.Bytes

/-!
# How far and how deep derivations go

Nothing that is derived has looked further than one byte behind the end of the text. And what is
derived is come to: there is a depth of nesting with which every run of it without recovery goes on
to its end, if nothing else limits the parse, whatever results are kept.
-/

namespace Packrat

section

variable {g : Program} {text : Text} {p : Nat}

/-- The search for an extra looks no further than one byte behind the text. -/
theorem firstExtra_reach_le (hp : text.isBoundary p = true) (extras : List (Nat × Nat)) :
    ((g.plain text).firstExtra p extras).2 ≤ text.size + 1 := by
  induction extras with
  | nil => exact Nat.zero_le _
  | cons extra rest ih =>
    have hscan : p + ((g.terminal extra.1).scanAt text p).reach ≤ text.size + 1 :=
      Terminal.reach_scanAt_le hp
    simp only [Setting.firstExtra, Program.plain_program, Program.plain_text]
    split
    · exact hscan
    · exact Nat.max_le.mpr ⟨hscan, ih⟩

/-- Extras one after another look no further than one byte behind the text. -/
theorem extraPieces_reach_le (hp : text.isBoundary p = true) (count : Nat) :
    ((g.plain text).extraPieces count p).2 ≤ text.size + 1 := by
  induction count generalizing p with
  | zero => exact Nat.zero_le _
  | succ count ih =>
    have hfirst := firstExtra_reach_le (g := g) hp g.extras
    rw [Setting.extraPieces, Program.plain_program]
    rcases hfound : (g.plain text).firstExtra p g.extras with ⟨_ | piece, reach⟩
    · rw [hfound] at hfirst
      exact hfirst
    · obtain ⟨-, -, -, hstop, -⟩ := (g.plain text).firstExtra_eq_some (by rw [hfound])
      rw [hfound] at hfirst
      exact Nat.max_le.mpr ⟨hfirst, ih hstop⟩

/-- A terminal, with the trivia before it, looks no further than one byte behind the text. -/
theorem tokenAnswer_reach_le (hp : text.isBoundary p = true) (terminal kind : Nat)
    (immediate : Bool) :
    (g.tokenAnswer text terminal kind immediate p).notes.reach ≤ text.size + 1 := by
  obtain ⟨trivia, htrivia⟩ : ∃ trivia, trivia =
      if immediate then (⟨[], p, 0⟩ : Trivia) else (g.plain text).trivia p := ⟨_, rfl⟩
  have hbounds : trivia.reach ≤ text.size + 1 ∧ text.isBoundary trivia.stop = true := by
    rw [htrivia]
    split
    · exact ⟨Nat.zero_le _, hp⟩
    · exact ⟨extraPieces_reach_le hp _, (g.plain text).isBoundary_trivia_stop hp⟩
  have hscan : trivia.stop + ((g.terminal terminal).scanAt text trivia.stop).reach ≤
      text.size + 1 := Terminal.reach_scanAt_le hbounds.2
  have hreach : (g.tokenAnswer text terminal kind immediate p).notes.reach =
      max trivia.reach (trivia.stop + ((g.terminal terminal).scanAt text trivia.stop).reach) := by
    simp only [Program.tokenAnswer, ← htrivia]
    cases ((g.terminal terminal).scanAt text trivia.stop).length <;> rfl
  rw [hreach]
  exact Nat.max_le.mpr ⟨hbounds.1, hscan⟩

/-- Nothing that is derived has looked further than one byte behind the end of the text. -/
theorem Derives.reach_le {allowed : MemoKey → Prop} {task : Task} {a : Answer}
    (h : Derives g text allowed task p a) (hp : text.isBoundary p = true) :
    a.notes.reach ≤ text.size + 1 := by
  induction h with
  | blank => exact Nat.zero_le _
  | token => exact tokenAnswer_reach_le hp _ _ _
  | call _ ih => exact ih hp
  | members _ ih => exact ih hp
  | alternatives _ ih => exact ih hp
  | repetition _ ih => exact ih hp
  | wrap _ ih => exact ih hp
  | rule _ _ ih =>
    have hle := Text.le_size_of_isBoundary hp
    exact Nat.max_le.mpr ⟨Nat.le_succ_of_le hle, ih hp⟩
  | seqNil => exact Nat.zero_le _
  | seqTook head _ ihhead ihtail =>
    obtain ⟨-, -, hboundary⟩ := head.stop_bounds hp
    exact Nat.max_le.mpr ⟨ihhead hp, ihtail hboundary⟩
  | seqFailed _ ih => exact ih hp
  | choiceNil => exact Nat.zero_le _
  | choiceTook _ ih => exact ih hp
  | choiceNext _ _ ihhead ihtail => exact Nat.max_le.mpr ⟨ihhead hp, ihtail hp⟩
  | enough => exact Nat.zero_le _
  | idleIteration _ _ _ ih => exact ih hp
  | nextIteration _ head _ _ ihhead ihtail =>
    obtain ⟨-, -, hboundary⟩ := head.stop_bounds hp
    exact Nat.max_le.mpr ⟨ihhead hp, ihtail hboundary⟩
  | lastIteration _ _ ih => exact ih hp

end

/-- What is run for a task. -/
def Task.job (isFirst : Bool) (left : Nat) : Task → Job
  | .step op => .step op
  | .rule number => .rule number
  | .seq members => .seq members 0 isFirst
  | .choice members => .choice members
  | .iterations body least most count => .iterations body least most left count

section

variable {c : Setting} {d p : Nat} {s s' : State} {out : Outcome}

/-- An operation for which there is room and fuel is run. -/
theorem Run.of_step {op : Step} (h : Run c d (.step op) p s out s') (hd : 0 < d)
    (hs : s.Unlimited) : ∃ (d' : Nat) (s₁ : State) (a : Answer), d = d' + 1 ∧ s₁.Unlimited ∧
      s₁.memo = s.memo ∧ Run c d' (.operation op) p s₁ (.answer a) s' := by
  cases h with
  | refused tick => cases (hs.tick tick).1
  | tooDeep => exact absurd hd (Nat.lt_irrefl 0)
  | ticked tick rest =>
    exact ⟨_, _, _, rfl, (hs.tick tick).2, (State.of_tick_true tick).2.2.1, rest⟩

/-- Without recovery a sequence runs its first member, and goes on behind it if that succeeds. -/
theorem Run.of_seq {step : Step} {rest : List Step} {isFirst : Bool}
    (h : Run c d (.seq (step :: rest) 0 isFirst) p s out s') (hstrict : c.recovering = false) :
    ∃ a s₁, Run c d (.step step) p s (.answer a) s₁ ∧ (a.taken = none → s' = s₁) ∧
      ∀ t, a.taken = some t → ∃ a', Run c d (.seq rest 0 false) t.stop s₁ (.answer a') s' := by
  cases h with
  | seqTook head tail =>
    refine ⟨_, _, head, nofun, fun t ht => ?_⟩
    cases ht
    exact ⟨_, tail⟩
  | seqFailed head => exact ⟨_, _, head, fun _ => rfl, nofun⟩
  | seqEnded _ armed => exact absurd armed (Setting.recoverable?_ne_some hstrict)
  | seqResumed _ armed => exact absurd armed (Setting.recoverable?_ne_some hstrict)

/-- A choice runs its first member, and goes on with the others if that fails. -/
theorem Run.of_choice {step : Step} {rest : List Step}
    (h : Run c d (.choice (step :: rest)) p s out s') :
    ∃ a s₁, Run c d (.step step) p s (.answer a) s₁ ∧ (a.taken.isSome → s' = s₁) ∧
      (a.taken = none →
        ∃ a', Run c d (.choice rest) p (s₁.record (.backtrack p)) (.answer a') s') := by
  cases h with
  | choiceTook head => exact ⟨_, _, head, fun _ => rfl, nofun⟩
  | choiceNext head tail => exact ⟨_, _, head, nofun, fun _ => ⟨_, tail⟩⟩

/-- Without recovery a repetition has come to its end, or runs its body and goes on behind it if
that takes something. -/
theorem Run.of_iterations {body : Step} {least : Nat} {most : Option Nat} {left count : Nat}
    (h : Run c d (.iterations body least most left count) p s out s')
    (hstrict : c.recovering = false) :
    s' = s ∨ most.any (· ≤ count) = false ∧ ∃ a s₁, Run c d (.step body) p s (.answer a) s₁ ∧
      ((∀ t, a.taken = some t → t.stop = p) → s' = s₁) ∧
      ∀ t, a.taken = some t → t.stop ≠ p → ∃ left' a',
        Run c d (.iterations body least most left' (count + 1)) t.stop s₁ (.answer a') s' := by
  cases h with
  | exhausted => exact .inl rfl
  | enough => exact .inl rfl
  | idleIteration room head still =>
    refine .inr ⟨room, _, _, head, fun _ => rfl, fun t ht hmoved => ?_⟩
    cases ht
    exact absurd still hmoved
  | nextIteration room head moved tail =>
    refine .inr ⟨room, _, _, head, fun hstill => absurd (hstill _ rfl) moved, fun t ht _ => ?_⟩
    cases ht
    exact ⟨_, _, tail⟩
  | lastIteration room head => exact .inr ⟨room, _, _, head, fun _ => rfl, nofun⟩
  | lostIteration _ _ _ armed => exact absurd armed (Setting.recoverable?_ne_some hstrict)
  | foundIteration _ _ _ armed => exact absurd armed (Setting.recoverable?_ne_some hstrict)

end

/-- Whether a program is run on a text without recovery, in a parse that nothing but the depth of
nesting limits. -/
structure Unhindered (g : Program) (text : Text) (c : Setting) (s : State) : Prop where
  program : c.program = g
  text_eq : c.text = text
  strict : c.recovering = false
  unlimited : s.Unlimited
  sound : s.memo.Sound g text c.points

namespace Unhindered

variable {g : Program} {text : Text} {p : Nat} {c : Setting} {d : Nat} {s s' : State}

/-- Nothing hinders what comes behind an operation that does not stop the parse. -/
theorem after {op : Step} {out : Outcome} (h : Unhindered g text c s)
    (hrun : Run c d (.step op) p s out s') (hp : text.isBoundary p = true) (hs' : s'.Unlimited) :
    Unhindered g text c s' := by
  obtain ⟨rfl, rfl, hstrict, -, hsound⟩ := h
  exact ⟨rfl, rfl, hstrict, hs', hrun.sound hs'.live hp hsound⟩

/-- A run of an operation comes to what is derived. -/
theorem plain_eq {allowed : MemoKey → Prop} {op : Step} {a a₀ : Answer}
    (h : Unhindered g text c s) (hrun : Run c d (.step op) p s (.answer a) s')
    (hp : text.isBoundary p = true) (hs' : s'.Unlimited)
    (hderives : Derives g text allowed (.step op) p a₀) : a.plain = a₀ := by
  obtain ⟨rfl, rfl, hstrict, -, hsound⟩ := h
  have hfollows := (hrun.follows hs'.live hp hsound).1 _ rfl trivial allowed a₀ hderives
    (Setting.quiet_of_strict hstrict)
  exact hfollows.1

end Unhindered

/-- Whether no run of a task that nothing but nesting limits stops the parse, with so much room. -/
def Task.EndsIn (g : Program) (text : Text) (task : Task) (p depth : Nat) : Prop :=
  ∀ (isFirst : Bool) (left : Nat) (c : Setting) (d : Nat) (s s' : State) (out : Outcome),
    Unhindered g text c s → depth ≤ d → Run c d (task.job isFirst left) p s out s' → s'.Unlimited

section

variable {g : Program} {text : Text} {p : Nat}

/-- An operation that is run as one other task needs room for itself and for that task. -/
theorem Task.EndsIn.step {op : Step} {depth : Nat} {sub : Task} (h : sub.EndsIn g text p depth)
    (hsub : ∀ c d s a s', Run c d (.operation op) p s (.answer a) s' →
      ∃ isFirst left out, Run c d (sub.job isFirst left) p s out s') :
    (Task.step op).EndsIn g text p (depth + 1) := by
  intro _ _ c d s s' out hfree hd hrun
  obtain ⟨d, s₁, a, rfl, hs₁, hmemo, hoperation⟩ := Run.of_step hrun (by omega) hfree.unlimited
  obtain ⟨isFirst, left, out, hrest⟩ := hsub c d s₁ a s' hoperation
  have hfree₁ : Unhindered g text c s₁ :=
    { hfree with unlimited := hs₁, sound := hmemo ▸ hfree.sound }
  exact h isFirst left c d s₁ s' out hfree₁ (Nat.le_of_succ_le_succ hd) hrest

/-- What is derived is come to, with enough room for nesting. -/
theorem Derives.exists_endsIn {allowed : MemoKey → Prop} {task : Task} {a : Answer}
    (h : Derives g text allowed task p a) (hp : text.isBoundary p = true) :
    ∃ depth, task.EndsIn g text p depth := by
  induction h with
  | blank =>
    refine ⟨1, ?_⟩
    intro _ _ c d s s' out hfree hd hrun
    obtain ⟨d, s₁, a, rfl, hs₁, -, hoperation⟩ := Run.of_step hrun hd hfree.unlimited
    cases hoperation
    exact hs₁
  | token =>
    refine ⟨1, ?_⟩
    intro _ _ c d s s' out hfree hd hrun
    obtain ⟨d, s₁, a, rfl, hs₁, -, hoperation⟩ := Run.of_step hrun hd hfree.unlimited
    cases hoperation
    obtain ⟨e, he⟩ := runToken_state _ _ _ _ _ _
    exact he ▸ hs₁.record e
  | call _ ih =>
    obtain ⟨depth, hends⟩ := ih hp
    refine ⟨depth + 1, hends.step fun c d s a s' hrun => ?_⟩
    cases hrun with | call rest => exact ⟨true, 0, _, rest⟩
  | members _ ih =>
    obtain ⟨depth, hends⟩ := ih hp
    refine ⟨depth + 1, hends.step fun c d s a s' hrun => ?_⟩
    cases hrun with | members rest => exact ⟨true, 0, _, rest⟩
  | alternatives _ ih =>
    obtain ⟨depth, hends⟩ := ih hp
    refine ⟨depth + 1, hends.step fun c d s a s' hrun => ?_⟩
    cases hrun with | alternatives rest => exact ⟨true, 0, _, rest⟩
  | repetition _ ih =>
    obtain ⟨depth, hends⟩ := ih hp
    refine ⟨depth + 1, hends.step fun c d s a s' hrun => ?_⟩
    cases hrun with | repetition rest => exact ⟨true, _, _, rest⟩
  | wrap _ ih =>
    obtain ⟨depth, hends⟩ := ih hp
    refine ⟨depth + 1, hends.step fun c d s a s' hrun => ?_⟩
    cases hrun with | wrap rest => exact ⟨true, 0, _, rest⟩
  | @rule rule p _ known body ih =>
    obtain ⟨depth, hends⟩ := ih hp
    refine ⟨depth, ?_⟩
    intro _ _ c d s s' out hfree hd hrun
    have hs := hfree.unlimited
    cases hrun with
    | cancelled ask => cases (hs.ask ask).1
    | hit ask known => exact (hs.ask ask).2.record _
    | @body _ _ _ _ _ s₁ a s₂ ask unknown rest =>
      have hmemo := (State.of_ask_true ask).2.2.1
      rw [hfree.program] at rest
      have hfree₁ : Unhindered g text c (s₁.record (.call rule p)) :=
        { hfree with unlimited := (hs.ask ask).2.record _, sound := hmemo ▸ hfree.sound }
      have hs₂ := hends true 0 c d _ s₂ _ hfree₁ hd rest
      exact (hs₂.keep _ _ _ _).record _
  | seqNil =>
    refine ⟨0, ?_⟩
    intro _ _ c d s s' out hfree _ hrun
    cases hrun
    exact hfree.unlimited
  | seqTook head tail ihhead ihtail =>
    obtain ⟨-, -, hboundary⟩ := head.stop_bounds hp
    obtain ⟨depth, hends⟩ := ihhead hp
    obtain ⟨depth', hends'⟩ := ihtail hboundary
    refine ⟨max depth depth', ?_⟩
    intro _ _ c d s s' out hfree hd hrun
    obtain ⟨a, s₁, hhead, -, htail⟩ := Run.of_seq hrun hfree.strict
    have hs₁ := hends true 0 c d s s₁ _ hfree (by omega) hhead
    have hfree₁ := hfree.after hhead hp hs₁
    obtain ⟨a', hrest⟩ := htail _ (congrArg (·.taken) (hfree.plain_eq hhead hp hs₁ head))
    exact hends' false 0 c d s₁ s' _ hfree₁ (by omega) hrest
  | seqFailed head ih =>
    obtain ⟨depth, hends⟩ := ih hp
    refine ⟨depth, ?_⟩
    intro _ _ c d s s' out hfree hd hrun
    obtain ⟨a, s₁, hhead, hfailed, -⟩ := Run.of_seq hrun hfree.strict
    have hs₁ := hends true 0 c d s s₁ _ hfree hd hhead
    rwa [hfailed (congrArg (·.taken) (hfree.plain_eq hhead hp hs₁ head))]
  | choiceNil =>
    refine ⟨0, ?_⟩
    intro _ _ c d s s' out hfree _ hrun
    cases hrun
    exact hfree.unlimited
  | choiceTook head ih =>
    obtain ⟨depth, hends⟩ := ih hp
    refine ⟨depth, ?_⟩
    intro _ _ c d s s' out hfree hd hrun
    obtain ⟨a, s₁, hhead, htook, -⟩ := Run.of_choice hrun
    have hs₁ := hends true 0 c d s s₁ _ hfree hd hhead
    have htaken : a.taken = _ := congrArg (·.taken) (hfree.plain_eq hhead hp hs₁ head)
    rwa [htook (by rw [htaken]; rfl)]
  | choiceNext head tail ihhead ihtail =>
    obtain ⟨depth, hends⟩ := ihhead hp
    obtain ⟨depth', hends'⟩ := ihtail hp
    refine ⟨max depth depth', ?_⟩
    intro _ _ c d s s' out hfree hd hrun
    obtain ⟨a, s₁, hhead, -, hnext⟩ := Run.of_choice hrun
    have hs₁ := hends true 0 c d s s₁ _ hfree (by omega) hhead
    have hfree₁ := hfree.after hhead hp hs₁
    obtain ⟨a', hrest⟩ := hnext (congrArg (·.taken) (hfree.plain_eq hhead hp hs₁ head))
    exact hends' true 0 c d _ s' _ { hfree₁ with unlimited := hs₁.record _ } (by omega) hrest
  | enough full =>
    refine ⟨0, ?_⟩
    intro _ _ c d s s' out hfree _ hrun
    rcases Run.of_iterations hrun hfree.strict with hsame | ⟨room, -⟩
    · rw [hsame]
      exact hfree.unlimited
    · rw [full] at room
      cases room
  | idleIteration _ head still ih =>
    obtain ⟨depth, hends⟩ := ih hp
    refine ⟨depth, ?_⟩
    intro _ _ c d s s' out hfree hd hrun
    rcases Run.of_iterations hrun hfree.strict with hsame | ⟨-, a, s₁, hhead, hended, -⟩
    · rw [hsame]
      exact hfree.unlimited
    · have hs₁ := hends true 0 c d s s₁ _ hfree hd hhead
      have htaken : a.taken = _ := congrArg (·.taken) (hfree.plain_eq hhead hp hs₁ head)
      rw [hended]
      · exact hs₁
      · intro t ht
        cases htaken.symm.trans ht
        exact still
  | nextIteration _ head moved tail ihhead ihtail =>
    obtain ⟨-, -, hboundary⟩ := head.stop_bounds hp
    obtain ⟨depth, hends⟩ := ihhead hp
    obtain ⟨depth', hends'⟩ := ihtail hboundary
    refine ⟨max depth depth', ?_⟩
    intro _ _ c d s s' out hfree hd hrun
    rcases Run.of_iterations hrun hfree.strict with hsame | ⟨-, a, s₁, hhead, -, hnext⟩
    · rw [hsame]
      exact hfree.unlimited
    · have hs₁ := hends true 0 c d s s₁ _ hfree (by omega) hhead
      have hfree₁ := hfree.after hhead hp hs₁
      have htaken := congrArg (·.taken) (hfree.plain_eq hhead hp hs₁ head)
      obtain ⟨left', a', hrest⟩ := hnext _ htaken moved
      exact hends' true left' c d s₁ s' _ hfree₁ (by omega) hrest
  | lastIteration _ head ih =>
    obtain ⟨depth, hends⟩ := ih hp
    refine ⟨depth, ?_⟩
    intro _ _ c d s s' out hfree hd hrun
    rcases Run.of_iterations hrun hfree.strict with hsame | ⟨-, a, s₁, hhead, hended, -⟩
    · rw [hsame]
      exact hfree.unlimited
    · have hs₁ := hends true 0 c d s s₁ _ hfree hd hhead
      have htaken : a.taken = none := congrArg (·.taken) (hfree.plain_eq hhead hp hs₁ head)
      rw [hended]
      · exact hs₁
      · intro t ht
        rw [htaken] at ht
        cases ht

end

end Packrat
