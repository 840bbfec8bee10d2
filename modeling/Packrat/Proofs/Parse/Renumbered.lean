import Packrat.Proofs.Parse.Memo
import Packrat.Proofs.Parse.Rounds
import Packrat.Proofs.Program.Renumbered

/-!
# Parses under other numbers

Where a program is embedded in another one, a run of either goes the same way as that of the other:
every look-up of a rule, of a terminal or of a kept result finds the same under the other number.
`Run.renumbered` is the induction; limits, stops and recovery are no exception to it. So a parse has
the same errors and stops for the same reason, and its tree is the same up to the numbers of kinds.
-/

namespace Packrat

variable {m : Renumbering} {p : Program} {c : Setting} {s s' t : State}

/-- Whether some results are those of others under other numbers. -/
def Results.Renumbered (m : Renumbering) (r r' : Results) : Prop :=
  ∀ rule position : Nat, r'[(m.rule rule, position)]? =
    r[(rule, position)]?.map (Entry.renumber m.kind)

/-- Whether a state is another one with what is kept under other numbers, but for the log. -/
structure State.Renumbered (m : Renumbering) (s t : State) : Prop where
  fuel : t.fuel = s.fuel
  patience : t.patience = s.patience
  halted : t.halted = s.halted
  strict : s.memo.strict.Renumbered m t.memo.strict
  recovering : s.memo.recovering.Renumbered m t.memo.recovering

namespace Results.Renumbered

variable {r r' : Results}

/-- Where nothing is kept, nothing is kept under other numbers. -/
theorem empty (m : Renumbering) : Results.Renumbered m {} {} := by
  intro rule position
  simp

/-- A result that is kept on both sides is found under the other number again, as no two rules have
the same one. -/
theorem insert (h : r.Renumbered m r') (hrules : Function.Injective m.rule) (rule position : Nat)
    (entry : Entry) : Results.Renumbered m (Std.HashMap.insert r (rule, position) entry)
      (Std.HashMap.insert r' (m.rule rule, position) (entry.renumber m.kind)) := by
  intro rule' position'
  rw [Std.HashMap.getElem?_insert, Std.HashMap.getElem?_insert, h]
  have hkey : ((m.rule rule, position) == (m.rule rule', position')) =
      ((rule, position) == (rule', position')) := by
    rw [Bool.eq_iff_iff, beq_iff_eq, beq_iff_eq, Prod.mk.injEq, Prod.mk.injEq, hrules.eq_iff]
  rw [hkey]
  split <;> rfl

end Results.Renumbered

namespace State.Renumbered

/-- Events go to the log on either side and change nothing else. -/
theorem record (h : s.Renumbered m t) (e e' : Event) : (s.record e).Renumbered m (t.record e') :=
  ⟨h.fuel, h.patience, h.halted, h.strict, h.recovering⟩

/-- Errors are noted on both sides alike. -/
theorem recordError (h : s.Renumbered m t) (e : Option (Nat × Nat)) :
    (s.recordError e).Renumbered m (t.recordError e) := by
  cases e with
  | none => exact h
  | some e => exact h.record _ _

/-- Both parses stop for the same reason. -/
theorem stop (h : s.Renumbered m t) (reason : Halt) :
    (s.stop reason).Renumbered m (t.stop reason) :=
  ⟨h.fuel, h.patience, rfl, h.strict, h.recovering⟩

/-- Both tables drop the same results. -/
theorem settle (h : s.Renumbered m t) : s.settle.Renumbered m t.settle :=
  ⟨h.fuel, h.patience, h.halted, h.strict, .empty m⟩

/-- One parse has stopped just when the other has. -/
theorem isHalted (h : s.Renumbered m t) : t.isHalted = s.isHalted := by
  rw [State.isHalted, State.isHalted, h.halted]

/-- A step of fuel is granted to both or to neither. -/
theorem tick {granted : Bool} (h : s.Renumbered m t) (htick : s.tick = (granted, s')) :
    ∃ t', t.tick = (granted, t') ∧ s'.Renumbered m t' := by
  obtain ⟨hfuel, hpatience, hhalted, hstrict, hrecovering⟩ := h
  rcases s with ⟨memo, fuel, patience, halted, log⟩
  rcases t with ⟨memo', fuel', patience', halted', log'⟩
  cases hfuel
  cases hpatience
  cases hhalted
  rcases halted with _ | reason
  · rcases fuel with _ | _ | n <;> cases htick <;>
      exact ⟨_, rfl, rfl, rfl, rfl, hstrict, hrecovering⟩
  · cases htick
    exact ⟨_, rfl, rfl, rfl, rfl, hstrict, hrecovering⟩

/-- A try is granted to both or to neither. -/
theorem ask {granted : Bool} (h : s.Renumbered m t) (hask : s.ask = (granted, s')) :
    ∃ t', t.ask = (granted, t') ∧ s'.Renumbered m t' := by
  obtain ⟨hfuel, hpatience, hhalted, hstrict, hrecovering⟩ := h
  rcases s with ⟨memo, fuel, patience, halted, log⟩
  rcases t with ⟨memo', fuel', patience', halted', log'⟩
  cases hfuel
  cases hpatience
  cases hhalted
  rcases halted with _ | reason
  · rcases patience with _ | _ | n <;> cases hask <;>
      exact ⟨_, rfl, rfl, rfl, rfl, hstrict, hrecovering⟩
  · cases hask
    exact ⟨_, rfl, rfl, rfl, rfl, hstrict, hrecovering⟩

/-- A kept result is found under the other number of its rule. -/
theorem known? (h : s.Renumbered m t) (c : Setting) (p : Program) (rule position : Nat) :
    Packrat.known? (c.via p) (m.rule rule) position t =
      (Packrat.known? c rule position s).map fun e => (e.1.renumber m.kind, e.2) := by
  have hclear : t.memo.findClear? c.points (m.rule rule, position) =
      (s.memo.findClear? c.points (rule, position)).map (Entry.renumber m.kind) := by
    simp only [Memo.findClear?, h.strict rule position, Option.filter_map]
    rfl
  have hfind : t.memo.find? c.recovering c.points (m.rule rule, position) =
      (s.memo.find? c.recovering c.points (rule, position)).map
        fun e => (e.1.renumber m.kind, e.2) := by
    simp only [Memo.find?, h.strict rule position, h.recovering rule position, hclear]
    cases c.recovering with
    | true =>
      simp only [if_true]
      cases s.memo.recovering[(rule, position)]? with
      | some entry => rfl
      | none => simp only [Option.map_none, Option.map_map, Function.comp_def]
    | false => simp only [Bool.false_eq_true, if_false, Option.map_map, Function.comp_def]
  simp only [Packrat.known?, Setting.via, hfind]
  split <;> rfl

/-- A result is kept on both sides or on neither. -/
theorem keep (h : s.Renumbered m t) (hrules : Function.Injective m.rule) (c : Setting) (p : Program)
    (rule position : Nat) (entry : Entry) : (keep c rule position entry s).Renumbered m
      (Packrat.keep (c.via p) (m.rule rule) position (entry.renumber m.kind) t) := by
  have hmemo : ∀ u : State, (Packrat.keep (c.via p) (m.rule rule) position
      (entry.renumber m.kind) u).memo = if c.memoize = true ∧ u.halted = none then
        u.memo.insert (c.recovering && anyBetween c.points position entry.reach)
          (m.rule rule, position) (entry.renumber m.kind)
      else u.memo := fun _ => keep_memo
  constructor
  · rw [keep_fuel, keep_fuel, h.fuel]
  · rw [keep_patience, keep_patience, h.patience]
  · rw [keep_halted, keep_halted, h.halted]
  · rw [hmemo, keep_memo, h.halted]
    split
    · rw [Memo.insert_strict, Memo.insert_strict]
      split
      · exact h.strict
      · exact h.strict.insert hrules rule position entry
    · exact h.strict
  · rw [hmemo, keep_memo, h.halted]
    split
    · rw [Memo.insert_recovering, Memo.insert_recovering]
      split
      · exact h.recovering.insert hrules rule position entry
      · exact h.recovering
    · exact h.recovering

end State.Renumbered

/-! ### What is done with answers -/

/-- A result that is used again gives the same answer under other numbers. -/
theorem Entry.answer_renumber (c : Setting) (p : Program) (entry : Entry) (recovering : Bool) :
    (entry.renumber m.kind).answer (c.via p) recovering =
      (entry.answer c recovering).renumber m.kind := by
  simp only [answer, renumber, Answer.renumber, Notes.renumber, Option.map_map]
  rfl

/-- Recovery can be switched off before or after the program is exchanged. -/
theorem Setting.strict_via (c : Setting) (p : Program) : c.strict.via p = (c.via p).strict := rfl

/-- The same failures are recovered from. -/
theorem Setting.recoverable?_via (c : Setting) (p : Program) (notes : Notes) :
    (c.via p).recoverable? (notes.renumber m.kind) =
      (c.recoverable? notes).map (Failure.renumber m.kind) := by
  simp only [recoverable?, Notes.renumber, via, Option.filter_map]
  split <;> rfl

namespace Program.Embeds

variable (hp : c.program.Embeds p m)

include hp

/-- A token matches the same under other numbers. -/
theorem runToken_eq (terminal kind : Nat) (immediate : Bool) (position : Nat) (s t : State) :
    (runToken (c.via p) (m.terminal terminal) (m.kind kind) immediate position t).1 =
      (runToken c terminal kind immediate position s).1.renumber m.kind := by
  obtain ⟨trivia, htrivia⟩ : ∃ trivia, trivia =
      if immediate then (⟨[], position, 0⟩ : Trivia) else c.trivia position := ⟨_, rfl⟩
  have hvia : (if immediate then (⟨[], position, 0⟩ : Trivia) else (c.via p).trivia position) =
      ⟨trivia.leaves.map (Tree.renumber m.kind), trivia.stop, trivia.reach⟩ := by
    rw [htrivia]
    split
    · rfl
    · rw [← hp.trivia_leaves, ← hp.trivia_stop, ← hp.trivia_reach]
  have hscan : ((c.via p).program.terminal (m.terminal terminal)).scanAt (c.via p).text
      trivia.stop = (c.program.terminal terminal).scanAt c.text trivia.stop :=
    congrArg (·.scanAt c.text trivia.stop) (hp.terminal terminal)
  simp only [runToken, ← htrivia, hvia, hscan]
  cases ((c.program.terminal terminal).scanAt c.text trivia.stop).length with
  | none => rfl
  | some n =>
    simp only [Answer.renumber, Option.map_some, Taken.renumber, List.map_append]
    split <;> rfl

/-- A call makes the same node, or none, under other numbers. -/
theorem called_eq (rule : Nat) (renamed : Option Nat) (halted : Bool) (a : Answer) :
    (a.renumber m.kind).called (c.via p) (m.rule rule) (renamed.map m.kind) halted =
      (a.called c rule renamed halted).renumber m.kind := by
  have hkind : (renamed.map m.kind).getD ((c.via p).program.rule (m.rule rule)).kind =
      m.kind (renamed.getD (c.program.rule rule).kind) := by
    rw [show ((c.via p).program.rule (m.rule rule)).kind = m.kind (c.program.rule rule).kind from
      hp.ruleKind rule, Option.getD_map]
  have hhidden : ((c.via p).program.rule (m.rule rule)).hidden = (c.program.rule rule).hidden :=
    hp.hidden rule
  simp only [Answer.called, Answer.renumber, Option.map_map, hkind, hhidden, Option.isNone_map]
  congr 2
  funext t
  simp only [Function.comp_apply, Taken.renumber, List.isEmpty_map, hp.close_renumber]
  split <;> rfl

/-- A name for a part makes the same node under other numbers. -/
theorem wrapped_eq (kind : Nat) (a : Answer) : (a.renumber m.kind).wrapped (c.via p) (m.kind kind) =
    (a.wrapped c kind).renumber m.kind := by
  simp only [Answer.wrapped, Answer.renumber, Option.map_map, Function.comp_def, Taken.renumber,
    hp.close_renumber]

/-- The same tokens stop a search. -/
theorem stopsAt_eq (h : s.Renumbered m t) (position : Nat) :
    (c.via p).stopsAt position t = c.stopsAt position s := by
  have hmatches : ∀ ts : List Nat,
      (c.via p).matchesAny position (ts.map m.terminal) = c.matchesAny position ts := by
    intro ts
    induction ts with
    | nil => rfl
    | cons u ts ih =>
      have hterminal : (c.via p).program.terminal (m.terminal u) = c.program.terminal u :=
        hp.terminal u
      simp only [List.map_cons, Setting.matchesAny, hterminal, ih]
      rfl
  have hsync : (c.via p).program.sync = c.program.sync.map m.terminal := hp.sync
  simp only [Setting.stopsAt, hsync, hmatches, h.isHalted]
  rfl

end Program.Embeds

/-- A run of an embedded program is one of the program in which it is, under other numbers. -/
theorem Run.renumbered {d position : Nat} {job : Job} {out : Outcome}
    (h : Run c d job position s out s') (hp : c.program.Embeds p m) (hs : s.Renumbered m t) :
    ∃ t', Run (c.via p) d (m.job job) position t (out.renumber m.kind) t' ∧
      s'.Renumbered m t' := by
  induction h generalizing t with
  | refused tick =>
    obtain ⟨t', htick, hs'⟩ := hs.tick tick
    exact ⟨t', .refused htick, hs'⟩
  | tooDeep tick =>
    obtain ⟨t', htick, hs'⟩ := hs.tick tick
    exact ⟨_, .tooDeep htick, hs'.stop .tooDeep⟩
  | ticked tick rest ih =>
    obtain ⟨t₁, htick, hs₁⟩ := hs.tick tick
    obtain ⟨t', hrest, hs'⟩ := ih hp hs₁
    exact ⟨t', .ticked htick hrest, hs'⟩
  | blank => exact ⟨t, .blank, hs⟩
  | @token c d terminal kind immediate position s =>
    obtain ⟨e, he⟩ := runToken_state c terminal kind immediate position s
    obtain ⟨e', he'⟩ := runToken_state (c.via p) (m.terminal terminal) (m.kind kind) immediate
      position t
    have hrun : Run (c.via p) d (.operation (.token (m.terminal terminal) (m.kind kind) immediate))
      position t _ _ := .token
    rw [hp.runToken_eq terminal kind immediate position s t, he'] at hrun
    rw [he]
    exact ⟨_, hrun, hs.record e e'⟩
  | @call c d rule renamed position s a s' rest ih =>
    obtain ⟨t', hrest, hs'⟩ := ih hp hs
    have hrun : Run (c.via p) d (.operation (.call (m.rule rule) (renamed.map m.kind))) position t
      _ t' := .call hrest
    rw [hs'.isHalted, hp.called_eq] at hrun
    exact ⟨t', hrun, hs'⟩
  | members rest ih =>
    obtain ⟨t', hrest, hs'⟩ := ih hp hs
    exact ⟨t', .members hrest, hs'⟩
  | alternatives rest ih =>
    obtain ⟨t', hrest, hs'⟩ := ih hp hs
    exact ⟨t', .alternatives hrest, hs'⟩
  | repetition rest ih =>
    obtain ⟨t', hrest, hs'⟩ := ih hp hs
    exact ⟨t', .repetition hrest, hs'⟩
  | @wrap c d body kind position s a s' rest ih =>
    obtain ⟨t', hrest, hs'⟩ := ih hp hs
    have hrun : Run (c.via p) d (.operation (.wrap (m.step body) (m.kind kind))) position t
      _ t' := .wrap hrest
    rw [hp.wrapped_eq] at hrun
    exact ⟨t', hrun, hs'⟩
  | cancelled ask =>
    obtain ⟨t', hask, hs'⟩ := hs.ask ask
    exact ⟨t', .cancelled hask, hs'⟩
  | @hit c d rule position s s₁ entry recovering ask known =>
    obtain ⟨t₁, hask, hs₁⟩ := hs.ask ask
    have hknown := hs₁.known? c p rule position
    rw [known, Option.map_some] at hknown
    have hrun : Run (c.via p) d (.rule (m.rule rule)) position t _ _ := .hit hask hknown
    rw [Entry.answer_renumber] at hrun
    exact ⟨_, hrun, hs₁.record _ _⟩
  | @body c d rule position s s₁ a s₂ ask unknown rest ih =>
    obtain ⟨t₁, hask, hs₁⟩ := hs.ask ask
    have hknown := hs₁.known? c p rule position
    rw [unknown, Option.map_none] at hknown
    obtain ⟨t₂, hrest, hs₂⟩ := ih hp (hs₁.record (.call rule position)
      (.call (m.rule rule) position))
    rw [Renumbering.job, ← hp.body] at hrest
    exact ⟨_, .body hask hknown hrest,
      (hs₂.keep hp.rules c p rule position (a.entry position)).record _ _⟩
  | seqNil => exact ⟨t, .seqNil, hs⟩
  | seqSkip tail ih =>
    obtain ⟨t', htail, hs'⟩ := ih hp hs
    exact ⟨t', .seqSkip htail, hs'⟩
  | seqTook head tail ihhead ihtail =>
    obtain ⟨t₁, hhead, hs₁⟩ := ihhead hp hs
    obtain ⟨t', htail, hs'⟩ := ihtail hp hs₁
    refine ⟨t', ?_, hs'⟩
    rw [Outcome.renumber, Answer.renumber_behind hp.kinds]
    exact .seqTook hhead htail
  | @seqFailed c d step rest isFirst position s notes s' head final ih =>
    obtain ⟨t', hhead, hs'⟩ := ih hp hs
    refine ⟨t', .seqFailed hhead (final.imp_right fun hnone => ?_), hs'⟩
    rw [c.recoverable?_via, hnone, Option.map_none]
  | @seqEnded c d step rest position s notes s₁ failure result reach s' head armed scan ended ihhead
      ihscan =>
    obtain ⟨t₁, hhead, hs₁⟩ := ihhead hp hs
    obtain ⟨t', hscan, hs'⟩ := ihscan hp hs₁
    have harmed := c.recoverable?_via p (m := m) notes
    rw [armed, Option.map_some] at harmed
    rw [← hp.trivia_stop] at hscan
    have hrun := Run.seqEnded hhead harmed hscan (by rw [Search.index?_renumber, ended])
    rw [Failure.renumber, hp.resumedTaken_eq, hp.resumedError?_eq, hp.trivia_reach] at hrun
    refine ⟨_, ?_, hs'.recordError _⟩
    rw [Outcome.renumber, Answer.renumber, Notes.renumber_join hp.kinds]
    exact hrun
  | @seqResumed c d step rest position s notes s₁ failure result reach s₂ index a s' head armed scan
      resumed tail ihhead ihscan ihtail =>
    obtain ⟨t₁, hhead, hs₁⟩ := ihhead hp hs
    obtain ⟨t₂, hscan, hs₂⟩ := ihscan hp hs₁
    obtain ⟨t', htail, hs'⟩ := ihtail hp (hs₂.recordError _)
    have harmed := c.recoverable?_via p (m := m) notes
    rw [armed, Option.map_some] at harmed
    rw [← hp.trivia_stop] at hscan
    rw [← hp.resumedError?_eq] at htail
    have hrun := Run.seqResumed hhead harmed hscan (by rw [Search.index?_renumber, resumed])
      (by rw [Failure.renumber, hp.resumedTaken_eq]; exact htail)
    rw [Failure.renumber, hp.resumedTaken_eq, hp.trivia_reach] at hrun
    refine ⟨t', ?_, hs'⟩
    rw [Outcome.renumber, Answer.renumber_behind hp.kinds, Notes.renumber_join hp.kinds]
    exact hrun
  | choiceNil => exact ⟨t, .choiceNil, hs⟩
  | choiceTook head ih =>
    obtain ⟨t', hhead, hs'⟩ := ih hp hs
    exact ⟨t', .choiceTook hhead, hs'⟩
  | choiceNext head tail ihhead ihtail =>
    obtain ⟨t₁, hhead, hs₁⟩ := ihhead hp hs
    obtain ⟨t', htail, hs'⟩ := ihtail hp (hs₁.record _ _)
    refine ⟨t', ?_, hs'⟩
    rw [Outcome.renumber, Answer.renumber_noting hp.kinds]
    exact .choiceNext hhead htail
  | exhausted =>
    rw [Outcome.renumber, endRepetition_renumber]
    exact ⟨t, .exhausted, hs⟩
  | enough full =>
    rw [Outcome.renumber, endRepetition_renumber]
    exact ⟨t, .enough full, hs⟩
  | idleIteration room head still ih =>
    obtain ⟨t', hhead, hs'⟩ := ih hp hs
    rw [Outcome.renumber, endRepetition_renumber]
    exact ⟨t', .idleIteration room hhead still, hs'⟩
  | nextIteration room head moved tail ihhead ihtail =>
    obtain ⟨t₁, hhead, hs₁⟩ := ihhead hp hs
    obtain ⟨t', htail, hs'⟩ := ihtail hp hs₁
    refine ⟨t', ?_, hs'⟩
    rw [Outcome.renumber, Answer.renumber_behind hp.kinds]
    exact .nextIteration room hhead moved htail
  | @lastIteration c d body least most left count position s notes s' room head final ih =>
    obtain ⟨t', hhead, hs'⟩ := ih hp hs
    rw [Outcome.renumber, endRepetition_renumber]
    refine ⟨t', .lastIteration room hhead fun hstarted => ?_, hs'⟩
    rw [c.recoverable?_via, final hstarted, Option.map_none]
  | @lostIteration c d body least most left count position s notes s₁ failure result reach s' room
      head started armed scan ended ihhead ihscan =>
    obtain ⟨t₁, hhead, hs₁⟩ := ihhead hp hs
    obtain ⟨t', hscan, hs'⟩ := ihscan hp hs₁
    have harmed := c.recoverable?_via p (m := m) notes
    rw [armed, Option.map_some] at harmed
    rw [← hp.trivia_stop] at hscan
    have hrun : Run (c.via p) d (.iterations (m.step body) least most (left + 1) count) position t
        _ t' := .lostIteration room hhead started harmed hscan (by
      rw [Failure.renumber, hp.resumedIteration?_eq, ended, Option.map_none])
    rw [hp.trivia_reach] at hrun
    refine ⟨t', ?_, hs'⟩
    rw [Outcome.renumber, endRepetition_renumber, Notes.renumber_join hp.kinds]
    exact hrun
  | @foundIteration c d body least most left count position s notes s₁ failure result reach s₂ u a
      s' room head started armed scan resumed tail ihhead ihscan ihtail =>
    obtain ⟨t₁, hhead, hs₁⟩ := ihhead hp hs
    obtain ⟨t₂, hscan, hs₂⟩ := ihscan hp hs₁
    obtain ⟨t', htail, hs'⟩ := ihtail hp (hs₂.recordError _)
    have harmed := c.recoverable?_via p (m := m) notes
    rw [armed, Option.map_some] at harmed
    rw [← hp.trivia_stop] at hscan
    rw [← hp.iterationError?_eq] at htail
    have hrun := Run.foundIteration room hhead started harmed hscan (t := u.renumber m.kind) (by
      rw [Failure.renumber, hp.resumedIteration?_eq, resumed, Option.map_some]) htail
    rw [hp.trivia_reach] at hrun
    refine ⟨t', ?_, hs'⟩
    rw [Outcome.renumber, Answer.renumber_behind hp.kinds, Notes.renumber_join hp.kinds]
    exact hrun
  | trialNil => exact ⟨t, .trialNil, hs⟩
  | trialFound head past ih =>
    obtain ⟨t', hhead, hs'⟩ := ih hp hs
    exact ⟨t', .trialFound hhead past, hs'⟩
  | @trialNext c d floor index step rest position s a s₁ found reach s' head short tail ihhead
      ihtail =>
    obtain ⟨t₁, hhead, hs₁⟩ := ihhead hp hs
    obtain ⟨t', htail, hs'⟩ := ihtail hp hs₁
    refine ⟨t', Run.trialNext (a := a.renumber m.kind) hhead (fun u hu => ?_) htail, hs'⟩
    obtain ⟨v, hv, rfl⟩ := Option.map_eq_some_iff.mp hu
    exact short v hv
  | lookRefused tick =>
    obtain ⟨t', htick, hs'⟩ := hs.tick tick
    exact ⟨t', .lookRefused htick, hs'⟩
  | @lookFound c d steps position s s₁ found reach s' tick attempts ih =>
    obtain ⟨t₁, htick, hs₁⟩ := hs.tick tick
    obtain ⟨t', hattempts, hs'⟩ := ih hp hs₁
    rw [Renumbering.job, ← hp.trivia_stop, c.strict_via] at hattempts
    have hrun := Run.lookFound htick hattempts
    rw [hp.trivia_reach] at hrun
    exact ⟨t', hrun, hs'⟩
  | @lookStopped c d steps position s s₁ reach further s' tick attempts final ih =>
    obtain ⟨t₁, htick, hs₁⟩ := hs.tick tick
    obtain ⟨t', hattempts, hs'⟩ := ih hp hs₁
    rw [Renumbering.job, ← hp.trivia_stop, c.strict_via] at hattempts
    have hrun := Run.lookStopped htick hattempts ((hp.stopsAt_eq hs' _).trans final)
    rw [hp.trivia_reach] at hrun
    exact ⟨t', hrun, hs'⟩
  | @lookPassed c d steps position s s₁ reach further s' tick attempts passed ih =>
    obtain ⟨t₁, htick, hs₁⟩ := hs.tick tick
    obtain ⟨t', hattempts, hs'⟩ := ih hp hs₁
    rw [Renumbering.job, ← hp.trivia_stop, c.strict_via] at hattempts
    have hrun := Run.lookPassed htick hattempts ((hp.stopsAt_eq hs' _).trans passed)
    rw [hp.trivia_reach] at hrun
    exact ⟨t', hrun, hs'⟩
  | @searchEnd c d steps position s result reach s' here ih =>
    obtain ⟨t', hhere, hs'⟩ := ih hp hs
    have hresult : (result.map (Search.renumber m.kind)).getD (.stopped position) =
        (result.getD (.stopped position)).renumber m.kind := by
      cases result <;> rfl
    have hrun := Run.searchEnd hhere
    rw [hresult] at hrun
    exact ⟨t', hrun, hs'⟩
  | searchDone here ih =>
    obtain ⟨t', hhere, hs'⟩ := ih hp hs
    exact ⟨t', .searchDone hhere, hs'⟩
  | searchNext here tail ihhere ihtail =>
    obtain ⟨t₁, hhere, hs₁⟩ := ihhere hp hs
    obtain ⟨t', htail, hs'⟩ := ihtail hp hs₁
    exact ⟨t', .searchNext hhere htail, hs'⟩

/-! ### Rounds and parses -/

/-- A round comes to the same under other numbers. -/
theorem runRound_renumbered {depth : Nat} {a : Answer} (h : runRound c depth s = (a, s'))
    (hp : c.program.Embeds p m) (hs : s.Renumbered m t) :
    ∃ t', runRound (c.via p) depth t = (a.renumber m.kind, t') ∧ s'.Renumbered m t' := by
  obtain ⟨a₀, hrun, rfl⟩ := runRound_eq.mp h
  obtain ⟨t', hrun', hs'⟩ := hrun.renumbered hp hs
  refine ⟨t', runRound_eq.mpr ⟨a₀.renumber m.kind, ?_, ?_⟩, hs'⟩
  · rw [Renumbering.job, ← hp.start] at hrun'
    exact hrun'
  · simp only [Answer.renumber, Option.map_map, Answer.mk.injEq, and_true]
    congr 1
    funext u
    simp only [Function.comp_apply, Taken.renumber_andThen]
    simp only [Taken.renumber, hp.trivia_stop, hp.trivia_leaves]

/-- The next error point does not depend on numbers. -/
theorem nextPoint?_renumber {o : ParseOptions} {text : Text} {points : List Nat} {number : Nat}
    {f : Nat → Nat} {a : Answer} (hhalted : t.isHalted = s.isHalted) :
    nextPoint? o text points number (a.renumber f) t = nextPoint? o text points number a s := by
  have hpoint : (a.renumber f).point = a.point := by
    simp only [Answer.point, Answer.renumber, Notes.renumber, Option.map_map]
    rfl
  have hcomplete : (a.renumber f).taken.any (·.stop == text.size) =
      a.taken.any (·.stop == text.size) := by
    cases htaken : a.taken <;> simp only [Answer.renumber, htaken] <;> rfl
  simp only [nextPoint?, hpoint, hcomplete, hhalted]

/-- What a parse takes in the end, with an error for the text that is left, is the same under other
numbers. -/
theorem takenInFull_renumbered {a : Answer} (hp : c.program.Embeds p m)
    (hhalted : t.isHalted = s.isHalted) :
    (takenInFull (c.via p) (a.renumber m.kind) t).1 =
      (takenInFull c a s).1.renumber m.kind := by
  have htaken : (a.renumber m.kind).taken.getD { stop := 0 } =
      (a.taken.getD { stop := 0 }).renumber m.kind := by
    cases htaken : a.taken <;> simp only [Answer.renumber, htaken] <;> rfl
  have hnone : (a.renumber m.kind).taken.isNone = a.taken.isNone := Option.isNone_map
  have hstop : ((a.taken.getD { stop := 0 }).renumber m.kind).stop =
      (a.taken.getD { stop := 0 }).stop := rfl
  have htext : (c.via p).text = c.text := rfl
  simp only [takenInFull, htaken, hnone, hhalted, hstop, htext]
  split
  · rw [Taken.renumber_andThen, ← hp.takenError_eq]
    cases hfar : a.notes.far with
    | none => simp only [Answer.renumber, Notes.renumber, hfar, Option.map_none, List.map_nil]
    | some far =>
      simp only [Answer.renumber, Notes.renumber, hfar, Option.map_some, Failure.renumber]
      split <;> rfl
  · rfl

section

variable {q : Program} {o : ParseOptions} {text : Text}

/-- The rounds of a parse go through the same error points and come to the same under other
numbers. -/
theorem Rounds.renumbered {left number : Nat} {points points' : List Nat} {a : Answer}
    (h : Rounds q o text left number points s a points' s') (hq : q.Embeds p m)
    (hs : s.Renumbered m t) : ∃ t', Rounds p o text left number points t (a.renumber m.kind)
      points' t' ∧ s'.Renumbered m t' := by
  induction h generalizing t with
  | last round final =>
    obtain ⟨t', hround, hs'⟩ := runRound_renumbered round hq (hs.record _ _)
    refine ⟨t', .last hround (final.imp_right fun hnone => ?_), hs'⟩
    exact (nextPoint?_renumber hs'.isHalted).trans hnone
  | next round more rest ih =>
    obtain ⟨t₁, hround, hs₁⟩ := runRound_renumbered round hq (hs.record _ _)
    obtain ⟨t', hrest, hs'⟩ := ih hs₁.settle
    exact ⟨t', .next hround ((nextPoint?_renumber hs₁.isHalted).trans more) hrest, hs'⟩

/-- A parse by an embedded program stops for the same reason and has the same errors, and its tree
is the same up to the numbers of kinds. -/
theorem Program.Embeds.parse (hq : q.Embeds p m) (o : ParseOptions) (text : String) :
    (p.parse o text).tree = (q.parse o text).tree.renumber m.kind ∧
      (p.parse o text).errors = (q.parse o text).errors ∧
      (p.parse o text).halted = (q.parse o text).halted := by
  obtain ⟨a, points, s, hrounds, heq⟩ := q.exists_rounds o {} false (Text.ofString text)
  have hstart : (o.startState {} false).Renumbered m (o.startState {} false) :=
    ⟨rfl, rfl, rfl, .empty m, .empty m⟩
  obtain ⟨t, hrounds', hs⟩ := hrounds.renumbered hq hstart
  obtain ⟨a', points', t', hrounds'', heq'⟩ := p.exists_rounds o {} false (Text.ofString text)
  cases (rounds_iff.mp hrounds').symm.trans (rounds_iff.mp hrounds'')
  have hc : (roundSetting q o (Text.ofString text) points).program.Embeds p m := hq
  have htaken := takenInFull_renumbered (a := a) hc hs.isHalted
  have htrees : (takenInFull (roundSetting p o (Text.ofString text) points)
      (a.renumber m.kind) t).1.trees = _ := congrArg Taken.trees htaken
  have herrors : (takenInFull (roundSetting p o (Text.ofString text) points)
      (a.renumber m.kind) t).1.errors = _ := congrArg Taken.errors htaken
  have hkind : p.startRule.kind = m.kind q.startRule.kind := by
    rw [startRule, startRule, hq.start, hq.ruleKind]
  rw [Program.parse, Program.parse, heq, heq']
  refine ⟨?_, ?_, hs.halted⟩
  · simp only [Tree.renumber_node, hkind, htrees]
    rfl
  · simp only [herrors]
    rfl

end

end Packrat
