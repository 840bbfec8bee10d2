import Packrat.Proofs.Memoization
import Packrat.Proofs.Parse.Reached
import Packrat.Proofs.Program.Computed
import Packrat.Proofs.Strict.Extent

/-!
# The furthest failure of a call

Notes are taken out, joined and put back in every part of a run, and kept with results. What comes
out of this is the plain summary of the attempts at terminals that failed: the greatest position at
which one did, with the kinds that failed there, each told once, the first failures first. The
attempts are those that an evaluation makes which keeps no results, as its log tells them.
-/

namespace Packrat

/-! ## Summaries of failed attempts -/

/-- The position and the kind of an attempt at a terminal that failed. -/
def Event.failure? : Event → Option (Nat × Nat)
  | token kind position none => some (position, kind)
  | _ => none

/-- The attempts at terminals that failed, by their positions and kinds, out of events of which the
latest is the first. -/
def failuresOf (log : List Event) : List (Nat × Nat) := log.reverse.filterMap Event.failure?

/-- The join of attempts that failed, one after another. -/
def furthestOf : List (Nat × Nat) → Option Failure
  | [] => none
  | (position, kind) :: fails => furthest (some ⟨position, [kind]⟩) (furthestOf fails)

/-- Whether a failure sums up attempts that failed: it stands at the greatest of their positions and
tells the kinds that failed there, each once, in the order of their first failures. -/
structure Failure.SumsUp (fails : List (Nat × Nat)) (f : Failure) : Prop where
  reached : ∃ kind, (f.position, kind) ∈ fails
  greatest : ∀ fail ∈ fails, fail.1 ≤ f.position
  expected : f.expected = ((fails.filter (·.1 == f.position)).map (·.2)).eraseDups

/-- The failures on a log are the older ones and then the newer ones. -/
theorem failuresOf_append (new log : List Event) :
    failuresOf (new ++ log) = failuresOf log ++ failuresOf new := by
  simp [failuresOf]

/-- The furthest of all failures is the further one of those before and those behind. -/
theorem furthestOf_append (fails more : List (Nat × Nat)) :
    furthestOf (fails ++ more) = furthest (furthestOf fails) (furthestOf more) := by
  induction fails with
  | nil => rfl
  | cons fail fails ih => simp only [List.cons_append, furthestOf, ih, furthest_assoc]

/-- Items are added once each, the new ones behind the known ones in the order in which they first
stand. -/
theorem addNew_eq_append (known more : List Nat) :
    addNew known more = known ++ (more.filter fun a => !known.contains a).eraseDups := by
  induction more generalizing known with
  | nil => simp
  | cons a more ih =>
    rw [addNew_cons, addNew_singleton]
    by_cases ha : a ∈ known
    · rw [if_pos ha, ih, List.filter_cons_of_neg (by simpa using ha)]
    · rw [if_neg ha, ih, List.filter_cons_of_pos (by simpa using ha), List.eraseDups_cons,
        List.filter_filter, List.append_assoc, List.singleton_append]
      congr 4
      funext b
      by_cases hb : b = a <;> simp [hb]

/-- Kinds that are added to none are these kinds without repetition. -/
theorem addNew_nil_eq (more : List Nat) : addNew [] more = more.eraseDups := by
  simpa using addNew_eq_append [] more

/-- One kind in front of some others. -/
theorem addNew_singleton_eraseDups (kind : Nat) (kinds : List Nat) :
    addNew [kind] kinds.eraseDups = (kind :: kinds).eraseDups := by
  rw [← addNew_nil_eq kinds, ← addNew_assoc, addNew_nil, ← addNew_nil_eq]
  rfl

/-- The first of the attempts and the summary of the others make the summary of all. -/
theorem Failure.SumsUp.cons {fails : List (Nat × Nat)} {f : Failure} (h : f.SumsUp fails)
    (position kind : Nat) :
    (Failure.join ⟨position, [kind]⟩ f).SumsUp ((position, kind) :: fails) := by
  obtain ⟨⟨other, hother⟩, hgreatest, hexpected⟩ := h
  rcases Nat.lt_trichotomy position f.position with hlt | heq | hgt
  · rw [Failure.join_of_lt hlt]
    refine ⟨⟨other, List.mem_cons_of_mem _ hother⟩, ?_, ?_⟩
    · exact List.forall_mem_cons.mpr ⟨Nat.le_of_lt hlt, hgreatest⟩
    · have hne : position ≠ f.position := Nat.ne_of_lt hlt
      rw [List.filter_cons_of_neg (by simpa using hne), hexpected]
  · rw [Failure.join_of_eq heq]
    refine ⟨⟨kind, List.mem_cons_self⟩, ?_, ?_⟩
    · exact List.forall_mem_cons.mpr ⟨Nat.le_refl _, fun fail hfail => heq ▸ hgreatest fail hfail⟩
    · simp only [List.filter_cons_of_pos, BEq.rfl, List.map_cons, hexpected, ← heq]
      exact addNew_singleton_eraseDups _ _
  · rw [Failure.join_of_gt hgt]
    refine ⟨⟨kind, List.mem_cons_self⟩, ?_, ?_⟩
    · exact List.forall_mem_cons.mpr ⟨Nat.le_refl _, fun fail hfail =>
        Nat.le_of_lt (Nat.lt_of_le_of_lt (hgreatest fail hfail) hgt)⟩
    · have hnone : fails.filter (·.1 == position) = [] := by
        refine List.filter_eq_nil_iff.mpr fun fail hfail => ?_
        have hle := hgreatest fail hfail
        have hne : fail.1 ≠ position := by omega
        simpa using hne
      simp [hnone, List.eraseDups_cons]

/-- There is a furthest failure if and only if some attempt failed, and it sums up all that did. -/
theorem furthestOf_spec (fails : List (Nat × Nat)) :
    (furthestOf fails = none ↔ fails = []) ∧ ∀ f, furthestOf fails = some f → f.SumsUp fails := by
  induction fails with
  | nil => exact ⟨by simp [furthestOf], by simp [furthestOf]⟩
  | cons fail fails ih =>
    obtain ⟨position, kind⟩ := fail
    obtain ⟨hnone, hsome⟩ := ih
    cases hrest : furthestOf fails with
    | none =>
      obtain rfl := hnone.mp hrest
      refine ⟨by simp [furthestOf], fun f hf => ?_⟩
      obtain rfl : ⟨position, [kind]⟩ = f := by simpa [furthestOf] using hf
      exact ⟨⟨kind, List.mem_cons_self⟩, by simp, by simp [List.eraseDups_cons]⟩
    | some g =>
      have hjoin : furthestOf ((position, kind) :: fails) =
          some (Failure.join ⟨position, [kind]⟩ g) := by
        simp only [furthestOf, hrest, furthest]
      refine ⟨by simp [hjoin], fun f hf => ?_⟩
      obtain rfl : Failure.join ⟨position, [kind]⟩ g = f := Option.some.inj (hjoin.symm.trans hf)
      exact (hsome g hrest).cons position kind

/-! ## What a run logs -/

/-- Whether a state has come of another one by events whose failed attempts have some furthest
failure. -/
def State.FailsUpTo (far : Option Failure) (s s' : State) : Prop :=
  ∃ new : List Event, s'.log = s.log.map (new ++ ·) ∧ furthestOf (failuresOf new) = far

namespace State.FailsUpTo

variable {far far' : Option Failure} {s s₁ s' : State}

/-- Where nothing is logged, no terminal has failed. -/
theorem of_log_eq (h : s'.log = s.log) : FailsUpTo none s s' := ⟨[], by simp [h], rfl⟩

/-- What fails in two steps fails up to the further of the two places. -/
theorem trans (h : FailsUpTo far s s₁) (h' : FailsUpTo far' s₁ s') :
    FailsUpTo (furthest far far') s s' := by
  obtain ⟨new, hlog, rfl⟩ := h
  obtain ⟨more, hlog', rfl⟩ := h'
  refine ⟨more ++ new, ?_, ?_⟩
  · rw [hlog', hlog, Option.map_map]
    congr 1
    funext log
    simp
  · rw [failuresOf_append, furthestOf_append]

/-- Nothing fails in a part in front. -/
theorem behind (h : FailsUpTo none s s₁) (h' : FailsUpTo far s₁ s') : FailsUpTo far s s' :=
  h.trans h'

/-- Nothing fails in a part behind. -/
theorem before (h : FailsUpTo far s s₁) (h' : FailsUpTo none s₁ s') : FailsUpTo far s s' := by
  have hboth := h.trans h'
  rwa [furthest_none] at hboth

/-- An event that is no failure leaves the furthest one what it was. -/
theorem record {e : Event} (he : e.failure? = none) (s : State) :
    FailsUpTo none s (s.record e) :=
  ⟨[e], rfl, by simp [failuresOf, he, furthestOf]⟩

/-- A step of fuel that is granted is no failure. -/
theorem tick (h : s.tick = (true, s')) : FailsUpTo none s s' := by
  rcases s with ⟨memo, _ | _ | n, patience, _ | reason, log⟩ <;> cases h <;> exact .of_log_eq rfl

/-- A try that is granted is no failure. -/
theorem ask (h : s.ask = (true, s')) : FailsUpTo none s s' := by
  rcases s with ⟨memo, fuel, _ | _ | n, _ | reason, log⟩ <;> cases h <;> exact .of_log_eq rfl

/-- To keep a result is no failure. -/
theorem keep (c : Setting) (rule p : Nat) (entry : Entry) (s : State) :
    FailsUpTo none s (keep c rule p entry s) := by
  unfold Packrat.keep
  split <;> exact .of_log_eq rfl

end State.FailsUpTo

/-- An attempt at a terminal is logged with the failure that it notes. -/
theorem runToken_failsUpTo (c : Setting) (terminal kind : Nat) (immediate : Bool) (p : Nat)
    (s : State) :
    s.FailsUpTo (runToken c terminal kind immediate p s).1.notes.far
      (runToken c terminal kind immediate p s).2 := by
  obtain ⟨trivia, htrivia⟩ : ∃ trivia, trivia =
      if immediate then (⟨[], p, 0⟩ : Trivia) else c.trivia p := ⟨_, rfl⟩
  simp only [runToken, ← htrivia]
  cases ((c.program.terminal terminal).scanAt c.text trivia.stop).length with
  | some n => exact .record (e := .token kind trivia.stop (some n)) rfl s
  | none => exact ⟨[.token kind trivia.stop none], rfl, rfl⟩

/-- A run without recovery that keeps no results logs the attempts whose furthest failure it
notes. -/
theorem Run.failsUpTo {c : Setting} {d : Nat} {job : Job} {p : Nat} {s s' : State} {out : Outcome}
    (h : Run c d job p s out s') (hstrict : c.recovering = false) (hoff : c.memoize = false)
    (hlive : s'.halted = none) {a : Answer} (ha : out = .answer a) :
    s.FailsUpTo a.notes.far s' := by
  induction h generalizing a with
  | refused tick => exact absurd hlive (State.of_tick_false tick).1
  | tooDeep => simp at hlive
  | ticked tick rest ih => exact (State.FailsUpTo.tick tick).behind (ih hstrict hoff hlive ha)
  | blank =>
    cases ha
    exact .of_log_eq rfl
  | token =>
    cases ha
    exact runToken_failsUpTo _ _ _ _ _ _
  | call rest ih =>
    cases ha
    have hbody := ih hstrict hoff hlive rfl
    exact hbody
  | members rest ih => exact ih hstrict hoff hlive ha
  | alternatives rest ih => exact ih hstrict hoff hlive ha
  | repetition rest ih => exact ih hstrict hoff hlive ha
  | wrap rest ih =>
    cases ha
    have hbody := ih hstrict hoff hlive rfl
    exact hbody
  | cancelled ask => exact absurd hlive (State.of_ask_false ask).1
  | hit ask known =>
    rw [(of_known? known).1] at hoff
    cases hoff
  | body ask unknown rest ih =>
    cases ha
    have hbody := ih hstrict hoff (by simpa using hlive) rfl
    have hcall := (State.FailsUpTo.record (e := .call _ _) rfl _).behind hbody
    refine (State.FailsUpTo.ask ask).behind (hcall.before ?_)
    exact (State.FailsUpTo.keep _ _ _ _ _).before (.record (e := .leave _ _) rfl _)
  | seqNil =>
    cases ha
    exact .of_log_eq rfl
  | seqSkip tail ih => exact ih hstrict hoff hlive ha
  | seqTook head tail ihhead ihtail =>
    cases ha
    exact (ihhead hstrict hoff (tail.live hlive) rfl).trans
      (ihtail hstrict hoff hlive rfl)
  | seqFailed head final ih =>
    cases ha
    exact ih hstrict hoff hlive rfl
  | seqEnded _ armed => exact absurd armed (Setting.recoverable?_ne_some hstrict)
  | seqResumed _ armed => exact absurd armed (Setting.recoverable?_ne_some hstrict)
  | choiceNil =>
    cases ha
    exact .of_log_eq rfl
  | choiceTook head ih =>
    cases ha
    exact ih hstrict hoff hlive rfl
  | choiceNext head tail ihhead ihtail =>
    cases ha
    have hrest := ihtail hstrict hoff hlive rfl
    exact (ihhead hstrict hoff (tail.live hlive) rfl).trans
      ((State.FailsUpTo.record (e := .backtrack _) rfl _).behind hrest)
  | exhausted =>
    cases ha
    exact .of_log_eq rfl
  | enough =>
    cases ha
    exact .of_log_eq rfl
  | idleIteration room head still ih =>
    cases ha
    have hbody := ih hstrict hoff hlive rfl
    exact hbody
  | nextIteration room head moved tail ihhead ihtail =>
    cases ha
    exact (ihhead hstrict hoff (tail.live hlive) rfl).trans
      (ihtail hstrict hoff hlive rfl)
  | lastIteration room head final ih =>
    cases ha
    have hbody := ih hstrict hoff hlive rfl
    exact hbody
  | lostIteration _ _ _ armed => exact absurd armed (Setting.recoverable?_ne_some hstrict)
  | foundIteration _ _ _ armed => exact absurd armed (Setting.recoverable?_ne_some hstrict)
  | _ => cases ha

/-! ## Calls -/

/-- A call of a rule without recovery that keeps no results and logs what happens. -/
def Program.tracedCall (g : Program) (text : Text) (rule p depth : Nat)
    (fuel patience : Option Nat) : Answer × State :=
  runRule (evaluate depth) (g.plain text) rule p ⟨{}, fuel, patience, none, some []⟩

/-- The attempts at terminals that failed so far in a parse that logs what happens, in their
order. -/
def State.failures (s : State) : List (Nat × Nat) := failuresOf (s.log.getD [])

namespace Program.CompiledFrom

variable {grammar : Grammar} {start : Nat} {g : Program}

/-- The furthest failure that a call of a rule without recovery notes in a parse that goes on, with
results kept or not and whatever was kept before, is the summary of the attempts that fail in the
call when no results are kept: in every such evaluation that is not stopped, and in one whose
operations may nest deeply enough and that nothing else limits, which is never stopped. -/
theorem furthest_failure (hg : g.CompiledFrom grammar start) {c : Setting} (hc : c.program = g)
    (hstrict : c.recovering = false) {s s' : State}
    (hs : Reached (CompiledFrom grammar start) g c.text c.points s) {d rule p : Nat}
    (hp : c.text.isBoundary p = true) {a : Answer}
    (hcall : runRule (evaluate d) c rule p s = (a, s')) (hlive : s'.halted = none) :
    (∃ depth, ∀ d', depth ≤ d' → (g.tracedCall c.text rule p d' none none).2.halted = none) ∧
    ∀ d' fuel patience, (g.tracedCall c.text rule p d' fuel patience).2.halted = none →
      (a.notes.far = none ↔ (g.tracedCall c.text rule p d' fuel patience).2.failures = []) ∧
      ∀ f, a.notes.far = some f →
        f.SumsUp (g.tracedCall c.text rule p d' fuel patience).2.failures := by
  have hderives := (hs.call_derived hg hc hp hcall hlive).2 (Setting.quiet_of_strict hstrict)
  have hfresh : ∀ fuel patience, Reached (CompiledFrom grammar start) g (g.plain c.text).text
      (g.plain c.text).points ⟨{}, fuel, patience, none, some []⟩ :=
    fun fuel patience => .fresh _ _ _ _
  constructor
  · obtain ⟨depth, hends⟩ := hderives.exists_endsIn hp
    refine ⟨depth, fun d' hd => ?_⟩
    have hfree : Unhindered g c.text (g.plain c.text) ⟨{}, none, none, none, some []⟩ :=
      ⟨rfl, rfl, rfl, ⟨rfl, rfl, rfl⟩, (hfresh none none).sound hg rfl⟩
    have hrun : Run (g.plain c.text) d' (.rule rule) p ⟨{}, none, none, none, some []⟩ _ _ :=
      run_iff.mpr (runJob_rule_eq.mpr rfl)
    exact (hends true 0 _ d' _ _ _ hfree hd hrun).live
  intro d' fuel patience hlive'
  obtain ⟨b, u, htraced⟩ : ∃ b u, g.tracedCall c.text rule p d' fuel patience = (b, u) :=
    ⟨_, _, rfl⟩
  rw [htraced] at hlive' ⊢
  have hcall' : runRule (evaluate d') (g.plain c.text) rule p
    ⟨{}, fuel, patience, none, some []⟩ = (b, u) := htraced
  -- the evaluation that keeps nothing comes to the same
  have hderives' := ((hfresh fuel patience).call_derived hg rfl hp hcall' hlive').2
    (Setting.quiet_of_strict rfl)
  have hsame : a.plain = b.plain := hderives.unique hderives'
  have hfar : a.notes.far = b.notes.far := congrArg (·.notes.far) hsame
  have hrun : Run (g.plain c.text) d' (.rule rule) p ⟨{}, fuel, patience, none, some []⟩
    (.answer b) u := run_iff.mpr (runJob_rule_eq.mpr hcall')
  obtain ⟨new, hlog, hsum⟩ := hrun.failsUpTo rfl rfl hlive' rfl
  have hfailures : u.failures = failuresOf new := by
    simp [State.failures, hlog]
  rw [hfar, ← hsum, hfailures]
  exact furthestOf_spec _

end Program.CompiledFrom

namespace Program

/-- Two letters are taken by the other rule and what follows them is not among what may: its failure
is noted three times, of which two come from the result that was kept. -/
theorem CompiledFrom.furthest_failure_retrying :
    (∃ a s', runRule (evaluate 8) ((retrying.plain (.ofString "aad")).keeping true) 0 0
        ⟨{}, none, none, none, none⟩ = (a, s') ∧ s'.halted = none ∧
          a.notes.far = some ⟨2, [6, 4, 5]⟩) ∧
    (retrying.tracedCall (.ofString "aad") 0 0 8 none none).2.failures =
      [(2, 6), (2, 4), (2, 6), (2, 5), (2, 6), (2, 4)] := by
  have hlive₀ : (runRule (evaluate 8) (retrying.plain (.ofString "aad")) 0 0
      ⟨{}, none, none, none, none⟩).2.halted = none := by decide +kernel
  have hrun₀ : Run (retrying.plain (.ofString "aad")) 8 (.rule 0) 0
      ⟨{}, none, none, none, none⟩ _ _ := run_iff.mpr (runJob_rule_eq.mpr rfl)
  have hstart : State.Replays (retrying.plain (.ofString "aad")) ⟨{}, none, none, none, none⟩
      ⟨{}, none, none, none, none⟩ :=
    ⟨⟨rfl, .refl _, .refl _⟩, Memo.sound_empty _ _ _, Memo.sound_empty _ _ _, by simp⟩
  obtain ⟨_, s', hrun, ⟨a, rfl, -⟩, hends⟩ := hrun₀.simulated (simulation_replays rfl) (.inl rfl)
    hlive₀ (Text.isBoundary_zero _) (Nat.le_refl 8) hstart
  have hlive := hends.poorer.live
  have hcall := runJob_rule_eq.mp (run_iff.mp hrun)
  have hfailures : (retrying.tracedCall (.ofString "aad") 0 0 8 none none).2.failures =
      [(2, 6), (2, 4), (2, 6), (2, 5), (2, 6), (2, 4)] := by decide +kernel
  obtain ⟨-, hevery⟩ := furthest_failure retrying_compiledFrom (by rfl) (by rfl)
    (.fresh _ _ _ _) (Text.isBoundary_zero _) hcall hlive
  obtain ⟨hnone, hsome⟩ := hevery 8 none none (by decide +kernel)
  rw [show ((retrying.plain (.ofString "aad")).keeping true).text = .ofString "aad" from rfl,
    hfailures] at hnone hsome
  refine ⟨⟨a, s', hcall, hlive, ?_⟩, hfailures⟩
  cases hfar : a.notes.far with
  | none => simp [hfar] at hnone
  | some f =>
    obtain ⟨⟨kind, hreached⟩, -, hexpected⟩ := hsome f hfar
    have hposition : f.position = 2 := by
      simp only [List.mem_cons, Prod.mk.injEq, List.not_mem_nil, or_false] at hreached
      omega
    rw [hposition] at hexpected
    have hkinds : f.expected = [6, 4, 5] := hexpected.trans (by rfl)
    cases f
    cases hposition
    cases hkinds
    rfl

end Program

end Packrat
