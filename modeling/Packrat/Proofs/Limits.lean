import Packrat.Proofs.Parse.Rounds
import Packrat.Proofs.Program.Compiled

/-!
# Limits that are not reached

Limits do nothing until one of them stops the parse. A parse that goes on to its end under some
limits comes to the same under looser ones, with the same events in between.
-/

/-!
## More to spend

Fuel, patience and depth are only ever asked whether they are used up. As long as they are not, a
run that has more of them goes through the same steps to the same outcome, and ends in the same
state but for what is left over.
-/

namespace Packrat

namespace State

/-- An amount with some more added to it, or without a limit. -/
def raised (amount more : Option Nat) : Option Nat :=
  amount.bind fun n => more.map (n + ·)

/-- A larger amount is one with some more added to it. -/
theorem AtMost.exists_raised {a b : Option Nat} (h : AtMost a b) : ∃ more, b = raised a more := by
  cases b with
  | none =>
    refine ⟨none, ?_⟩
    cases a <;> rfl
  | some n =>
    obtain ⟨m, rfl, hle⟩ := h n rfl
    refine ⟨some (n - m), ?_⟩
    have hsum : m + (n - m) = n := by omega
    simp [raised, hsum]

/-- What is spent from an amount is spent from the raised one. -/
theorem Spends.raised {a a' : Option Nat} (h : Spends a a') (more : Option Nat) :
    Spends (raised a more) (raised a' more) := by
  cases h with
  | unlimited => exact .unlimited
  | limited n =>
    cases more with
    | none => exact .unlimited
    | some k =>
      have hsum : n + 1 + k = n + k + 1 := by omega
      simp only [State.raised, Option.bind_some, Option.map_some, hsum]
      exact .limited (n + k)

/-- The same state with more to spend. -/
def allow (fuel patience : Option Nat) (s : State) : State :=
  { s with fuel := raised s.fuel fuel, patience := raised s.patience patience }

section

variable (fuel patience : Option Nat) (s : State)

/-- More to spend makes no difference to what is kept. -/
@[simp] theorem allow_memo : (s.allow fuel patience).memo = s.memo := rfl

/-- More to spend makes no difference to a parse that has stopped or goes on. -/
@[simp] theorem allow_halted : (s.allow fuel patience).halted = s.halted := rfl

/-- More to spend makes no difference to the log. -/
@[simp] theorem allow_log : (s.allow fuel patience).log = s.log := rfl

/-- A parse that is allowed more goes on just when it did. -/
@[simp] theorem allow_isHalted : (s.allow fuel patience).isHalted = s.isHalted := rfl

/-- An event may come before or after more is allowed. -/
theorem record_allow (e : Event) :
    (s.allow fuel patience).record e = (s.record e).allow fuel patience := rfl

/-- An error may be noted before or after more is allowed. -/
theorem recordError_allow (e : Option (Nat × Nat)) :
    (s.allow fuel patience).recordError e = (s.recordError e).allow fuel patience := by
  cases e <;> rfl

/-- Results may be dropped before or after more is allowed. -/
theorem settle_allow : (s.allow fuel patience).settle = s.settle.allow fuel patience := rfl

/-- A result may be kept before or after more is allowed. -/
theorem keep_allow (c : Setting) (rule p : Nat) (entry : Entry) :
    keep c rule p entry (s.allow fuel patience) =
      (keep c rule p entry s).allow fuel patience := by
  unfold keep
  rw [allow_isHalted]
  split <;> rfl

/-- A token comes to the same with more to spend. -/
theorem runToken_allow (c : Setting) (terminal kind : Nat) (immediate : Bool) (p : Nat) :
    runToken c terminal kind immediate p (s.allow fuel patience) =
      ((runToken c terminal kind immediate p s).1,
        (runToken c terminal kind immediate p s).2.allow fuel patience) := by
  simp only [runToken]
  split <;> rfl

variable {s} {s' : State}

/-- A step of fuel that is granted is granted with more to spend, and as much more is left. -/
theorem tick_allow (h : s.tick = (true, s')) :
    (s.allow fuel patience).tick = (true, s'.allow fuel patience) := by
  rcases s with ⟨memo, _ | _ | n, asked, _ | reason, log⟩ <;> cases h
  · rfl
  · have hspends := (Spends.limited n).raised fuel
    exact tick_of_spends (s := allow fuel patience ⟨memo, some (n + 1), asked, none, log⟩)
      hspends rfl

/-- A try that is granted is granted with more to spend, and as much more is left. -/
theorem ask_allow (h : s.ask = (true, s')) :
    (s.allow fuel patience).ask = (true, s'.allow fuel patience) := by
  rcases s with ⟨memo, left, _ | _ | n, _ | reason, log⟩ <;> cases h
  · rfl
  · have hspends := (Spends.limited n).raised patience
    exact ask_of_spends (s := allow fuel patience ⟨memo, left, some (n + 1), none, log⟩)
      hspends rfl

end

end State

/-- A run that is not stopped goes the same way with more to spend and more depth. -/
theorem Run.allow {c : Setting} {d : Nat} {job : Job} {p : Nat} {s s' : State} {out : Outcome}
    (h : Run c d job p s out s') (hlive : s'.halted = none) {d' : Nat} (hd : d ≤ d')
    (fuel patience : Option Nat) :
    Run c d' job p (s.allow fuel patience) out (s'.allow fuel patience) := by
  induction h generalizing d' with
  | refused tick => exact absurd hlive (State.of_tick_false tick).1
  | tooDeep => simp at hlive
  | ticked tick rest ih =>
    obtain ⟨k, rfl⟩ : ∃ k, d' = k + 1 := ⟨d' - 1, by omega⟩
    exact .ticked (State.tick_allow fuel patience tick) (ih hlive (Nat.le_of_succ_le_succ hd))
  | blank => exact .blank
  | @token c d terminal kind immediate p s =>
    have htoken : Run c d' (.operation (.token terminal kind immediate)) p
      (s.allow fuel patience) _ _ := .token
    rwa [State.runToken_allow] at htoken
  | call rest ih => exact .call (ih hlive hd)
  | members rest ih => exact .members (ih hlive hd)
  | alternatives rest ih => exact .alternatives (ih hlive hd)
  | repetition rest ih => exact .repetition (ih hlive hd)
  | wrap rest ih => exact .wrap (ih hlive hd)
  | cancelled ask => exact absurd hlive (State.of_ask_false ask).1
  | hit ask known => exact .hit (State.ask_allow fuel patience ask) known
  | body ask unknown rest ih =>
    rw [State.record_halted, keep_halted] at hlive
    rw [← State.record_allow, ← State.keep_allow]
    exact .body (State.ask_allow fuel patience ask) unknown (ih hlive hd)
  | seqNil => exact .seqNil
  | seqSkip tail ih => exact .seqSkip (ih hlive hd)
  | seqTook head tail ihhead ihtail =>
    exact .seqTook (ihhead (tail.live hlive) hd) (ihtail hlive hd)
  | seqFailed head final ih => exact .seqFailed (ih hlive hd) final
  | seqEnded head armed scan ended ihhead ihscan =>
    rw [State.recordError_halted] at hlive
    rw [← State.recordError_allow]
    exact .seqEnded (ihhead (scan.live hlive) hd) armed (ihscan hlive hd) ended
  | seqResumed head armed scan resumed tail ihhead ihscan ihtail =>
    have hscan := tail.live hlive
    rw [State.recordError_halted] at hscan
    have htail := ihtail hlive hd
    rw [← State.recordError_allow] at htail
    exact .seqResumed (ihhead (scan.live hscan) hd) armed (ihscan hscan hd) resumed htail
  | choiceNil => exact .choiceNil
  | choiceTook head ih => exact .choiceTook (ih hlive hd)
  | choiceNext head tail ihhead ihtail =>
    exact .choiceNext (ihhead (tail.live hlive) hd) (ihtail hlive hd)
  | exhausted => exact .exhausted
  | enough full => exact .enough full
  | idleIteration room head still ih => exact .idleIteration room (ih hlive hd) still
  | nextIteration room head moved tail ihhead ihtail =>
    exact .nextIteration room (ihhead (tail.live hlive) hd) moved (ihtail hlive hd)
  | lastIteration room head final ih => exact .lastIteration room (ih hlive hd) final
  | lostIteration room head started armed scan ended ihhead ihscan =>
    exact .lostIteration room (ihhead (scan.live hlive) hd) started armed (ihscan hlive hd) ended
  | foundIteration room head started armed scan resumed tail ihhead ihscan ihtail =>
    have hscan := tail.live hlive
    rw [State.recordError_halted] at hscan
    have htail := ihtail hlive hd
    rw [← State.recordError_allow] at htail
    exact .foundIteration room (ihhead (scan.live hscan) hd) started armed (ihscan hscan hd)
      resumed htail
  | trialNil => exact .trialNil
  | trialFound head past ih => exact .trialFound (ih hlive hd) past
  | trialNext head short tail ihhead ihtail =>
    exact .trialNext (ihhead (tail.live hlive) hd) short (ihtail hlive hd)
  | lookRefused tick => exact absurd hlive (State.of_tick_false tick).1
  | lookFound tick attempts ih =>
    exact .lookFound (State.tick_allow fuel patience tick) (ih hlive hd)
  | lookStopped tick attempts final ih =>
    exact .lookStopped (State.tick_allow fuel patience tick) (ih hlive hd) final
  | lookPassed tick attempts passed ih =>
    exact .lookPassed (State.tick_allow fuel patience tick) (ih hlive hd) passed
  | searchEnd here ih => exact .searchEnd (ih hlive hd)
  | searchDone here ih => exact .searchDone (ih hlive hd)
  | searchNext here tail ihhere ihtail =>
    exact .searchNext (ihhere (tail.live hlive) hd) (ihtail hlive hd)

end Packrat

/-! ## Looser limits -/

namespace Packrat

/-- Whether the second limits allow all that the first ones do, for a parse of as many rounds that
keeps results or does not alike. -/
structure ParseOptions.Looser (o o' : ParseOptions) : Prop where
  fuel : State.AtMost o.fuel o'.fuel
  patience : State.AtMost o.patience o'.patience
  depth : o.recursionLimit ≤ o'.recursionLimit
  rounds : o'.maxRounds = o.maxRounds
  memoize : o'.memoize = o.memoize

/-- No limits at all but that of the depth. -/
theorem ParseOptions.looser_unlimited (o : ParseOptions) {depth : Nat}
    (hdepth : o.recursionLimit ≤ depth) :
    o.Looser { o with fuel := none, patience := none, recursionLimit := depth } where
  fuel := nofun
  patience := nofun
  depth := hdepth
  rounds := rfl
  memoize := rfl

section

variable {p : Program} {o o' : ParseOptions} {text : Text}

/-- Rounds are run in the same setting under looser limits. -/
theorem ParseOptions.Looser.roundSetting_eq (h : o.Looser o') (points : List Nat) :
    roundSetting p o' text points = roundSetting p o text points := by
  unfold roundSetting
  rw [h.memoize]

/-- The next error point is the same under looser limits. -/
theorem ParseOptions.Looser.nextPoint?_eq (h : o.Looser o') (points : List Nat) (number : Nat)
    (a : Answer) (s : State) (fuel patience : Option Nat) :
    nextPoint? o' text points number a (s.allow fuel patience) =
      nextPoint? o text points number a s := by
  simp only [nextPoint?, State.allow_isHalted, h.rounds]

/-- A round that is not stopped comes to the same with more to spend. -/
theorem runRound_allow {c : Setting} {depth depth' : Nat} {s s' : State} {a : Answer}
    (h : runRound c depth s = (a, s')) (hlive : s'.halted = none) (hdepth : depth ≤ depth')
    (fuel patience : Option Nat) :
    runRound c depth' (s.allow fuel patience) = (a, s'.allow fuel patience) := by
  obtain ⟨a₀, hrun, rfl⟩ := runRound_eq.mp h
  exact runRound_eq.mpr ⟨a₀, hrun.allow hlive hdepth fuel patience, rfl⟩

/-- Rounds that are not stopped come to the same under looser limits. -/
theorem Rounds.allow (hlooser : o.Looser o') {left number : Nat} {points points' : List Nat}
    {s s' : State} {a : Answer} (h : Rounds p o text left number points s a points' s')
    (hlive : s'.halted = none) (fuel patience : Option Nat) :
    Rounds p o' text left number points (s.allow fuel patience) a points'
      (s'.allow fuel patience) := by
  induction h with
  | @last left number points s a s' round final =>
    have hround := runRound_allow round hlive hlooser.depth fuel patience
    rw [← State.record_allow, ← hlooser.roundSetting_eq] at hround
    refine .last hround ?_
    rw [hlooser.nextPoint?_eq]
    exact final
  | @next left number points s a s₁ point a' points' s' round more rest ih =>
    obtain ⟨-, -, hlive₁, -⟩ := of_nextPoint? more
    have hround := runRound_allow round hlive₁ hlooser.depth fuel patience
    rw [← State.record_allow, ← hlooser.roundSetting_eq] at hround
    have hmore : nextPoint? o' text points number a (s₁.allow fuel patience) = some point := by
      rw [hlooser.nextPoint?_eq]
      exact more
    have hrest := ih hlive
    rw [← State.settle_allow] at hrest
    exact .next hround hmore hrest

/-- What a parse takes in the end is the same with more to spend. -/
theorem takenInFull_allow (c : Setting) (a : Answer) (s : State) (fuel patience : Option Nat) :
    takenInFull c a (s.allow fuel patience) =
      ((takenInFull c a s).1, (takenInFull c a s).2.allow fuel patience) := by
  simp only [takenInFull, State.allow_isHalted]
  split <;> rfl

/-- A parse that is not stopped is the same parse under looser limits, whatever the results are
that it starts from. -/
theorem Program.parseWith_looser (hlooser : o.Looser o') {known : Results} {traced : Bool}
    (hlive : (p.parseWith o known traced text).halted = none) :
    p.parseWith o' known traced text = p.parseWith o known traced text := by
  obtain ⟨fuel, hfuel⟩ := hlooser.fuel.exists_raised
  obtain ⟨patience, hpatience⟩ := hlooser.patience.exists_raised
  have hstart : o'.startState known traced = (o.startState known traced).allow fuel patience := by
    simp only [ParseOptions.startState, State.allow, hfuel, hpatience]
  obtain ⟨a, points, s, hrounds, hparse⟩ := p.exists_rounds o known traced text
  obtain ⟨a', points', s', hrounds', hparse'⟩ := p.exists_rounds o' known traced text
  rw [hparse] at hlive
  have hallowed := hrounds.allow hlooser hlive fuel patience
  rw [← hstart] at hallowed
  have hsame := hallowed.eq_runRounds.symm.trans hrounds'.eq_runRounds
  simp only [Prod.mk.injEq] at hsame
  obtain ⟨⟨rfl, rfl⟩, rfl⟩ := hsame
  rw [hparse', hparse]
  simp only [hlooser.roundSetting_eq, takenInFull_allow, State.allow_halted, State.allow_memo,
    State.allow_log]

/-- A parse that goes on to its end under some limits does so under looser ones, and comes to the
same: the same tree, errors, error points and kept results. -/
theorem Program.parse_looser (hlooser : o.Looser o') {text : String}
    (hlive : (p.parse o text).halted = none) : p.parse o' text = p.parse o text :=
  parseWith_looser hlooser hlive

end

/-- Limits that a parse of a few letters stays within. -/
def ParseOptions.tight : ParseOptions where
  fuel := some 14
  patience := some 2
  recursionLimit := 2
  memoize := false

/-- A few letters are parsed under tight limits to the end, and under the usual ones to the same. -/
theorem Program.parse_looser_letters :
    (letters.parse .tight "aab").halted = none ∧
      letters.parse { memoize := false } "aab" = letters.parse .tight "aab" := by
  have hlive : (letters.parse .tight "aab").halted = none := by decide +kernel
  exact ⟨hlive, parse_looser (ParseOptions.tight.looser_unlimited (by decide)) hlive⟩

end Packrat
