import Packrat.Proofs.Parse.Meeting
import Packrat.Proofs.Program.Computed

/-!
# Recovery comes to an end

A sequence that was recovered from may end behind its first member with nothing taken, so the
absence of left recursion is not enough for recovery to end by itself. It is if the grammar in
which every sequence may end so early has no left recursion either: then no rule that is run with
recovery is run for another call of it at the same position, and under some recursion limit a
parse of a text that nothing else limits goes on to its end.
-/

namespace Packrat

variable {p : Program} {o : ParseOptions} {text : Text} {number : Nat} {points : List Nat}
  {s : State}

/-- Every round starts at a sound moment. -/
theorem Program.RoundStarts.sound (layers : p.Layering true)
    (h : p.RoundStarts o text number points s) :
    Moment.Sound layers text (p.roundMoment o text number points s) := by
  induction h with
  | first =>
    refine ⟨rfl, rfl, fun _ => rfl, text.isBoundary_zero, ?_, ?_⟩
    · exact ⟨by simp [Results.Fit, roundMoment, ParseOptions.startState],
        by simp [roundMoment, ParseOptions.startState]⟩
    · simp [Memo.Idles, Memo.Holds, roundMoment, ParseOptions.startState]
  | next before round more ih =>
    obtain ⟨a₀, hrun, -⟩ := runRound_eq.mp round
    have hafter : Moment.Sound layers text ⟨_, o.recursionLimit, .rule p.start, 0, _⟩ :=
      ih.after hrun text.isBoundary_zero rfl
    refine ⟨rfl, rfl, fun _ => rfl, text.isBoundary_zero, hafter.fits.settle _, ?_⟩
    exact fun key e he => hafter.idles key e he.of_settle

/-- Every moment that a parse meets is sound, where the rules have layers. -/
theorem Program.Meets.sound (layers : p.Layering true) {m : Moment} (h : p.Meets o text m) :
    Moment.Sound layers text m := by
  obtain ⟨number, points, s, hstarts, hreach⟩ := h
  induction hreach with
  | refl => exact hstarts.sound layers
  | tail _ hruns ih => exact ih.runs hruns

/-- A rule that is run for another call of it at the same position is run without recovery for one
with it. -/
theorem Program.Meets.not_nested (layers : p.Layering true) {a b : Moment} {rule : Nat}
    (h : p.Meets o text a) (hnested : Relation.TransGen Moment.Runs a b) (ha : a.job = .rule rule)
    (hb : b.job = .rule rule) (hposition : a.position = b.position) :
    a.setting.recovering = true ∧ b.setting.recovering = false := by
  have hlt := (h.sound layers).level_lt hnested ha hb
  rw [← hposition] at hlt
  cases hrec : a.setting.recovering <;> cases hrec' : b.setting.recovering <;>
    simp only [hrec, hrec', Nat.lt_irrefl] at hlt
  · exact absurd (Nat.lt_trans hlt (Nat.lt_of_lt_of_le (layers.level_lt_floor_recovering rule)
      (Nat.le_add_right _ _))) (Nat.lt_irrefl _)
  · exact ⟨rfl, rfl⟩

/-- A round in which operations may nest deeply enough does not stop a parse that nothing else
limits. -/
theorem runRound_unlimited {early : Bool} {layers : p.Layering early} {height : Nat} {s' : State}
    {a : Answer}
    (h : runRound (roundSetting p o text points) o.recursionLimit
      (s.record (.round number (roundSetting p o text points).points)) = (a, s'))
    (hsound : Moment.Sound layers text (p.roundMoment o text number points s))
    (hheight : ∀ rule, sizeOf (p.rule rule).body ≤ height)
    (hlimit : layers.ceiling text * (height + 1) ≤ o.recursionLimit) (hs : s.Unlimited) :
    s'.Unlimited := by
  obtain ⟨a₀, hrun, -⟩ := runRound_eq.mp h
  have hlevel : ∀ rule, layers.level text (roundSetting p o text points).recovering 0 rule <
      layers.ceiling text := layers.level_lt_ceiling
  have hbelow : Moment.Below layers text (layers.ceiling text)
      (p.roundMoment o text number points s) :=
    ⟨Nat.le_of_lt (Nat.lt_of_le_of_lt (Nat.le_add_right _ _) (hlevel 0)),
      fun rule _ => hlevel rule, nofun⟩
  exact hrun.unlimited hheight ⟨hsound, ⟨_, 0, hbelow, trivial, hlimit⟩, hs.record _⟩

/-- Rounds in which operations may nest deeply enough do not stop a parse that nothing else
limits. -/
theorem Rounds.unlimited {layers : p.Layering true} {height left : Nat} {s' : State}
    {points' : List Nat} {a : Answer} (h : Rounds p o text left number points s a points' s')
    (hheight : ∀ rule, sizeOf (p.rule rule).body ≤ height)
    (hlimit : layers.ceiling text * (height + 1) ≤ o.recursionLimit)
    (hstarts : p.RoundStarts o text number points s) (hs : s.Unlimited) : s'.Unlimited := by
  induction h with
  | last round final =>
    exact runRound_unlimited round (hstarts.sound layers) hheight hlimit hs
  | next round more rest ih =>
    have hs₁ := runRound_unlimited round (hstarts.sound layers) hheight hlimit hs
    exact ih (.next hstarts round more) ⟨hs₁.live, hs₁.fuel, hs₁.patience⟩

/-- Under some recursion limit a parse that nothing else limits goes on to its end, if the rules of
the program have layers. -/
theorem Program.Layering.exists_limit (layers : p.Layering true) (text : String) :
    ∃ limit, ∀ o : ParseOptions, o.fuel = none → o.patience = none → limit ≤ o.recursionLimit →
      (p.parse o text).halted = none := by
  obtain ⟨height, hheight⟩ := p.exists_height
  refine ⟨layers.ceiling (Text.ofString text) * (height + 1), fun o hfuel hpatience hlimit => ?_⟩
  obtain ⟨a, points, s, hrounds, hparse⟩ := p.exists_rounds o {} false (Text.ofString text)
  rw [parse, hparse]
  exact (hrounds.unlimited hheight hlimit .first ⟨rfl, hfuel, hpatience⟩).live

/-- Whether a rule that is run with recovery in a parse is run with recovery for another call of it
at the same position. -/
def Program.RecoversInPlace (p : Program) (o : ParseOptions) (text : Text) : Prop :=
  ∃ a b rule, p.Meets o text a ∧ Relation.TransGen Moment.Runs a b ∧ a.job = .rule rule ∧
    b.job = .rule rule ∧ a.position = b.position ∧ a.setting.recovering = true ∧
    b.setting.recovering = true

/-- Recovery comes to an end by itself, if the grammar has no left recursion even where every
sequence may end behind its first member. -/
theorem Program.CompiledFrom.recovery_ends {g : Grammar} {start : Nat}
    (h : p.CompiledFrom g start) (hg : g.JudgesEmpty)
    (hcheck : (g.endingEarly true).checkLeftRecursion (g.endingEarly true).nullability = .ok ())
    (text : String) :
    (∃ limit, ∀ o : ParseOptions, o.fuel = none → o.patience = none → limit ≤ o.recursionLimit →
      (p.parse o text).halted = none) ∧
    ∀ o, ¬ p.RecoversInPlace o (Text.ofString text) := by
  obtain ⟨layers⟩ := h.implements.exists_layering hg hcheck
  refine ⟨layers.exists_limit text, fun o hplace => ?_⟩
  obtain ⟨a, b, rule, hmeets, hnested, ha, hb, hposition, -, hrecovering⟩ := hplace
  have hstrict := (hmeets.not_nested layers hnested ha hb hposition).2
  exact absurd (hstrict.symm.trans hrecovering) (by decide)

/-- A grammar that passes the stronger check, and a text that takes recovery as it lacks its last
character. -/
theorem Program.CompiledFrom.recovery_ends_hoisting :
    Grammar.hoisting.JudgesEmpty ∧
      (Grammar.hoisting.endingEarly true).checkLeftRecursion
        (Grammar.hoisting.endingEarly true).nullability = .ok () ∧
      (∃ limit, ∀ o : ParseOptions, o.fuel = none → o.patience = none →
        limit ≤ o.recursionLimit → (Program.hoisting.parse o "yx").halted = none) ∧
      ∀ o, ¬ Program.hoisting.RecoversInPlace o (Text.ofString "yx") := by
  have hjudges : Grammar.hoisting.JudgesEmpty := by
    intro rule hrule
    refine Rule.judgesEmpty_of_literals fun leaf hleaf => ?_
    simp only [Grammar.hoisting, List.mem_cons, List.not_mem_nil, or_false] at hrule
    rcases hrule with rfl | rfl | rfl <;>
      simp only [Rule.leaves, Rule.leavesAmong, List.append_nil, List.nil_append,
        List.singleton_append, List.mem_cons, List.not_mem_nil, or_false] at hleaf
    · exact ⟨_, hleaf, by decide⟩
    · rcases hleaf with rfl | rfl
      · exact ⟨_, rfl, by decide⟩
      · exact ⟨_, rfl, by decide⟩
    · exact ⟨_, hleaf, by decide⟩
  have hcheck : (Grammar.hoisting.endingEarly true).checkLeftRecursion
      (Grammar.hoisting.endingEarly true).nullability = .ok () := by decide +kernel
  exact ⟨hjudges, hcheck, recovery_ends hoisting_compiledFrom hjudges hcheck "yx"⟩

/-- The first operation of a sequence is run, in a parse that goes on if it does behind the
sequence. -/
theorem Run.exists_head_seq {c : Setting} {d p : Nat} {step : Step} {rest : List Step}
    {isFirst : Bool} {s s' : State} {out : Outcome}
    (h : Run c d (.seq (step :: rest) 0 isFirst) p s out s') (hlive : s'.halted = none) :
    ∃ a s₁, Run c d (.step step) p s (.answer a) s₁ ∧ s₁.halted = none := by
  cases h with
  | seqTook head tail => exact ⟨_, _, head, tail.live hlive⟩
  | seqFailed head => exact ⟨_, _, head, hlive⟩
  | seqEnded head _ scan => exact ⟨_, _, head, scan.live (by simpa using hlive)⟩
  | seqResumed head _ scan _ tail =>
    exact ⟨_, _, head, scan.live (by simpa using tail.live hlive)⟩

/-- So is the first alternative of a choice. -/
theorem Run.exists_head_choice {c : Setting} {d p : Nat} {step : Step} {rest : List Step}
    {s s' : State} {out : Outcome} (h : Run c d (.choice (step :: rest)) p s out s')
    (hlive : s'.halted = none) :
    ∃ a s₁, Run c d (.step step) p s (.answer a) s₁ ∧ s₁.halted = none := by
  cases h with
  | choiceTook head => exact ⟨_, _, head, hlive⟩
  | choiceNext head tail => exact ⟨_, _, head, by simpa using tail.live hlive⟩

/-- A grammar without left recursion whose rule begins with a sequence that may end early, and goes
on with the rule itself. -/
def Grammar.recurring : Grammar where
  name := "recurring"
  rules := [("s", .seq [.seq [.optional (.literal "x"), .literal "y"], .optional (.symbol "s")])]

/-- What its analysis tells. -/
def Analysis.recurring : Analysis where
  start := 0
  nullable := [false]
  lexical := [false]
  reachable := [true]
  warnings := []

namespace Program

/-- The program of this grammar. -/
def recurring : Program where
  name := "recurring"
  kinds := #[.error, .skipped, ⟨"s", true, .node⟩, ⟨"x", false, .token⟩, ⟨"y", false, .token⟩]
  rules := #[⟨"s", 2, .seq [.seq [.choice [.token 0 3 false, .blank], .token 1 4 false],
    .choice [.call 0 none, .blank]], false, false, false⟩]
  terminals := #[.literal "x", .literal "y"]
  extras := []
  sync := []
  start := 0
  fingerprint := Analysed.fingerprint ⟨.recurring, .recurring⟩

/-- The program is compiled from the grammar in which a rule goes on with itself. -/
theorem recurring_compiledFrom : recurring.CompiledFrom .recurring 0 :=
  compiledFrom_of_contents .recurring
    { kinds := [.error, .skipped, ⟨"s", true, .node⟩, ⟨"x", false, .token⟩,
        ⟨"y", false, .token⟩]
      forms := [.literal "x", .literal "y"]
      terminals := [.literal "x", .literal "y"] } rfl rfl rfl

/-- What is fixed in a round on the empty text. -/
def recurringSetting (memoize : Bool) (points : List Nat) : Setting where
  program := recurring
  text := .ofString ""
  memoize := memoize
  points := points
  recovering := !points.isEmpty

/-- A state in which nothing limits the parse but how deeply operations may nest. -/
def recurringState (memo : Memo) : State where
  memo := memo
  fuel := none
  patience := none
  halted := none
  log := none

section

variable {memoize : Bool} {memo : Memo} {depth : Nat} {a : Answer} {s : State} {out : Outcome}

/-- Without recovery the rule fails at the end of the text, where it has looked for a character. -/
theorem recurring_fails
    (h : evaluate depth (recurringSetting memoize []) (recurring.rule 0).body 0
      (recurringState memo) = (a, s)) (hlive : s.halted = none) :
    a.taken = none ∧ a.notes.frontier = some 0 ∧ a.notes.reach = 1 ∧ s = recurringState memo := by
  match depth with
  | 0 | 1 | 2 | 3 =>
    cases h
    cases hlive
  | depth + 4 =>
    cases h
    exact ⟨rfl, rfl, rfl, rfl⟩

/-- With recovery its first member takes nothing. -/
theorem recurring_recovers
    (h : evaluate depth (recurringSetting memoize [0])
      (.seq [.choice [.token 0 3 false, .blank], .token 1 4 false]) 0 (recurringState memo) =
        (a, s)) (hlive : s.halted = none) :
    (∃ t, a.taken = some t ∧ t.stop = 0) ∧ s = recurringState memo := by
  match depth with
  | 0 | 1 | 2 =>
    cases h
    cases hlive
  | depth + 3 =>
    cases h
    exact ⟨⟨_, rfl, rfl⟩, rfl⟩

/-- Its second member runs the rule where it starts, with less room for nesting. -/
theorem recurring_calls
    (h : Run (recurringSetting memoize [0]) depth (.seq [.choice [.call 0 none, .blank]] 0 false) 0
      (recurringState memo) out s) (hlive : s.halted = none) :
    ∃ less < depth, ∃ a s', Run (recurringSetting memoize [0]) less (.rule 0) 0
      (recurringState memo) (.answer a) s' ∧ s'.halted = none := by
  obtain ⟨a₁, s₁, hchoice, hlive₁⟩ := h.exists_head_seq hlive
  cases hchoice with
  | refused tick => cases tick
  | tooDeep => simp at hlive₁
  | ticked tick rest =>
    cases tick
    cases rest with
    | alternatives rest =>
      obtain ⟨a₂, s₂, hcall, hlive₂⟩ := rest.exists_head_choice hlive₁
      cases hcall with
      | refused tick => cases tick
      | tooDeep => simp at hlive₂
      | ticked tick rest =>
        cases tick
        cases rest with
        | call rest => exact ⟨_, by omega, _, _, rest, hlive₂⟩

/-- So the rule runs itself until there is no room for nesting, as nothing is kept of it before it
has come to an end. -/
theorem recurring_nests
    (hunknown : known? (recurringSetting memoize [0]) 0 0 (recurringState memo) = none)
    (h : Run (recurringSetting memoize [0]) depth (.rule 0) 0 (recurringState memo) (.answer a) s) :
    s.halted ≠ none := by
  induction depth using Nat.strong_induction_on generalizing a s with
  | _ depth ih =>
    intro hlive
    cases h with
    | cancelled ask => cases ask
    | hit ask known =>
      cases ask
      cases hunknown.symm.trans known
    | body ask unknown rest =>
      cases ask
      simp only [State.record_halted, keep_halted] at hlive
      cases rest with
      | refused tick => cases tick
      | tooDeep => simp at hlive
      | ticked tick rest =>
        cases tick
        cases rest with
        | members rest =>
          cases rest with
          | seqFailed head =>
            obtain ⟨⟨t, ht, -⟩, -⟩ := recurring_recovers (runJob_step_eq.mp head.eq_runJob) hlive
            cases ht
          | seqTook head tail =>
            obtain ⟨⟨t, ht, hstop⟩, rfl⟩ :=
              recurring_recovers (runJob_step_eq.mp head.eq_runJob) (tail.live hlive)
            cases ht
            rw [hstop] at tail
            obtain ⟨less, hless, a', s', hrule, hlive'⟩ := recurring_calls tail hlive
            exact ih less (by omega) hrule hlive'

/-- What the first round tells and keeps: a failure for which a character was looked for, so that
it does not hold when the place of the failure is an error point. -/
theorem recurring_first
    (h : Run (recurringSetting memoize []) depth (.rule 0) 0 (recurringState {}) (.answer a) s)
    (hlive : s.halted = none) :
    a.taken = none ∧ a.notes.frontier = some 0 ∧ ∃ memo, s.settle = recurringState memo ∧
      known? (recurringSetting memoize [0]) 0 0 (recurringState memo) = none := by
  cases h with
  | cancelled ask => cases ask
  | hit ask known =>
    cases ask
    simp [known?, Memo.find?, recurringSetting] at known
  | @body _ _ _ _ _ _ a s₂ ask unknown rest =>
    cases ask
    simp only [State.record_halted, keep_halted] at hlive
    obtain ⟨htaken, hfrontier, hreach, rfl⟩ :=
      recurring_fails (runJob_step_eq.mp rest.eq_runJob) hlive
    refine ⟨htaken, hfrontier, (keep (recurringSetting memoize []) 0 0 (a.entry 0)
      (recurringState {})).memo.settle, ?_, ?_⟩
    · cases memoize <;> rfl
    · cases memoize with
      | false => rfl
      | true =>
        simp [known?, Memo.find?, Memo.findClear?, keep, recurringState, State.remember,
          Memo.insert, Memo.settle, recurringSetting, State.isHalted, Answer.entry, hreach,
          anyBetween]

/-- The rounds of the example are run on the empty text. -/
theorem roundSetting_recurring (o : ParseOptions) {points : List Nat}
    (h : points.mergeSort = points) :
    roundSetting recurring o (.ofString "") points = recurringSetting o.memoize points := by
  simp only [roundSetting, recurringSetting, h]

end

/-- Without the stronger check recovery need not come to an end: under every recursion limit, the
parse of the empty text by this program is stopped. -/
theorem recurring_stopped (o : ParseOptions) (hfuel : o.fuel = none) (hpatience : o.patience = none)
    (hrounds : o.maxRounds = none) : (recurring.parse o "").halted ≠ none := by
  obtain ⟨a, points, s, hrun, hparse⟩ := recurring.exists_rounds o {} false (Text.ofString "")
  rw [parse, hparse]
  clear hparse
  intro hlive
  simp only at hlive
  have hstart : o.startState {} false = recurringState {} := by
    simp [ParseOptions.startState, recurringState, hfuel, hpatience]
  rw [hstart] at hrun
  -- as the text is empty there is one error point at most, so there are no more than two rounds
  cases hrun with
  | last round final =>
    rw [roundSetting_recurring o List.mergeSort_nil] at round
    obtain ⟨a₀, hrule, rfl⟩ := runRound_eq.mp round
    obtain ⟨htaken, -⟩ := recurring_first hrule hlive
    rcases final with hleft | hnone
    · cases hleft
    · simp [nextPoint?, htaken, hlive, hrounds, State.isHalted] at hnone
  | next round more rest =>
    obtain ⟨rfl, -, hlive₁, -⟩ := of_nextPoint? more
    rw [roundSetting_recurring o List.mergeSort_nil] at round
    obtain ⟨a₀, hrule, rfl⟩ := runRound_eq.mp round
    obtain ⟨htaken, hfrontier, memo, hsettle, hunknown⟩ := recurring_first hrule hlive₁
    simp only [Answer.point, htaken, hfrontier, Option.getD_some, Option.map_none,
      Option.getD_none, Nat.max_self, List.nil_append, hsettle] at rest
    cases rest with
    | last round =>
      rw [roundSetting_recurring o (List.mergeSort_singleton 0)] at round
      obtain ⟨a₁, hrule, -⟩ := runRound_eq.mp round
      exact recurring_nests hunknown hrule hlive

end Program

end Packrat
