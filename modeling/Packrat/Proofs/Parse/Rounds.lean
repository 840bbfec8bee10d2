import Packrat.Proofs.Parse.State

/-!
# Rounds as a relation

`Rounds` says of `runRounds` what `Run` says of the functions that it calls: a round is the last
one, or it tells a point and others follow it.
-/

namespace Packrat

/-- `Rounds p o text left number points s a points' s'` says that the rounds from the one of a
number on come to `a` with the error points `points'` and leave the state `s'`. -/
inductive Rounds (p : Program) (o : ParseOptions) (text : Text) :
    (left number : Nat) → List Nat → State → Answer → List Nat → State → Prop
  | last {left number points s a s'}
      (round : runRound (roundSetting p o text points) o.recursionLimit
        (s.record (.round number (roundSetting p o text points).points)) = (a, s'))
      (final : left = 0 ∨ nextPoint? o text points number a s' = none) :
      Rounds p o text left number points s a points s'
  | next {left number points s a s₁ point a' points' s'}
      (round : runRound (roundSetting p o text points) o.recursionLimit
        (s.record (.round number (roundSetting p o text points).points)) = (a, s₁))
      (more : nextPoint? o text points number a s₁ = some point)
      (rest : Rounds p o text left (number + 1) (points ++ [point]) s₁.settle a' points' s') :
      Rounds p o text (left + 1) number points s a' points' s'

section

variable {p : Program} {o : ParseOptions} {text : Text} {left number : Nat}
  {points points' : List Nat} {s s' : State} {a : Answer}

/-- Rounds of a parse are those that the parser runs. -/
theorem Rounds.eq_runRounds (h : Rounds p o text left number points s a points' s') :
    runRounds p o text left number points s = ((a, points'), s') := by
  induction h with
  | @last left number points s a s' round final =>
    rw [runRounds, round]
    cases left with
    | zero => rfl
    | succ left => simp [final.resolve_left (by simp)]
  | next round more rest ih =>
    rw [runRounds, round]
    simp only [more]
    exact ih

/-- The parser runs rounds of the parse. -/
theorem rounds_runRounds (p : Program) (o : ParseOptions) (text : Text) (left number : Nat)
    (points : List Nat) (s : State) :
    Rounds p o text left number points s (runRounds p o text left number points s).1.1
      (runRounds p o text left number points s).1.2
      (runRounds p o text left number points s).2 := by
  induction left generalizing number points s with
  | zero =>
    rw [runRounds]
    exact .last rfl (.inl rfl)
  | succ left ih =>
    rw [runRounds]
    rcases hround : runRound (roundSetting p o text points) o.recursionLimit
      (s.record (.round number (roundSetting p o text points).points)) with ⟨a, s₁⟩
    cases hnext : nextPoint? o text points number a s₁ with
    | none =>
      simp only [hnext]
      exact .last hround (.inr hnext)
    | some point =>
      simp only [hnext]
      exact .next hround hnext (ih _ _ _)

/-- `Rounds` is the graph of `runRounds`. -/
theorem rounds_iff :
    Rounds p o text left number points s a points' s' ↔
      runRounds p o text left number points s = ((a, points'), s') := by
  refine ⟨Rounds.eq_runRounds, fun h => ?_⟩
  have hrounds := rounds_runRounds p o text left number points s
  rwa [h] at hrounds

/-- A point for another round comes from a round that left some text over in a parse that goes
on. -/
theorem of_nextPoint? {point : Nat} (h : nextPoint? o text points number a s = some point) :
    point = a.point ∧ a.point ∉ points ∧ s.halted = none ∧
      a.taken.any (·.stop == text.size) = false := by
  simp only [nextPoint?] at h
  split at h
  · cases h
  · rename_i hnot
    simp only [Bool.or_eq_true, not_or, Bool.not_eq_true] at hnot
    obtain ⟨⟨⟨hcomplete, hhalted⟩, -⟩, hnew⟩ := hnot
    exact ⟨(Option.some.inj h).symm, by simpa using hnew, State.isHalted_eq_false.mp hhalted,
      hcomplete⟩

/-- Rounds only add error points. -/
theorem Rounds.prefix_points (h : Rounds p o text left number points s a points' s') :
    points <+: points' := by
  induction h with
  | last => exact List.prefix_rfl
  | next round more rest ih => exact (List.prefix_append _ _).trans ih

end

/-- The round of a rule and the trivia behind it. -/
theorem runRound_eq {c : Setting} {depth : Nat} {s s' : State} {a : Answer} :
    runRound c depth s = (a, s') ↔ ∃ a₀, Run c depth (.rule c.program.start) 0 s (.answer a₀) s' ∧
      a = ⟨a₀.taken.map fun t => t.andThen
        { stop := (c.trivia t.stop).stop, trees := (c.trivia t.stop).leaves }, a₀.notes⟩ := by
  simp only [run_iff, runJob_rule_eq, runRound]
  rcases runRule (evaluate depth) c c.program.start 0 s with ⟨⟨_ | t, notes⟩, s₁⟩
  · constructor
    · intro h
      cases h
      exact ⟨_, rfl, rfl⟩
    · rintro ⟨a₀, h, rfl⟩
      cases h
      rfl
  · constructor
    · intro h
      cases h
      exact ⟨_, rfl, rfl⟩
    · rintro ⟨a₀, h, rfl⟩
      cases h
      rfl

/-- The state in which a parse starts. -/
def ParseOptions.startState (o : ParseOptions) (known : Results) (traced : Bool) : State where
  memo := { strict := known }
  fuel := o.fuel
  patience := o.patience
  halted := none
  log := if traced then some [] else none

section

variable {c : Setting} {a : Answer} {s : State}

/-- The error for the text that is left stops no parse. -/
@[simp] theorem takenInFull_halted : (takenInFull c a s).2.halted = s.halted := by
  simp only [takenInFull]
  split <;> rfl

/-- The error for the text that is left does not touch what is kept. -/
@[simp] theorem takenInFull_memo : (takenInFull c a s).2.memo = s.memo := by
  simp only [takenInFull]
  split <;> rfl

end

/-- A parse reports what its last round took, with what was left over as an error. -/
theorem Program.exists_rounds (p : Program) (o : ParseOptions) (known : Results) (traced : Bool)
    (text : Text) :
    ∃ a points s, Rounds p o text (text.size + 1) 1 [] (o.startState known traced) a points s ∧
      p.parseWith o known traced text =
        { tree := .node p.startRule.kind
            (takenInFull (roundSetting p o text points) a s).1.trees
          errors := (takenInFull (roundSetting p o text points) a s).1.errors.mergeSort
            fun a b => a.start ≤ b.start
          halted := s.halted
          fingerprint := p.fingerprint
          results := s.memo.strict
          points := points
          log := ((takenInFull (roundSetting p o text points) a s).2.log.getD []).reverse } := by
  refine ⟨_, _, _, rounds_runRounds p o text _ _ _ _, ?_⟩
  simp only [parseWith, ParseOptions.startState, takenInFull_halted, takenInFull_memo]

end Packrat
