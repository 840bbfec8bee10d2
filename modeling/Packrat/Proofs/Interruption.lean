import Packrat.Proofs.Parse.Interruption
import Packrat.Proofs.Parse.Meeting
import Packrat.Proofs.Program.Compiled

/-!
# What a parse that was stopped keeps

A parse of one round that is stopped keeps the leaves that were taken on the way to the place where
a limit was met, and what is left behind this place and the trivia there becomes an error. This
needs that every repetition that is open there has had enough iterations: one that has not fails
although the parse was stopped, and gives back what it took.
-/

namespace Packrat

variable {p : Program} {o : ParseOptions} {text : Text}

/-- What was taken up to a position, the trivia there, and what is left over behind it as an
error. -/
def Program.closedAround (p : Program) (text : Text) (position : Nat) (kept : List Tree) : Taken :=
  let c := p.plain text
  let taken : Taken := ⟨(c.trivia position).stop, kept ++ (c.trivia position).leaves, []⟩
  if taken.stop < text.size then taken.andThen (c.takenError taken.stop text.size []) else taken

/-- The errors of a parse that was stopped are in order: there is one at most. -/
theorem Program.mergeSort_closedAround (p : Program) (text : Text) (position : Nat)
    (kept : List Tree) (le : SyntaxError → SyntaxError → Bool) :
    (p.closedAround text position kept).errors.mergeSort le =
      (p.closedAround text position kept).errors := by
  simp only [closedAround]
  split
  · simp [Taken.andThen, Setting.takenError]
  · simp

/-- The moment at which a parse starts. -/
abbrev Program.firstMoment (p : Program) (o : ParseOptions) (text : Text) : Moment :=
  p.roundMoment o text 1 [] (o.startState {} false)

/-- In a parse that was stopped nothing is expected before what is left over. -/
theorem takenInFull_of_halted {c : Setting} {t : Taken} {notes : Notes} {s : State}
    (h : s.halted ≠ none) :
    (takenInFull c ⟨some t, notes⟩ s).1 =
      if t.stop < c.text.size then t.andThen (c.takenError t.stop c.text.size []) else t := by
  have hhalted : s.isHalted = true := by
    rw [State.isHalted, Option.isSome_iff_ne_none]
    exact h
  unfold takenInFull
  simp only [Option.getD_some, Option.isNone_some, Bool.false_or, decide_eq_true_eq, hhalted,
    Bool.not_true, Bool.and_false, Bool.false_eq_true, if_false]
  split
  · cases notes.far <;> rfl
  · rfl

/-- What a round that was stopped took is closed around where it ends. -/
theorem takenInFull_closedAround (c : Setting) (notes : Notes) {t : Taken} {s : State}
    (h : s.halted ≠ none) (herrors : t.errors = []) :
    (takenInFull c ⟨some (t.andThen
      { stop := (c.trivia t.stop).stop, trees := (c.trivia t.stop).leaves }), notes⟩ s).1 =
      c.program.closedAround c.text t.stop t.trees := by
  rw [takenInFull_of_halted h, Program.closedAround, Setting.trivia_plain]
  simp only [Taken.andThen, herrors]
  rfl

/-- A parse of one round is its first one. -/
theorem Rounds.of_single {left : Nat} {points points' : List Nat} {s s' : State} {a : Answer}
    (h : Rounds p o text left 1 points s a points' s') (hrounds : o.maxRounds = some 1) :
    points' = points ∧ runRound (roundSetting p o text points) o.recursionLimit
      (s.record (.round 1 (roundSetting p o text points).points)) = (a, s') := by
  cases h with
  | last round final => exact ⟨rfl, round⟩
  | next round more rest => simp [nextPoint?, hrounds] at more

/-- The start rule comes to something in the first round, and a parse of one round is stopped if
it is stopped there. -/
theorem Program.exists_start (p : Program) (text : String) (hrounds : o.maxRounds = some 1) :
    ∃ a s, Run (roundSetting p o (.ofString text) []) o.recursionLimit (.rule p.start) 0
        (p.firstMoment o (.ofString text)).state (.answer a) s ∧
      (p.parse o text).halted = s.halted := by
  obtain ⟨a, points, s, hrun, hparse⟩ := p.exists_rounds o {} false (Text.ofString text)
  obtain ⟨rfl, hround⟩ := hrun.of_single hrounds
  obtain ⟨a₀, hrule, -⟩ := runRound_eq.mp hround
  refine ⟨a₀, s, hrule, ?_⟩
  rw [parse, hparse]

/-- If the start rule closes around a place, the parse does so. -/
theorem Program.parse_closedAround {text : String} {i : Interruption}
    (hrounds : o.maxRounds = some 1)
    (hclosed : (p.firstMoment o (.ofString text)).ClosesAround i) :
    ∃ kept, Tree.fringeAmong kept = i.leaves ∧
      (p.parse o text).tree =
        .node p.startRule.kind (p.closedAround (.ofString text) i.position kept).trees ∧
      (p.parse o text).errors = (p.closedAround (.ofString text) i.position kept).errors := by
  obtain ⟨t, notes, s', hrule, hhalted, hstop, hfringe⟩ := hclosed
  obtain ⟨a, points, s, hrun, hparse⟩ := p.exists_rounds o {} false (Text.ofString text)
  obtain ⟨rfl, hround⟩ := hrun.of_single hrounds
  obtain ⟨a₀, hrule', rfl⟩ := runRound_eq.mp hround
  have hsame := hrule.eq_runJob.symm.trans hrule'.eq_runJob
  simp only [Prod.mk.injEq, Outcome.answer.injEq] at hsame
  obtain ⟨rfl, rfl⟩ := hsame
  -- without recovery nothing is reported before what is left over
  have hregular : (p.firstMoment o (.ofString text)).Regular p (.ofString text) 0 :=
    RoundStarts.first.regular
  have hfits := (hrule.fits hregular.ready hregular.fits).1
  have herrors : t.errors = [] := (hfits.quiet (Setting.quiet_of_strict rfl) t rfl).2
  have hfull := takenInFull_closedAround (roundSetting p o (.ofString text) []) notes hhalted
    herrors
  rw [hstop] at hfull
  refine ⟨t.trees, hfringe, ?_, ?_⟩
  · rw [parse, hparse]
    simp only [Option.map_some, hstop, hfull]
    rfl
  · rw [parse, hparse]
    simp only [Option.map_some, hstop, hfull]
    exact p.mergeSort_closedAround _ _ _ _

/-- What a parse of one round keeps when it is stopped. Some limit is met in its start rule. Every
evaluation in progress in which all repetitions that are open have had enough iterations succeeds
with exactly what was taken in it; if this holds of the start rule, all leaves that were taken on
the way stay in the tree, and what is left over behind the trivia that follows is its last node. -/
theorem Program.parse_interrupted {text : String} (hrounds : o.maxRounds = some 1)
    (hhalted : (p.parse o text).halted ≠ none) :
    (∃ i m, (p.firstMoment o (.ofString text)).Interrupted i ∧
      Relation.ReflTransGen Moment.Runs (p.firstMoment o (.ofString text)) m ∧ m.Strikes ∧
      m.position = i.position) ∧
    (∀ m i, p.Meets o (.ofString text) m → m.Interrupted i → i.Enough → m.ClosesAround i) ∧
    ∀ i, (p.firstMoment o (.ofString text)).Interrupted i → i.Enough →
      ∃ kept, Tree.fringeAmong kept = i.leaves ∧
        (p.parse o text).tree =
          .node p.startRule.kind (p.closedAround (.ofString text) i.position kept).trees ∧
        (p.parse o text).errors = (p.closedAround (.ofString text) i.position kept).errors := by
  obtain ⟨height, hheight⟩ := p.exists_height
  have hcloses : ∀ m i, p.Meets o (.ofString text) m → m.Interrupted i → i.Enough →
      m.ClosesAround i := by
    intro m i hmeets hinterrupted henough
    have hregular := hmeets.regular hheight
    exact hinterrupted.closesAround hregular.ready hregular.fits henough
  refine ⟨?_, hcloses, fun i hinterrupted henough => ?_⟩
  · obtain ⟨a, s, hrule, hsame⟩ := p.exists_start text hrounds
    rw [hsame] at hhalted
    obtain ⟨i, hinterrupted⟩ := hrule.exists_interruption rfl rfl rfl hhalted
    obtain ⟨m, hreach, hstrikes, hposition⟩ := hinterrupted.exists_strikes
    exact ⟨i, m, hinterrupted, hreach, hstrikes, hposition⟩
  · have hmeets : p.Meets o (.ofString text) (p.firstMoment o (.ofString text)) :=
      ⟨1, [], _, .first, .refl⟩
    exact parse_closedAround hrounds (hcloses _ i hmeets hinterrupted henough)

/-- Limits that stop a parse of a few letters behind the second one. -/
def ParseOptions.brief : ParseOptions where
  fuel := some 3
  maxRounds := some 1
  memoize := false

/-- The state of such a parse with some fuel left. -/
def State.brief (fuel : Nat) : State where
  memo := {}
  fuel := some fuel
  patience := none
  halted := none
  log := none

/-- The only rule of the letters is stopped in its third iteration, and needs none. -/
theorem Program.interrupted_letters :
    (letters.firstMoment .brief (.ofString "aab")).Interrupted
      ⟨2, [(3, "a"), (3, "a")], [(0, 2)]⟩ := by
  have hfirst : Run (roundSetting letters .brief (.ofString "aab") []) 1023
      (.step (.token 0 3 false)) 0 (.brief 2)
      (.answer ⟨some ⟨1, [.leaf 3 "a"], []⟩, .seen 1⟩) (.brief 1) := run_iff.mpr rfl
  have hsecond : Run (roundSetting letters .brief (.ofString "aab") []) 1023
      (.step (.token 0 3 false)) 1 (.brief 1)
      (.answer ⟨some ⟨2, [.leaf 3 "a"], []⟩, .seen 2⟩) (.brief 0) := run_iff.mpr rfl
  have hthird : Moment.Strikes ⟨roundSetting letters .brief (.ofString "aab") [], 1023,
      .step (.token 0 3 false), 2, .brief 0⟩ := .outOfFuel rfl rfl
  exact .body rfl rfl (.ticked rfl (.repetition
    (.nextIteration rfl hfirst (by decide) (.nextIteration rfl hsecond (by decide)
      (.iteration rfl (.here hthird))))))

/-- Stopped behind the second letter, the parse keeps both and makes an error of the rest. -/
theorem Program.parse_interrupted_letters :
    (letters.parse .brief "aab").halted ≠ none ∧
      ∃ kept, Tree.fringeAmong kept = [(3, "a"), (3, "a")] ∧
        (letters.parse .brief "aab").tree = .node 2 (kept ++ [.node 0 [.leaf 1 "b"]]) ∧
        (letters.parse .brief "aab").errors = [⟨2, 3, .unexpected, []⟩] := by
  have hhalted : (letters.parse .brief "aab").halted ≠ none := by decide +kernel
  obtain ⟨-, -, hclosed⟩ := parse_interrupted rfl hhalted
  obtain ⟨kept, hkept, htree, herrors⟩ := hclosed _ interrupted_letters (by decide)
  have hrest : letters.closedAround (.ofString "aab") 2 kept =
      ⟨3, kept ++ [] ++ [.node 0 [.leaf 1 "b"]], [⟨2, 3, .unexpected, []⟩]⟩ := rfl
  rw [hrest, List.append_nil] at htree
  rw [hrest] at herrors
  exact ⟨hhalted, kept, hkept, htree, herrors⟩

end Packrat
