import Packrat.Proofs.Parse.Depth
import Packrat.Proofs.Parse.Lossless
import Packrat.Proofs.Strict.Soundness

/-!
# The moments of a parse

A parse meets a moment if one of its rounds comes to it. What is regular at every moment that is
met, whatever the grammar is, is told by one induction over the rounds and one along a round.
-/

namespace Packrat

/-- `p.RoundStarts o text number points s` says that the round of a number of a parse starts with
some error points in a state. -/
inductive Program.RoundStarts (p : Program) (o : ParseOptions) (text : Text) :
    (number : Nat) → List Nat → State → Prop
  | first : RoundStarts p o text 1 [] (o.startState {} false)
  | next {number points s a s' point} (before : RoundStarts p o text number points s)
      (round : runRound (roundSetting p o text points) o.recursionLimit
        (s.record (.round number (roundSetting p o text points).points)) = (a, s'))
      (more : nextPoint? o text points number a s' = some point) :
      RoundStarts p o text (number + 1) (points ++ [point]) s'.settle

/-- The moment at which a round runs the start rule. -/
def Program.roundMoment (p : Program) (o : ParseOptions) (text : Text) (number : Nat)
    (points : List Nat) (s : State) : Moment :=
  ⟨roundSetting p o text points, o.recursionLimit, .rule p.start, 0,
    s.record (.round number (roundSetting p o text points).points)⟩

/-- Whether a parse of a text meets a moment, in some round. -/
def Program.Meets (p : Program) (o : ParseOptions) (text : Text) (m : Moment) : Prop :=
  ∃ number points s, p.RoundStarts o text number points s ∧
    Relation.ReflTransGen Moment.Runs (p.roundMoment o text number points s) m

namespace Moment

/-- What holds at all moments in a parse of a text by a program, where the bodies of rules have at
most some height. -/
structure Regular (p : Program) (text : Text) (height : Nat) (m : Moment) : Prop where
  program : m.setting.program = p
  text : m.setting.text = text
  ready : m.job.Ready m.setting m.position
  fits : m.state.memo.Fits m.setting.text m.setting.points
  valid : m.state.memo.Valid m.setting.program m.setting.text
  within : m.job.Within height
  searches : m.job.Searches → m.setting.recovering = true

/-- Only what recovers searches. -/
theorem Runs.searches {a b : Moment} (h : a.Runs b)
    (ha : a.job.Searches → a.setting.recovering = true) :
    b.job.Searches → b.setting.recovering = true := by
  intro hsearches
  cases h with
  | seqScan head armed => exact (Setting.of_recoverable? armed).1
  | iterationScan _ _ _ armed => exact (Setting.of_recoverable? armed).1
  | look => exact ha trivial
  | searchNext => exact ha trivial
  | _ => exact hsearches.elim

variable {p : Program} {text : Text} {height : Nat}

/-- What is run at a regular moment is run at regular ones. -/
theorem Regular.runs {a b : Moment} (h : Regular p text height a)
    (hheight : ∀ rule, sizeOf (p.rule rule).body ≤ height) (hruns : a.Runs b) :
    Regular p text height b := by
  obtain ⟨rfl, rfl, hready, hfits, hvalid, hwithin, hsearches⟩ := h
  have hkeeps : a.setting.Keeps (Memo.Valid a.setting.program a.setting.text) :=
    fun hrun hready hfits hvalid => (hrun.derived hready hfits hvalid).2
  obtain ⟨hready', hfits', hvalid'⟩ := hruns.keeps hready hfits hkeeps hvalid
  have hwithin' := hruns.within hwithin fun rule _ => hheight rule
  have hsearches' := hruns.searches hsearches
  rcases b with ⟨c, d, job, p, s⟩
  rcases hruns.setting with hsame | hstrict
  · obtain rfl : c = a.setting := hsame
    exact ⟨rfl, rfl, hready', hfits', hvalid', hwithin', hsearches'⟩
  · obtain rfl : c = a.setting.strict := hstrict
    exact ⟨rfl, rfl, hready', hfits', hvalid', hwithin', hsearches'⟩

end Moment

namespace Program

variable {p : Program} {o : ParseOptions} {text : Text} {height : Nat}

/-- Every round starts at a regular moment. -/
theorem RoundStarts.regular {number : Nat} {points : List Nat} {s : State}
    (h : p.RoundStarts o text number points s) :
    (p.roundMoment o text number points s).Regular p text height := by
  induction h with
  | first =>
    refine ⟨rfl, rfl, text.isBoundary_zero, ?_, ?_, trivial, fun h => h.elim⟩
    · exact ⟨by simp [Results.Fit, roundMoment, ParseOptions.startState],
        by simp [roundMoment, ParseOptions.startState]⟩
    · simp [Memo.Valid, roundMoment, ParseOptions.startState]
  | next before round more ih =>
    obtain ⟨a₀, hrun, -⟩ := runRound_eq.mp round
    have hfits := (hrun.fits ih.ready ih.fits).2
    have hvalid := (hrun.derived ih.ready ih.fits ih.valid).2
    exact ⟨rfl, rfl, text.isBoundary_zero, hfits.settle _, hvalid.settle, trivial, fun h => h.elim⟩

/-- Every moment that a parse meets is regular. -/
theorem Meets.regular (hheight : ∀ rule, sizeOf (p.rule rule).body ≤ height) {m : Moment}
    (h : p.Meets o text m) : m.Regular p text height := by
  obtain ⟨number, points, s, hstarts, hreach⟩ := h
  induction hreach with
  | refl => exact hstarts.regular
  | tail _ hruns ih => exact ih.runs hheight hruns

end Program

end Packrat
