import Packrat.Proofs.Parse.Lossless
import Packrat.Proofs.Strict.Soundness

/-!
# Clean parses and accepted texts

A program accepts a text if its start rule is derived at the start of the text, without recovery,
and takes all of it up to trivia. A parse that goes on to its end finds this out in its first
round: the text is accepted if and only if there are no errors and no error point was found. The
second condition is not implied by the first one: a later round may recover from a failure in an
alternative that the first round committed to, give the alternative up with its errors, and take
all of the text by another one.
-/

namespace Packrat

/-- Whether the start rule is derived at the start of a text and takes, with the trivia behind it,
all of the text for some trees. -/
def Program.Accepts (g : Program) (text : Text) (trees : List Tree) : Prop :=
  ∃ t notes, Derives g text (fun _ => True) (.rule g.start) 0 ⟨some t, notes⟩ ∧
    ((g.plain text).trivia t.stop).stop = text.size ∧
    trees = t.trees ++ ((g.plain text).trivia t.stop).leaves

section

variable {g : Program} {o : ParseOptions} {text : Text} {s s' : State} {a : Answer}

/-- The start rule comes to what is derived for it in the first round of a parse that goes on. -/
theorem derives_of_startRule
    (h : Run (roundSetting g o text []) o.recursionLimit (.rule g.start) 0 s (.answer a) s')
    (hlive : s'.halted = none) (hmemo : s.memo = {}) :
    Derives g text (fun _ => True) (.rule g.start) 0 a.plain := by
  have hfits : s.memo.Fits text (roundSetting g o text []).points := by
    rw [hmemo]
    exact ⟨by simp [Results.Fit], by simp⟩
  have hvalid : s.memo.Valid g text := by
    rw [hmemo]
    simp [Memo.Valid]
  have hderived := (h.derived text.isBoundary_zero hfits hvalid).1 hlive _ rfl trivial
  exact (hderived (by simp [Setting.Quiet, roundSetting])).1.mono fun _ _ => trivial

/-- The first round in a parse that goes on comes to what is derived for the start rule. -/
theorem derives_of_runRound
    (h : runRound (roundSetting g o text []) o.recursionLimit s = (a, s'))
    (hlive : s'.halted = none) (hmemo : s.memo = {}) :
    ∃ a₀ : Answer, Derives g text (fun _ => True) (.rule g.start) 0 a₀.plain ∧
      a = ⟨a₀.taken.map fun t => t.andThen
        { stop := ((g.plain text).trivia t.stop).stop
          trees := ((g.plain text).trivia t.stop).leaves }, a₀.notes⟩ := by
  obtain ⟨a₀, hrun, rfl⟩ := runRound_eq.mp h
  refine ⟨a₀, derives_of_startRule hrun hlive hmemo, ?_⟩
  have htrivia : ∀ p, (roundSetting g o text []).trivia p = (g.plain text).trivia p := fun p =>
    (Setting.trivia_plain (roundSetting g o text []) p).symm
  simp only [htrivia]

/-- What a parse reports when its first round took all of the text. -/
theorem accepts_of_round {a₀ : Answer}
    (hderives : Derives g text (fun _ => True) (.rule g.start) 0 a₀.plain)
    (ha : a = ⟨a₀.taken.map fun t => t.andThen
      { stop := ((g.plain text).trivia t.stop).stop
        trees := ((g.plain text).trivia t.stop).leaves }, a₀.notes⟩) (trees : List Tree) :
    g.Accepts text trees ↔
      ∃ t, a.taken = some t ∧ t.stop = text.size ∧ t.trees = trees ∧ t.errors = [] := by
  constructor
  · rintro ⟨t, notes, haccepts, hstop, rfl⟩
    have hplain := hderives.unique haccepts
    have htaken : a₀.taken = some t := congrArg Answer.taken hplain
    have hquiet : (g.plain text).Quiet 0 notes.reach := by simp [Setting.Quiet, Program.plain]
    have herrors := ((haccepts.fits text.isBoundary_zero).quiet hquiet t rfl).2
    exact ⟨_, by rw [ha, htaken]; rfl, hstop, rfl, by simp [Taken.andThen, herrors]⟩
  · rintro ⟨u, hu, hstop, rfl, -⟩
    rw [ha] at hu
    obtain ⟨t, ht, rfl⟩ := Option.map_eq_some_iff.mp hu
    refine ⟨t, a₀.plain.notes, ?_, hstop, rfl⟩
    rw [← ht]
    exact hderives

/-- A last round that takes all of the text leaves nothing over. -/
theorem takenInFull_of_complete {c : Setting} {t : Taken} (ht : a.taken = some t)
    (hstop : c.text.size ≤ t.stop) : takenInFull c a s = (t, s) := by
  have hnot : ¬ t.stop < c.text.size := by omega
  simp [takenInFull, ht, hnot]

/-- There are no errors only if the last round took all of the text and made none. -/
theorem of_takenInFull_errors {c : Setting} (h : (takenInFull c a s).1.errors = []) :
    ∃ t, a.taken = some t ∧ c.text.size ≤ t.stop ∧ t.errors = [] := by
  cases ht : a.taken with
  | none => simp [takenInFull, ht, Taken.andThen, Setting.takenError] at h
  | some t =>
    by_cases hstop : c.text.size ≤ t.stop
    · rw [takenInFull_of_complete ht hstop] at h
      exact ⟨t, rfl, hstop, h⟩
    · have hlt : t.stop < c.text.size := by omega
      simp [takenInFull, ht, hlt, Taken.andThen, Setting.takenError] at h

end

/-- Only an empty list is empty when sorted. -/
theorem mergeSort_eq_nil {α : Type} {le : α → α → Bool} {l : List α} :
    l.mergeSort le = [] ↔ l = [] := by
  rw [← List.length_eq_zero_iff, List.length_mergeSort, List.length_eq_zero_iff]

/-- A parse that goes on to its end accepts the text, with the trees of its own tree, if and only
if it found no error point and made no errors. -/
theorem Program.accepts_iff {g : Program} {o : ParseOptions} {text : String}
    (hlive : (g.parse o text).halted = none) (trees : List Tree) :
    g.Accepts (Text.ofString text) trees ↔
      (g.parse o text).hasErrors = false ∧ (g.parse o text).points = [] ∧
        (g.parse o text).tree = .node g.startRule.kind trees := by
  obtain ⟨a, points, s, hrounds, hparse⟩ := g.exists_rounds o {} false (Text.ofString text)
  obtain ⟨hcovers, -⟩ := hrounds.fits
    ⟨by simp [Results.Fit, ParseOptions.startState], by simp [ParseOptions.startState]⟩
  rw [Program.parse, hparse] at hlive ⊢
  simp only [Parsed.hasErrors, Bool.not_eq_false', List.isEmpty_iff, mergeSort_eq_nil,
    Tree.node.injEq, true_and] at hlive ⊢
  cases hrounds with
  | last round final =>
    obtain ⟨a₀, hderives, ha⟩ := derives_of_runRound round hlive rfl
    rw [accepts_of_round hderives ha]
    constructor
    · rintro ⟨t, ht, hstop, rfl, herrors⟩
      rw [takenInFull_of_complete ht (Nat.le_of_eq hstop.symm)]
      exact ⟨herrors, rfl, rfl⟩
    · rintro ⟨herrors, -, htrees⟩
      obtain ⟨t, ht, hstop, herrors'⟩ := of_takenInFull_errors herrors
      rw [takenInFull_of_complete ht hstop] at htrees
      have hle := Text.le_size_of_isBoundary
        (Tree.TilesAll.isBoundary (Text.isBoundary_zero _) _ (hcovers t ht))
      exact ⟨t, ht, Nat.le_antisymm hle hstop, htrees, herrors'⟩
  | next round more rest =>
    obtain ⟨-, -, hlive₁, hpartial⟩ := of_nextPoint? more
    obtain ⟨a₀, hderives, ha⟩ := derives_of_runRound round hlive₁ rfl
    rw [accepts_of_round hderives ha]
    constructor
    · rintro ⟨t, ht, hstop, -⟩
      simp [ht, hstop] at hpartial
    · rintro ⟨-, rfl, -⟩
      have hprefix := rest.prefix_points
      simp at hprefix

/-- A program whose first alternative is given up in a recovering round, for the sake of a second
one that takes the same text. -/
def Program.overtaken : Program where
  name := "overtaken"
  kinds := #[.error, .skipped, ⟨"s", true, .node⟩, ⟨"a", false, .token⟩, ⟨"b", false, .token⟩,
    ⟨"abax", false, .token⟩]
  rules := #[⟨"s", 2, .choice [.seq [.repetition (.seq [.token 0 3 false, .token 1 4 false]) 0 none,
    .token 0 3 false], .token 2 5 false], false, false, false⟩]
  terminals := #[.literal "a", .literal "b", .literal "abax"]
  extras := []
  sync := []
  start := 0
  fingerprint := 0

/-- A text that is not accepted may be parsed without errors. -/
theorem Program.accepts_iff_overtaken :
    (overtaken.parse { memoize := false } "abax").halted = none ∧
      (overtaken.parse { memoize := false } "abax").hasErrors = false ∧
      ∀ trees, ¬ overtaken.Accepts (Text.ofString "abax") trees := by
  have hlive : (overtaken.parse { memoize := false } "abax").halted = none := by decide +kernel
  refine ⟨hlive, by decide +kernel, fun trees haccepts => ?_⟩
  have hpoints := ((accepts_iff hlive trees).mp haccepts).2.1
  exact absurd hpoints (by decide +kernel)

end Packrat
