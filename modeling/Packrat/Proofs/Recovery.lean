import Packrat.Proofs.ErrorNodes
import Packrat.Proofs.Parse.Recovery
import Packrat.Proofs.Program.Computed

/-!
# What recovery skips

What a round of a parse takes, and what it keeps for the next one, has error nodes from recoveries
only. Behind what the last round took at most one error node follows, over what was left over. So
every other error node covers no more of the text than its recovery had to skip.
-/

namespace Packrat

variable {p : Program} {o : ParseOptions} {text : Text} {number : Nat} {points : List Nat}
  {s : State}

/-- Rounds start with kept results in which all error nodes come from recoveries that the parse
meets. -/
theorem Program.RoundStarts.eachError (h : p.RoundStarts o text number points s)
    (hp : p.Reserves) : s.memo.EachError (p.Recovers o text) := by
  induction h with
  | first =>
    simp [Memo.EachError, Memo.Holds, ParseOptions.startState]
  | @next number points s a s' point before round more ih =>
    obtain ⟨a₀, hrun, -⟩ := runRound_eq.mp round
    have hlive := (of_nextPoint? more).2.2.1
    have hmeets : p.Meets o text (p.roundMoment o text number points s) :=
      ⟨number, points, s, before, .refl⟩
    exact (hrun.recovers hmeets hp trivial ih hlive).2.settle

/-- All error nodes of what a round of a parse that goes on takes come from recoveries. -/
theorem runRound_recovers {s' : State} {a : Answer}
    (h : runRound (roundSetting p o text points) o.recursionLimit
      (s.record (.round number (roundSetting p o text points).points)) = (a, s'))
    (hstarts : p.RoundStarts o text number points s) (hp : p.Reserves)
    (hlive : s'.halted = none) : a.EachError (p.Recovers o text) 0 := by
  obtain ⟨a₀, hrun, rfl⟩ := runRound_eq.mp h
  have hmeets : p.Meets o text (p.roundMoment o text number points s) :=
    ⟨number, points, s, hstarts, .refl⟩
  have ha := (hrun.recovers hmeets hp trivial (hstarts.eachError hp) hlive).1
  intro t ht
  obtain ⟨t₀, ht₀, rfl⟩ := Option.map_eq_some_iff.mp ht
  have htiles := (hmeets.fits hrun).tiles t₀ ht₀
  exact (ha t₀ ht₀).append_of_tiles (p.persists_recovers o text) htiles
    (Setting.trivia_eachError _ _)

/-- Through all rounds, every error node in what is taken comes of a recovery that is met. -/
theorem Rounds.recovers {left : Nat} {points' : List Nat} {s' : State} {a : Answer}
    (h : Rounds p o text left number points s a points' s')
    (hstarts : p.RoundStarts o text number points s) (hp : p.Reserves)
    (hlive : s'.halted = none) : a.EachError (p.Recovers o text) 0 := by
  induction h with
  | last round final => exact runRound_recovers round hstarts hp hlive
  | next round more rest ih => exact ih (.next hstarts round more) hlive

/-- What the last round of a parse takes, nothing if it fails. -/
def Program.lastTaken (p : Program) (o : ParseOptions) (text : Text) : Taken :=
  (runRounds p o text (text.size + 1) 1 [] (o.startState {} false)).1.1.taken.getD { stop := 0 }

/-- What the last round of a parse takes is followed by what was left over, as an error. -/
theorem Program.parse_tree_eq (p : Program) (o : ParseOptions) (text : String) :
    ∃ rest, (p.parse o text).tree =
        .node p.startRule.kind ((p.lastTaken o (.ofString text)).trees ++ rest) ∧
      (rest = [] ∨ rest = [(p.plain (.ofString text)).errorNode
        (p.lastTaken o (.ofString text)).stop (Text.ofString text).size]) := by
  obtain ⟨a, points, s, hrounds, hparse⟩ := p.exists_rounds o {} false (.ofString text)
  have hlast : p.lastTaken o (.ofString text) = a.taken.getD { stop := 0 } := by
    rw [lastTaken, hrounds.eq_runRounds]
  rw [parse, hparse, hlast]
  simp only [takenInFull]
  split
  · exact ⟨_, rfl, .inr rfl⟩
  · exact ⟨[], by rw [List.append_nil], .inl rfl⟩

/-- Recovery skips no more than it must. In a parse of a compiled program that goes on to its end,
every error node but the one over what the last round left over comes from the recovery of a
sequence or of a repetition that the parse meets, which makes an error over just this stretch. At no
position in it does a token to stop at match any text or what is left of the sequence, or the body
of the repetition, match without recovery more than trivia; it ends at the end of the text, at a
token to stop at, or where one of these matches, and then the trees of this match follow. -/
theorem Program.CompiledFrom.recovery_skips {g : Grammar} {start : Nat} {text : String}
    (h : p.CompiledFrom g start) (hlive : (p.parse o text).halted = none) :
    ∃ rest, (p.parse o text).tree =
        .node p.startRule.kind ((p.lastTaken o (.ofString text)).trees ++ rest) ∧
      (rest = [] ∨ rest = [(p.plain (.ofString text)).errorNode
        (p.lastTaken o (.ofString text)).stop (Text.ofString text).size]) ∧
      Tree.EachAmong errorKind (p.Recovers o (.ofString text)) 0
        (p.lastTaken o (.ofString text)).trees := by
  obtain ⟨rest, htree, hrest⟩ := p.parse_tree_eq o text
  obtain ⟨a, points, s, hrounds, hparse⟩ := p.exists_rounds o {} false (.ofString text)
  rw [parse, hparse] at hlive
  have heach := hrounds.recovers .first h.implements.reserves hlive
  refine ⟨rest, htree, hrest, ?_⟩
  rw [lastTaken, hrounds.eq_runRounds]
  cases htaken : a.taken with
  | none => trivial
  | some t => exact heach t htaken

/-- What is skipped in an inner rule, before the second member of its sequence. -/
theorem Program.CompiledFrom.recovery_skips_hoisting :
    (Program.hoisting.parse { memoize := false } "yzxc").halted = none ∧
      (Program.hoisting.parse { memoize := false } "yzxc").tree =
        .node 2 [.leaf 4 "y", .node 3 [.node 0 [.leaf 1 "z"], .leaf 6 "x"], .leaf 5 "c"] ∧
      Program.hoisting.Recovers { memoize := false } (.ofString "yzxc") 1 2 [.leaf 6 "x"] := by
  have hlive : (Program.hoisting.parse { memoize := false } "yzxc").halted = none := by
    decide +kernel
  have htaken : (Program.hoisting.lastTaken { memoize := false } (.ofString "yzxc")).trees =
      [.leaf 4 "y", .node 3 [.node 0 [.leaf 1 "z"], .leaf 6 "x"], .leaf 5 "c"] := by
    decide +kernel
  obtain ⟨rest, -, -, heach⟩ := recovery_skips Program.hoisting_compiledFrom hlive
  rw [htaken] at heach
  obtain ⟨-, ⟨-, ⟨herror, -⟩, -⟩, -⟩ := heach
  exact ⟨hlive, by decide +kernel, herror rfl⟩

end Packrat
