import Packrat.Proofs.Parse.Coverage
import Packrat.Proofs.Parse.Rounds

/-!
# Parses are lossless

Every round takes trees that cover the text from its start; what the last round leaves over
becomes an error, so the tree of a parse covers all of the text.
-/

namespace Packrat

/-- What is left of a table when results are dropped fits the text, wherever error points are. -/
theorem Memo.Fits.settle {text : Text} {points : List Nat} {m : Memo}
    (h : m.Fits text points) (points' : List Nat) : m.settle.Fits text points' :=
  ⟨h.strict, by simp⟩

/-- A round takes trees that cover the text from its start. -/
theorem runRound_fits {c : Setting} {depth : Nat} {s s' : State} {a : Answer}
    (h : runRound c depth s = (a, s')) (hmemo : s.memo.Fits c.text c.points) :
    (∀ t, a.taken = some t → Tree.TilesAll c.text t.trees 0 t.stop) ∧
      s'.memo.Fits c.text c.points := by
  obtain ⟨a₀, hrun, rfl⟩ := runRound_eq.mp h
  obtain ⟨ha, hmemo'⟩ := hrun.fits (c.text.isBoundary_zero) hmemo
  refine ⟨fun t ht => ?_, hmemo'⟩
  obtain ⟨t₀, ht₀, rfl⟩ := Option.map_eq_some_iff.mp ht
  exact (ha.tiles t₀ ht₀).append (c.trivia_tiles t₀.stop)

section

variable {p : Program} {o : ParseOptions} {text : Text}

/-- What each round takes covers the text from its start, and the strict results fit. -/
theorem Rounds.fits {left number : Nat} {points points' : List Nat} {s s' : State} {a : Answer}
    (h : Rounds p o text left number points s a points' s')
    (hmemo : s.memo.Fits text (roundSetting p o text points).points) :
    (∀ t, a.taken = some t → Tree.TilesAll text t.trees 0 t.stop) ∧
      Results.Fit text s'.memo.strict := by
  induction h with
  | last round final =>
    obtain ⟨ha, hmemo'⟩ := runRound_fits round hmemo
    exact ⟨ha, hmemo'.strict⟩
  | next round more rest ih =>
    obtain ⟨-, hmemo'⟩ := runRound_fits round hmemo
    exact ih (hmemo'.settle _)

/-- What the last round leaves over is an error, so all of the text is covered. -/
theorem takenInFull_tiles {c : Setting} {a : Answer} (s : State)
    (h : ∀ t, a.taken = some t → Tree.TilesAll c.text t.trees 0 t.stop) :
    Tree.TilesAll c.text (takenInFull c a s).1.trees 0 c.text.size := by
  have htaken : Tree.TilesAll c.text (a.taken.getD { stop := 0 }).trees 0
      (a.taken.getD { stop := 0 }).stop := by
    cases htaken : a.taken with
    | none => exact Tree.tilesAll_nil _ _
    | some t => exact h t htaken
  have hstop := Tree.TilesAll.isBoundary c.text.isBoundary_zero _ htaken
  have hle := Text.le_size_of_isBoundary hstop
  unfold takenInFull
  simp only
  split
  · exact htaken.append (Tree.tilesAll_singleton.mpr
      (c.errorNode_tiles hstop c.text.isBoundary_size hle))
  · rename_i hfull
    simp only [Bool.or_eq_true, decide_eq_true_eq, not_or] at hfull
    have heq : (a.taken.getD { stop := 0 }).stop = c.text.size := by omega
    rwa [heq] at htaken

/-- A parse that starts from results that fit makes a tree that covers the text, and results that
fit. -/
theorem Program.parseWith_fits {known : Results} {traced : Bool} (hknown : Results.Fit text known) :
    (p.parseWith o known traced text).tree.Tiles text 0 text.size ∧
      Results.Fit text (p.parseWith o known traced text).results := by
  obtain ⟨a, points, s, hrounds, heq⟩ := p.exists_rounds o known traced text
  obtain ⟨ha, hresults⟩ := hrounds.fits ⟨hknown, by simp [ParseOptions.startState]⟩
  have htiles := takenInFull_tiles (c := roundSetting p o text points) s ha
  rw [heq]
  exact ⟨htiles, hresults⟩

end

end Packrat
