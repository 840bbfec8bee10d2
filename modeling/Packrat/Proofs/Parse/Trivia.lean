import Packrat.Parse.Trivia
import Packrat.Proofs.Terminal.Scan
import Packrat.Proofs.Tree.Tiling

/-!
# What trivia covers

The leaves of the trivia at a boundary cover the text from there to the boundary where the trivia
stops, and no more than was looked at. Closing a node and making the node of an error keep what
is covered.
-/

namespace Packrat

/-- Whether pieces follow each other over a stretch of a text, none of them empty. -/
def Piece.Covers (text : Text) : List Piece → (start stop : Nat) → Prop
  | [], start, stop => start = stop
  | p :: ps, start, stop =>
    p.start = start ∧ start < p.stop ∧ text.isBoundary start = true ∧
      text.isBoundary p.stop = true ∧ Covers text ps p.stop stop

/-- Pieces that touch cover the same when they are made one. -/
theorem Piece.Covers.push {text : Text} {p : Piece} {ps : List Piece} {start stop : Nat}
    (h : Piece.Covers text (p :: ps) start stop) : Piece.Covers text (p.push ps) start stop := by
  cases ps with
  | nil => exact h
  | cons q rest =>
    rw [Piece.push]
    split
    · obtain ⟨rfl, hlt, hstart, _, hq, hlt', _, hstop', hrest⟩ := h
      exact ⟨rfl, by simp only; omega, hstart, hstop', hrest⟩
    · exact h

/-- Joining neighbouring pieces of one kind keeps what they cover. -/
theorem Piece.Covers.foldr_push {text : Text} {ps : List Piece} {start stop : Nat}
    (h : Piece.Covers text ps start stop) :
    Piece.Covers text (ps.foldr Piece.push []) start stop := by
  induction ps generalizing start with
  | nil => exact h
  | cons p ps ih =>
    obtain ⟨hp, hlt, hstart, hstop, hps⟩ := h
    exact Piece.Covers.push ⟨hp, hlt, hstart, hstop, ih hps⟩

/-- Pieces end where the last of them does, or where they start if there are none. -/
theorem Piece.Covers.stop_eq {text : Text} {ps : List Piece} {start stop : Nat}
    (h : Piece.Covers text ps start stop) : (ps.getLast?.map (·.stop)).getD start = stop := by
  induction ps generalizing start with
  | nil => exact h
  | cons p ps ih =>
    have hps := ih h.2.2.2.2
    cases ps with
    | nil => exact hps
    | cons q rest =>
      rw [List.getLast?_cons_cons]
      rw [List.getLast?_cons] at hps ⊢
      exact hps

namespace Setting

variable (c : Setting)

/-- What the first extra that matches takes at a position. -/
theorem firstExtra_eq_some {position : Nat} {extras : List (Nat × Nat)} {piece : Piece}
    (h : (c.firstExtra position extras).1 = some piece) :
    piece.start = position ∧ position < piece.stop ∧ c.text.isBoundary position = true ∧
      c.text.isBoundary piece.stop = true ∧
      piece.stop ≤ (c.firstExtra position extras).2 := by
  induction extras with
  | nil => simp [firstExtra] at h
  | cons extra rest ih =>
    rw [firstExtra] at h ⊢
    cases hlength : ((c.program.terminal extra.1).scanAt c.text position).length with
    | none =>
      simp only [hlength] at h ⊢
      obtain ⟨hp, hlt, hstart, hstop, hle⟩ := ih h
      exact ⟨hp, hlt, hstart, hstop, by omega⟩
    | some n =>
      cases n with
      | zero =>
        simp only [hlength] at h ⊢
        obtain ⟨hp, hlt, hstart, hstop, hle⟩ := ih h
        exact ⟨hp, hlt, hstart, hstop, by omega⟩
      | succ n =>
        simp only [hlength, Option.some.injEq] at h ⊢
        obtain ⟨hstart, hstop⟩ := Terminal.isBoundary_of_scanAt_length hlength
        have hle := Terminal.length_le_reach_scanAt hlength
        subst h
        exact ⟨rfl, by simp only; omega, hstart, hstop, by simp only; omega⟩

/-- The pieces that extras match cover a stretch, no more than was looked at. -/
theorem extraPieces_covers (count position : Nat) :
    ∃ stop, Piece.Covers c.text (c.extraPieces count position).1 position stop ∧
      stop ≤ max position (c.extraPieces count position).2 := by
  induction count generalizing position with
  | zero => exact ⟨position, rfl, by simp [extraPieces]⟩
  | succ count ih =>
    rw [extraPieces]
    rcases hfirst : c.firstExtra position c.program.extras with ⟨_ | piece, reach⟩
    · exact ⟨position, rfl, Nat.le_max_left _ _⟩
    · have hpiece := c.firstExtra_eq_some (by rw [hfirst])
      rw [hfirst] at hpiece
      obtain ⟨hp, hlt, hstart, hstop, hle⟩ := hpiece
      obtain ⟨stop, hcovers, hbound⟩ := ih piece.stop
      refine ⟨stop, ⟨hp, hlt, hstart, hstop, hcovers⟩, ?_⟩
      simp only at hle ⊢
      omega

/-- The leaves of pieces cover what the pieces cover. -/
theorem tilesAll_map_leaf {ps : List Piece} {start stop : Nat}
    (h : Piece.Covers c.text ps start stop) :
    Tree.TilesAll c.text (ps.map c.leaf) start stop := by
  induction ps generalizing start with
  | nil => exact h
  | cons p ps ih =>
    obtain ⟨rfl, hlt, hstart, hstop, hps⟩ := h
    exact ⟨p.stop, ⟨hlt, hstart, hstop, rfl⟩, ih hps⟩

/-- The leaves of trivia cover the text up to where it stops. -/
theorem trivia_tiles (position : Nat) :
    Tree.TilesAll c.text (c.trivia position).leaves position (c.trivia position).stop := by
  obtain ⟨stop, hcovers, _⟩ := c.extraPieces_covers (c.text.size + 1 - position) position
  have hstop := hcovers.stop_eq
  simp only [trivia, hstop]
  exact c.tilesAll_map_leaf hcovers.foldr_push

/-- Trivia do not lead back. -/
theorem le_trivia_stop (position : Nat) : position ≤ (c.trivia position).stop :=
  Tree.TilesAll.le _ (c.trivia_tiles position)

/-- Trivia does not stop behind what was looked at. -/
theorem trivia_stop_le (position : Nat) :
    (c.trivia position).stop ≤ max position (c.trivia position).reach := by
  obtain ⟨stop, hcovers, hbound⟩ := c.extraPieces_covers (c.text.size + 1 - position) position
  simp only [trivia, hcovers.stop_eq]
  exact hbound

/-- Trivia at a boundary end at one. -/
theorem isBoundary_trivia_stop {position : Nat} (h : c.text.isBoundary position = true) :
    c.text.isBoundary (c.trivia position).stop = true :=
  Tree.TilesAll.isBoundary h _ (c.trivia_tiles position)

/-- Closing a node keeps what is covered. -/
theorem close_tiles {kind : Nat} {trees : List Tree} {start stop : Nat}
    (h : Tree.TilesAll c.text trees start stop) :
    Tree.TilesAll c.text (c.close kind trees) start stop := by
  rw [← List.takeWhile_append_dropWhile (p := c.isTrivia) (l := trees), Tree.tilesAll_append] at h
  obtain ⟨middle, hbefore, hinside⟩ := h
  exact hbefore.append (Tree.tilesAll_singleton.mpr hinside)

/-- The node of an error covers the stretch that was skipped. -/
theorem errorNode_tiles {start stop : Nat} (hstart : c.text.isBoundary start = true)
    (hstop : c.text.isBoundary stop = true) (hle : start ≤ stop) :
    (c.errorNode start stop).Tiles c.text start stop := by
  rw [errorNode]
  split
  · rename_i hlt
    exact Tree.tilesAll_singleton.mpr ⟨hlt, hstart, hstop, rfl⟩
  · have heq : start = stop := by omega
    exact heq

end Setting

end Packrat
