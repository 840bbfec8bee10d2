import Packrat.Parse.State

/-!
# Trivia

What extras match before a token is trivia. At every position the first extra in the list that
matches something is taken, and neighbouring matches of one kind make one leaf. When a node is
closed, the trivia in front of it stays outside.
-/

namespace Packrat

/-- A stretch of the text and its kind. -/
structure Piece where
  kind : Nat
  start : Nat
  stop : Nat
  deriving Repr, DecidableEq

/-- Puts a piece before others; pieces of one kind become one. -/
def Piece.push (p : Piece) : List Piece → List Piece
  | [] => [p]
  | q :: rest => if p.kind = q.kind then ⟨p.kind, p.start, q.stop⟩ :: rest else p :: q :: rest

/-- What extras match from a position on. -/
structure Trivia where
  leaves : List Tree
  stop : Nat
  /-- The end of the text that was looked at. -/
  reach : Nat

namespace Setting

/-- The first extra that matches something at a position, and how far was looked. -/
def firstExtra (c : Setting) (position : Nat) : List (Nat × Nat) → Option Piece × Nat
  | [] => (none, 0)
  | extra :: rest =>
    let scan := (c.program.terminal extra.1).scanAt c.text position
    let reach := position + scan.reach
    match scan.length with
    | some (n + 1) => (some ⟨extra.2, position, position + (n + 1)⟩, reach)
    | _ =>
      match c.firstExtra position rest with
      | (found, further) => (found, max reach further)

/-- The pieces that extras match one after another, and how far was looked. Each takes a byte at
least, so there are no more than bytes left. -/
def extraPieces (c : Setting) : (count position : Nat) → List Piece × Nat
  | 0, _ => ([], 0)
  | count + 1, position =>
    match c.firstExtra position c.program.extras with
    | (none, reach) => ([], reach)
    | (some piece, reach) =>
      match c.extraPieces count piece.stop with
      | (pieces, further) => (piece :: pieces, max reach further)

/-- The leaf of a piece. -/
def leaf (c : Setting) (p : Piece) : Tree := .leaf p.kind (c.text.slice p.start p.stop)

/-- The trivia at a position. -/
def trivia (c : Setting) (position : Nat) : Trivia :=
  let found := c.extraPieces (c.text.size + 1 - position) position
  let stop := (found.1.getLast?.map (·.stop)).getD position
  ⟨(found.1.foldr Piece.push []).map c.leaf, stop, found.2⟩

/-- Whether a tree is trivia. -/
def isTrivia (c : Setting) : Tree → Bool
  | .leaf kind _ => c.program.isTrivia kind
  | .node _ _ => false

/-- Closes a node over some trees, except for the trivia they begin with. -/
def close (c : Setting) (kind : Nat) (trees : List Tree) : List Tree :=
  trees.takeWhile c.isTrivia ++ [.node kind (trees.dropWhile c.isTrivia)]

/-- The node of an error over a stretch of the text. -/
def errorNode (c : Setting) (start stop : Nat) : Tree :=
  .node errorKind (if start < stop then [c.leaf ⟨skippedKind, start, stop⟩] else [])

/-- An error over a stretch of the text, with the kinds that were expected there. -/
def error (c : Setting) (start stop : Nat) (expected : List Nat) : SyntaxError :=
  ⟨start, stop, .over start stop, expected.map c.program.kindLabel⟩

/-- An error as something that was taken. -/
def takenError (c : Setting) (start stop : Nat) (expected : List Nat) : Taken :=
  ⟨stop, [c.errorNode start stop], [c.error start stop expected]⟩

end Setting

end Packrat
