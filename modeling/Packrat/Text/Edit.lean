import Packrat.Text.Basic

/-!
# Edits

An edit replaces a stretch of a text by another text. It applies when the stretch lies within the
text and splits no character; of two reasons against it, the bounds come first and the start
before the end.
-/

namespace Packrat

/-- Why an edit does not apply. -/
inductive EditError where
  | outOfBounds (start stop size : Nat)
  | notBoundary (offset : Nat)
  deriving Repr, DecidableEq

namespace EditError

/-- The error in words. -/
def message : EditError → String
  | outOfBounds start stop size =>
    s!"edit {start}..{stop} is out of bounds for text of length {size}"
  | notBoundary offset => s!"edit boundary {offset} is not on a char boundary"

end EditError

/-- The replacement of `removed` bytes from `start` on by a text. -/
structure Edit where
  start : Nat
  removed : Nat
  inserted : String
  deriving Repr, DecidableEq

/-- The greatest offset; sums of offsets stop there. -/
def maxOffset : Nat := UInt64.size - 1

namespace Edit

/-- An edit that removes nothing. -/
def insertion (start : Nat) (inserted : String) : Edit := ⟨start, 0, inserted⟩

/-- An edit of the stretch between two offsets, which is empty when they are reversed. -/
def replacement (start stop : Nat) (inserted : String) : Edit := ⟨start, stop - start, inserted⟩

/-- An edit that inserts nothing. -/
def deletion (start stop : Nat) : Edit := replacement start stop ""

/-- The number of bytes that the edit puts in. -/
def insertedSize (e : Edit) : Nat := e.inserted.utf8ByteSize

/-- The end of the removed stretch. -/
def removedEnd (e : Edit) : Nat := min (e.start + e.removed) maxOffset

/-- Why the edit does not apply to a text, if it does not. -/
def problem? (e : Edit) (text : Text) : Option EditError :=
  if text.size < e.removedEnd then some (.outOfBounds e.start e.removedEnd text.size)
  else if !text.isBoundary e.start then some (.notBoundary e.start)
  else if !text.isBoundary e.removedEnd then some (.notBoundary e.removedEnd)
  else none

/-- The text after the edit. -/
def apply (e : Edit) (text : Text) : Except EditError String :=
  match e.problem? text with
  | some problem => .error problem
  | none => .ok (text.slice 0 e.start ++ e.inserted ++ text.slice e.removedEnd text.size)

end Edit

end Packrat
