/-!
# Notes

While operations are run, three things are noted whether they succeed or not: the furthest
failure with all that was expected there, the furthest failure that is no error point, and how far
the text was looked at. Notes of parts are joined in the order of the parts; `Notes.join` is
associative, so the way in which parts are grouped makes no difference.
-/

namespace Packrat

/-- Adds the items of a list that are not there yet. -/
def addNew {α : Type} [BEq α] (known : List α) (more : List α) : List α :=
  more.foldl (fun known a => if known.contains a then known else known ++ [a]) known

/-- A place where terminals failed, and their kinds in the order in which they were tried. -/
structure Failure where
  position : Nat
  expected : List Nat
  deriving Repr, DecidableEq

/-- The further of two failures, or both together at one place. -/
def Failure.join (a b : Failure) : Failure :=
  if b.position < a.position then a
  else if a.position < b.position then b
  else ⟨a.position, addNew a.expected b.expected⟩

/-- The join of two failures of which there may be none. -/
def furthest : Option Failure → Option Failure → Option Failure
  | none, b => b
  | some a, none => some a
  | some a, some b => some (a.join b)

/-- The greater of two positions of which there may be none. -/
def greater : Option Nat → Option Nat → Option Nat
  | none, b => b
  | some a, none => some a
  | some a, some b => some (max a b)

/-- What is noted while operations are run. -/
structure Notes where
  /-- The furthest failure. -/
  far : Option Failure := none
  /-- The furthest failure that is no error point. -/
  frontier : Option Nat := none
  /-- The end of the text that was looked at. -/
  reach : Nat := 0
  deriving Repr, DecidableEq

namespace Notes

/-- The notes of two parts. -/
def join (a b : Notes) : Notes :=
  ⟨furthest a.far b.far, greater a.frontier b.frontier, max a.reach b.reach⟩

/-- Notes of nothing but a look at the text. -/
def seen (reach : Nat) : Notes := { reach }

end Notes

end Packrat
