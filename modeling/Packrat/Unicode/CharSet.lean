/-!
# Sets of characters

A set of characters is a list of closed ranges of code points. The operations keep the ranges
sorted, apart from each other, and clear of the surrogates, so that a set is empty exactly when
its list of ranges is.
-/

namespace Packrat

/-- A set of characters, as closed ranges of code points. -/
structure CharSet where
  ranges : List (Nat × Nat)
  deriving Repr, DecidableEq, Inhabited

namespace CharSet

/-- The first surrogate. -/
def surrogateFirst : Nat := 0xD800

/-- The last surrogate. -/
def surrogateLast : Nat := 0xDFFF

/-- The last code point. -/
def lastCodePoint : Nat := 0x10FFFF

/-- Joins each range of a sorted list with those that overlap or touch it. -/
def mergeSorted : (current : Nat × Nat) → List (Nat × Nat) → List (Nat × Nat)
  | current, [] => [current]
  | (lo, hi), (lo', hi') :: rest =>
    if lo' ≤ hi + 1 then mergeSorted (lo, max hi hi') rest
    else (lo, hi) :: mergeSorted (lo', hi') rest

/-- Sorts ranges and joins those that overlap or touch. -/
def normalize (ranges : List (Nat × Nat)) : List (Nat × Nat) :=
  match (ranges.filter fun r => r.1 ≤ r.2).mergeSort fun a b => a.1 ≤ b.1 with
  | [] => []
  | r :: rest => mergeSorted r rest

/-- A range of code points without its surrogates. -/
def scalarRanges (lo hi : Nat) : List (Nat × Nat) :=
  [(lo, min hi (surrogateFirst - 1)), (max lo (surrogateLast + 1), min hi lastCodePoint)].filter
    fun r => r.1 ≤ r.2

/-- The gaps that sorted ranges leave among the code points from `start` on. -/
def gapsFrom (start : Nat) : List (Nat × Nat) → List (Nat × Nat)
  | [] => if start ≤ lastCodePoint then [(start, lastCodePoint)] else []
  | (lo, hi) :: rest =>
    if start < lo then (start, lo - 1) :: gapsFrom (hi + 1) rest else gapsFrom (hi + 1) rest

/-- No character. -/
def empty : CharSet := ⟨[]⟩

/-- The set of some ranges of code points, surrogates left out. -/
def ofRanges (ranges : List (Nat × Nat)) : CharSet :=
  ⟨normalize (ranges.flatMap fun r => scalarRanges r.1 r.2)⟩

/-- One character. -/
def singleton (c : Char) : CharSet := ⟨[(c.toNat, c.toNat)]⟩

/-- The characters between two, both included. -/
def range (first last : Char) : CharSet := ofRanges [(first.toNat, last.toNat)]

/-- Whether a character is in the set. -/
def contains (s : CharSet) (c : Char) : Bool :=
  s.ranges.any fun r => r.1 ≤ c.toNat && c.toNat ≤ r.2

/-- Whether some code point between `lo` and `hi` is in the set. -/
def meets (s : CharSet) (lo hi : Nat) : Bool :=
  s.ranges.any fun r => r.1 ≤ hi && lo ≤ r.2

/-- Whether the set holds no character. -/
def isEmpty (s : CharSet) : Bool := s.ranges.isEmpty

/-- The characters of either set. -/
def union (s t : CharSet) : CharSet :=
  if s.isEmpty then t else if t.isEmpty then s else ⟨normalize (s.ranges ++ t.ranges)⟩

/-- The characters outside the set. -/
def complement (s : CharSet) : CharSet :=
  ⟨gapsFrom 0 (normalize ((surrogateFirst, surrogateLast) :: s.ranges))⟩

/-- The characters of both sets. -/
def inter (s t : CharSet) : CharSet := (s.complement.union t.complement).complement

/-- The characters of the first set that are not in the second. -/
def diff (s t : CharSet) : CharSet := s.inter t.complement

/-- The characters of exactly one of the sets. -/
def symmDiff (s t : CharSet) : CharSet := (s.diff t).union (t.diff s)

/-- The union of a list of sets. -/
def unions (sets : List CharSet) : CharSet := ⟨normalize (sets.flatMap (·.ranges))⟩

/-- Every character. -/
def full : CharSet := complement empty

/-- Whether the set holds a single character. -/
def isSingle (s : CharSet) : Bool :=
  match s.ranges with
  | [r] => r.1 == r.2
  | _ => false

end CharSet

end Packrat
