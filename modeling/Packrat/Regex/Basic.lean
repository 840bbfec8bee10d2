import Packrat.Unicode.CharSet

/-!
# Regular expressions with look-around

A regular expression matches a stretch of text between two neighbours: what stands before it and
what stands after it. Look-around only asks what kind of character the neighbours are, so a
neighbour is one of five kinds. `Regex.Matches` says what an expression matches;
`Regex.matchesEmpty` decides the empty match, and `Regex.isNullable` asks for the least length.

The least length goes by how an expression is simplified when it is read, not by its matches alone:
an alternative that matches nothing leaves a choice without one, unless it is joined with other
classes before. Of the simplifications that can make a difference to it, one is left out: parts
that all alternatives begin with are not taken out in front of the choice, so alternatives that
differ only in a last class, empty in one of them, are not joined.
-/

namespace Packrat

/-- What stands beside a position, as far as look-around can tell: the edge of the text, a line
feed, a carriage return, an ASCII word character, or anything else. -/
inductive Neighbour where
  | edge
  | lineFeed
  | carriageReturn
  | word
  | other
  deriving Repr, DecidableEq

namespace Neighbour

/-- All kinds of neighbours. -/
def all : List Neighbour := [edge, lineFeed, carriageReturn, word, other]

/-- Whether a character is an ASCII letter, digit or underscore. -/
def isWordChar (c : Char) : Bool := c.isAlphanum || c == '_'

/-- The kind of a character. -/
def ofChar (c : Char) : Neighbour :=
  if c == '\n' then lineFeed
  else if c == '\r' then carriageReturn
  else if isWordChar c then word
  else other

/-- The kind of what stands there, if anything does. -/
def of : Option Char → Neighbour
  | some c => ofChar c
  | none => edge

/-- The neighbour before what follows `w`, when `before` stands in front of `w`. -/
def past (before : Neighbour) (w : List Char) : Neighbour :=
  match w.getLast? with
  | some c => ofChar c
  | none => before

/-- The neighbour after what precedes `w`, when `after` stands behind `w`. -/
def ahead (w : List Char) (after : Neighbour) : Neighbour :=
  match w.head? with
  | some c => ofChar c
  | none => after

/-- The code points of each kind of character. -/
def ranges : Neighbour → List (Nat × Nat)
  | edge => []
  | lineFeed => [(0x0A, 0x0A)]
  | carriageReturn => [(0x0D, 0x0D)]
  | word => [(0x30, 0x39), (0x41, 0x5A), (0x5F, 0x5F), (0x61, 0x7A)]
  | other => [(0x00, 0x09), (0x0B, 0x0C), (0x0E, 0x2F), (0x3A, 0x40), (0x5B, 0x5E), (0x60, 0x60),
      (0x7B, 0x10FFFF)]

/-- Whether a set holds a character of this kind. -/
def occursIn (kind : Neighbour) (s : CharSet) : Bool := kind.ranges.any fun r => s.meets r.1 r.2

end Neighbour

/-- The word looks, told by whether a word character stands before and after. -/
inductive WordLook where
  | boundary
  | inside
  | start
  | stop
  | startHalf
  | stopHalf
  deriving Repr, DecidableEq

/-- A condition on the neighbours of a position. The look at a word may take every Unicode word
character for one; expressions with such looks can be read but not run. -/
inductive Look where
  | textStart
  | textEnd
  | lineStart
  | lineEnd
  | crlfStart
  | crlfEnd
  | word (kind : WordLook) (unicode : Bool)
  deriving Repr, DecidableEq

namespace WordLook

/-- Whether the look holds, given whether word characters stand before and after. -/
def holds : WordLook → (before after : Bool) → Bool
  | boundary, b, a => b != a
  | inside, b, a => b == a
  | start, b, a => !b && a
  | stop, b, a => b && !a
  | startHalf, b, _ => !b
  | stopHalf, _, a => !a

end WordLook

namespace Look

/-- Whether the look holds between two neighbours. A line that ends in a carriage return and a
line feed ends before both. -/
def holds : Look → (before after : Neighbour) → Bool
  | textStart, b, _ => b == .edge
  | textEnd, _, a => a == .edge
  | lineStart, b, _ => b == .edge || b == .lineFeed
  | lineEnd, _, a => a == .edge || a == .lineFeed
  | crlfStart, b, a => b == .edge || b == .lineFeed || (b == .carriageReturn && a != .lineFeed)
  | crlfEnd, b, a => a == .edge || a == .carriageReturn || (a == .lineFeed && b != .carriageReturn)
  | word kind _, b, a => kind.holds (b == .word) (a == .word)

/-- Whether the look takes every Unicode word character for one. -/
def isUnicode : Look → Bool
  | word _ unicode => unicode
  | _ => false

end Look

/-- A regular expression. `rep r min max` is `min` to `max` matches of `r` in a row, without an
upper bound when `max` is absent. -/
inductive Regex where
  | empty
  | look (look : Look)
  | chars (set : CharSet)
  | seq (first second : Regex)
  | alt (left right : Regex)
  | rep (body : Regex) (min : Nat) (max : Option Nat)
  deriving Repr, DecidableEq, Inhabited

namespace Regex

/-- What an expression matches: `Matches r before w after` says that `r` matches the characters
`w` when `before` stands in front of them and `after` behind them. -/
inductive Matches : Regex → Neighbour → List Char → Neighbour → Prop where
  | empty {before after} : Matches .empty before [] after
  | look {l before after} (h : l.holds before after) : Matches (.look l) before [] after
  | chars {s c before after} (h : s.contains c) : Matches (.chars s) before [c] after
  | seq {a b u v before after} (first : Matches a before u (.ahead v after))
      (second : Matches b (.past before u) v after) : Matches (.seq a b) before (u ++ v) after
  | left {a b w before after} (h : Matches a before w after) : Matches (.alt a b) before w after
  | right {a b w before after} (h : Matches b before w after) : Matches (.alt a b) before w after
  | done {r max before after} : Matches (.rep r 0 max) before [] after
  | more {r min max u v before after} (room : max ≠ some 0)
      (first : Matches r before u (.ahead v after))
      (rest : Matches (.rep r (min - 1) (max.map (· - 1))) (.past before u) v after) :
      Matches (.rep r min max) before (u ++ v) after

/-- Whether the expression matches nothing at all between two neighbours. -/
def matchesEmpty (before after : Neighbour) : Regex → Bool
  | empty => true
  | look l => l.holds before after
  | chars _ => false
  | seq a b => a.matchesEmpty before after && b.matchesEmpty before after
  | alt a b => a.matchesEmpty before after || b.matchesEmpty before after
  | rep r min _ => min == 0 || r.matchesEmpty before after

/-- The least number of characters in a match, looks taken to hold. An expression with an
alternative that matches nothing has none. -/
def minLength? : Regex → Option Nat
  | empty => some 0
  | look _ => some 0
  | chars s => if s.isEmpty then none else some 1
  | seq a b => do return (← a.minLength?) + (← b.minLength?)
  | alt a b => do return min (← a.minLength?) (← b.minLength?)
  | rep r least _ => do return (← r.minLength?) * least

/-- Whether the least length of a match is zero. -/
def isNullable (r : Regex) : Bool := r.minLength? == some 0

/-- Whether some look in the expression asks about Unicode word characters. -/
def hasUnicodeLook : Regex → Bool
  | empty => false
  | look l => l.isUnicode
  | chars _ => false
  | seq a b => a.hasUnicodeLook || b.hasUnicodeLook
  | alt a b => a.hasUnicodeLook || b.hasUnicodeLook
  | rep r _ _ => r.hasUnicodeLook

/-- One expression after another. -/
def cat : Regex → Regex → Regex
  | empty, b => b
  | a, empty => a
  | a, b => seq a b

/-- A repetition; no iteration at all is the empty expression, and exactly one is the body. -/
def repeated (r : Regex) (min : Nat) (max : Option Nat) : Regex :=
  if max = some 0 then empty
  else if min = 1 ∧ max = some 1 then r
  else rep r min max

/-- What a capturing group stands for: the expression in it once, which joins with nothing. -/
def captured (r : Regex) : Regex := rep r 1 (some 1)

/-- Expressions one after another. -/
def sequence (rs : List Regex) : Regex := rs.foldr cat empty

/-- The sets that the expressions are, if every one of them is a set of characters. -/
def charSets? : List Regex → Option (List CharSet)
  | [] => some []
  | chars s :: rs => (charSets? rs).map (s :: ·)
  | _ :: _ => none

/-- Alternatives in a row. -/
def alternatives : Regex → List Regex → Regex
  | r, [] => r
  | r, s :: rs => alt r (alternatives s rs)

/-- The set that alternatives join into: they do if every one of them is a single character, and if
every one is a class, which is a set that has any other number of characters. -/
def joined? (rs : List Regex) : Option CharSet := do
  let sets ← charSets? rs
  if sets.all (·.isSingle) || sets.all (!·.isSingle) then some (.unions sets) else none

/-- A choice among expressions, of which a choice among none matches nothing. -/
def choice (rs : List Regex) : Regex :=
  match joined? rs with
  | some set => chars set
  | none =>
    match rs with
    | r :: rs => alternatives r rs
    | [] => chars .empty

end Regex

end Packrat
