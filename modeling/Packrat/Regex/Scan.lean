import Packrat.Regex.Basic

/-!
# The longest match

An expression is run over the characters that follow a position by following what may be left of
it to match. `heads` lists the characters that may come next, each with the rest of the match;
`isLive` decides whether a rest can still be matched by some text. The scan stops at the first
byte, of a character of several bytes too, after which no match is left to wait for; a match is
noticed one byte after its end.
-/

namespace Packrat

namespace Regex

/-- What may come first in a match between two neighbours, each with the rest of the match. -/
def heads (before after : Neighbour) : Regex → List (CharSet × Regex)
  | empty => []
  | look _ => []
  | chars s => [(s, empty)]
  | seq a b =>
    (a.heads before after).map (fun h => (h.1, h.2.cat b)) ++
      if a.matchesEmpty before after then b.heads before after else []
  | alt a b => a.heads before after ++ b.heads before after
  | rep r min max =>
    if max = some 0 then []
    else
      let left := if r.matchesEmpty before after then 0 else min - 1
      let rest := if max = some 1 then empty else rep r left (max.map (· - 1))
      (r.heads before after).map fun h => (h.1, h.2.cat rest)

/-- Whether the expression asks nothing about neighbours. -/
def isLookFree : Regex → Bool
  | empty => true
  | look _ => false
  | chars _ => true
  | seq a b => a.isLookFree && b.isLookFree
  | alt a b => a.isLookFree && b.isLookFree
  | rep r _ _ => r.isLookFree

/-- Whether the expression matches some text when every look holds. -/
def isInhabited : Regex → Bool
  | empty => true
  | look _ => true
  | chars s => !s.isEmpty
  | seq a b => a.isInhabited && b.isInhabited
  | alt a b => a.isInhabited || b.isInhabited
  | rep r min _ => min == 0 || r.isInhabited

/-- The two neighbours of a position. -/
abbrev Junction := Neighbour × Neighbour

/-- Applies a function some number of times. -/
def times (f : List Junction → List Junction) : Nat → List Junction → List Junction
  | 0, js => js
  | n + 1, js => times f n (f js)

/-- What a function reaches in at most some number of applications. -/
def closure (f : List Junction → List Junction) : Nat → List Junction → List Junction
  | 0, js => js
  | n + 1, js => closure f n (js ++ f js).eraseDups

/-- The positions, told by their neighbours, at which a match can end that starts at one of the
given positions in some text. There are 25 pairs of neighbours, so 25 more rounds reach all that
any number of rounds reaches. -/
def advance : Regex → List Junction → List Junction
  | empty, js => js
  | look l, js => js.filter fun j => l.holds j.1 j.2
  | chars s, js =>
    (js.flatMap fun j =>
      if j.2.occursIn s then Neighbour.all.map fun after => (j.2, after) else []).eraseDups
  | seq a b, js => b.advance (a.advance js)
  | alt a b, js => (a.advance js ++ b.advance js).eraseDups
  | rep r least max, js =>
    let rounds := match max with
      | some n => min (n - least) 25
      | none => 25
    closure r.advance rounds (times r.advance least js)

/-- Whether the expression matches some text behind a neighbour. -/
def isLive (before : Neighbour) (r : Regex) : Bool :=
  if r.isLookFree then r.isInhabited
  else !(r.advance (Neighbour.all.map fun after => (before, after))).isEmpty

end Regex

/-- The answer of a scan: the length of the match in bytes, if there is one, and how many bytes
from the position on were looked at. One byte more than there are means that the end of the text
was looked at. -/
structure Scan where
  length : Option Nat
  reach : Nat
  deriving Repr, DecidableEq

/-- The first code point that takes `n` bytes. -/
def firstOfSize : Nat → Nat
  | 2 => 0x80
  | 3 => 0x800
  | 4 => 0x10000
  | _ => 0

/-- The code points whose first `k` bytes are those of `c`. -/
def prefixBlock (c : Char) (k : Nat) : Nat × Nat :=
  let width := Nat.pow 64 (c.utf8Size - k)
  let lo := c.toNat / width * width
  (max lo (firstOfSize c.utf8Size), lo + width - 1)

namespace Regex

/-- Whether a match can go on when the first `k` bytes of `c` come next. -/
def goesOn (heads : List (CharSet × Regex)) (c : Char) (k : Nat) : Bool :=
  let block := prefixBlock c k
  heads.any fun h => h.1.meets block.1 block.2 && h.2.isLive (.ofChar c)

/-- The number of bytes of `c` after which nothing is left to wait for. The first byte is passed
over when it has just shown that a match ends before it. -/
def stopsWithin (heads : List (CharSet × Regex)) (c : Char) (ended : Bool) : Option Nat :=
  ((List.range c.utf8Size).map (· + 1)).find? fun k => !(k == 1 && ended) && !goesOn heads c k

/-- What is left to match after `c`. -/
def residuals (heads : List (CharSet × Regex)) (c : Char) : List Regex :=
  (heads.filterMap fun h =>
    if h.1.contains c && h.2.isLive (.ofChar c) then some h.2 else none).eraseDups

/-- Scans the rest of a text for any of `states`, `offset` bytes past the position, with the
longest match found so far. -/
def scanFrom (states : List Regex) (before : Neighbour) (offset : Nat) (last : Option Nat) :
    List Char → Scan
  | [] =>
    ⟨if states.any (·.matchesEmpty before .edge) then some offset else last, offset + 1⟩
  | c :: cs =>
    let after := Neighbour.ofChar c
    let ended := states.any (·.matchesEmpty before after)
    let last := if ended then some offset else last
    let heads := states.flatMap (·.heads before after)
    match stopsWithin heads c ended with
    | some k => ⟨last, offset + k⟩
    | none => scanFrom (residuals heads c) after (offset + c.utf8Size) last cs

/-- The longest match at a position. -/
def scan (r : Regex) (before : Option Char) (rest : List Char) : Scan :=
  scanFrom [r] (.of before) 0 none rest

end Regex

end Packrat
