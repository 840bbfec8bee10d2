import Packrat.Regex.Pattern
import Packrat.Text.Basic
import Packrat.Text.Quoted

/-!
# Terminals

A terminal is a literal text or a pattern. It is tried at a position of a text, and its answer
tells the length of the match and how far it looked. Both count from the position, so the answer
depends on what stands there and on the character before it, and on nothing else.
-/

namespace Packrat

/-- What a terminal matches. -/
inductive Terminal where
  | literal (text : String)
  | pattern (pattern : Pattern)
  deriving Repr, DecidableEq

/-- The number of equal items at the front of two lists. -/
def commonLength : List UInt8 → List UInt8 → Nat
  | a :: as, b :: bs => if a = b then commonLength as bs + 1 else 0
  | _, _ => 0

/-- Scans for a literal text. A mismatch is noticed at the first byte that differs. -/
def literalScan : (literal rest : List Char) → (offset : Nat) → Scan
  | [], _, offset => ⟨some offset, offset⟩
  | _ :: _, [], offset => ⟨none, offset + 1⟩
  | c :: cs, d :: ds, offset =>
    if c = d then literalScan cs ds (offset + c.utf8Size)
    else ⟨none, offset + commonLength (String.utf8EncodeChar c) (String.utf8EncodeChar d) + 1⟩

namespace Terminal

/-- Whether the terminal can match nothing at all. -/
def isNullable : Terminal → Bool
  | literal text => text.isEmpty
  | pattern p => p.regex.isNullable

/-- Scans for the terminal behind `before`. -/
def scan (t : Terminal) (before : Option Char) (rest : List Char) : Scan :=
  match t with
  | literal text => literalScan text.toList rest 0
  | pattern p => p.regex.scan before rest

/-- Tries the terminal at a position of a text. -/
def scanAt (t : Terminal) (text : Text) (position : Nat) : Scan :=
  match text.spot? position with
  | some spot => t.scan spot.before spot.rest
  | none => ⟨none, 1⟩

/-- The terminal as it is shown: a literal in quotes, a pattern between slashes. -/
def label : Terminal → String
  | literal text => quoted text
  | pattern p => "/" ++ p.source ++ "/"

end Terminal

end Packrat
