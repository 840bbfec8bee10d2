import Packrat.Parse.Memo
import Packrat.Text.Basic

/-!
# The state of a parse

What is fixed in a round is in a `Setting`; what changes and is never taken back is in a `State`.
Everything else, positions, trees and errors, is in the answers of operations.
-/

namespace Packrat

/-- What is fixed while operations are run. -/
structure Setting where
  program : Program
  text : Text
  memoize : Bool
  /-- The error points of the round, in order. -/
  points : List Nat
  /-- Whether failures at error points are recovered from. -/
  recovering : Bool

namespace Setting

/-- The same without recovery. -/
def strict (c : Setting) : Setting := { c with recovering := false }

/-- Whether a position is an error point. -/
def isPoint (c : Setting) (position : Nat) : Bool := c.points.contains position

/-- The failure from which to recover, if there is one. -/
def recoverable? (c : Setting) (notes : Notes) : Option Failure :=
  if c.recovering then notes.far.filter fun f => c.isPoint f.position else none

end Setting

/-- What changes for good while operations are run. -/
structure State where
  memo : Memo
  /-- How many operations may still be run. -/
  fuel : Option Nat
  /-- How many rules may still be called. -/
  patience : Option Nat
  halted : Option Halt
  /-- The events so far, the latest first, if they are asked for. -/
  log : Option (List Event)

namespace State

/-- Notes an event. -/
def record (e : Event) : State → State
  | ⟨memo, fuel, patience, halted, log⟩ =>
    ⟨memo, fuel, patience, halted, log.map (e :: ·)⟩

/-- Stops the parse. -/
def stop (reason : Halt) : State → State
  | ⟨memo, fuel, patience, _, log⟩ =>
    ⟨memo, fuel, patience, some reason, log.map (.halt reason :: ·)⟩

/-- Whether the parse was stopped. -/
def isHalted (s : State) : Bool := s.halted.isSome

/-- Spends fuel on an operation. There is none to be run in a parse that has stopped. -/
def tick : State → Bool × State
  | ⟨memo, fuel, patience, some reason, log⟩ => (false, ⟨memo, fuel, patience, some reason, log⟩)
  | ⟨memo, some 0, patience, none, log⟩ =>
    (false, stop .outOfFuel ⟨memo, some 0, patience, none, log⟩)
  | ⟨memo, some (n + 1), patience, none, log⟩ => (true, ⟨memo, some n, patience, none, log⟩)
  | ⟨memo, none, patience, none, log⟩ => (true, ⟨memo, none, patience, none, log⟩)

/-- Asks whether a rule may be called. -/
def ask : State → Bool × State
  | ⟨memo, fuel, patience, some reason, log⟩ => (false, ⟨memo, fuel, patience, some reason, log⟩)
  | ⟨memo, fuel, some 0, none, log⟩ =>
    (false, stop .cancelled ⟨memo, fuel, some 0, none, log⟩)
  | ⟨memo, fuel, some (n + 1), none, log⟩ => (true, ⟨memo, fuel, some n, none, log⟩)
  | ⟨memo, fuel, none, none, log⟩ => (true, ⟨memo, fuel, none, none, log⟩)

/-- Keeps the result of a rule. -/
def remember (recovering : Bool) (key : MemoKey) (entry : Entry) : State → State
  | ⟨memo, fuel, patience, halted, log⟩ =>
    ⟨memo.insert recovering key entry, fuel, patience, halted, log⟩

/-- Drops the results that error points may have had a part in. -/
def settle : State → State
  | ⟨memo, fuel, patience, halted, log⟩ => ⟨memo.settle, fuel, patience, halted, log⟩

end State

/-- The answer of an operation: what it took, unless it failed, and what was noted. -/
structure Answer where
  taken : Option Taken
  notes : Notes := {}
  deriving Repr, DecidableEq

namespace Answer

/-- Success without taking anything. -/
def idle (position : Nat) : Answer := { taken := some { stop := position } }

/-- The answer of parts of which the first took something. -/
def behind (first : Taken) (notes : Notes) (rest : Answer) : Answer :=
  ⟨rest.taken.map first.andThen, notes.join rest.notes⟩

/-- The answer after something that only left notes. -/
def noting (notes : Notes) (rest : Answer) : Answer := ⟨rest.taken, notes.join rest.notes⟩

end Answer

/-- A way to run an operation at a position. -/
abbrev Evaluator := Setting → Step → (position : Nat) → State → Answer × State

end Packrat
