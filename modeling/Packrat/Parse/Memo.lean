import Packrat.Parse.Basic
import Packrat.Parse.Notes
import Std.Data.HashMap

/-!
# Memo tables

The results of rules by rule and position. What a rule does without recovery depends only on the
text it looks at, so such results stay valid in later rounds; they are kept apart from those that
an error point had a part in, which are dropped when the error points change.
-/

namespace Packrat

/-- What an operation took: where it ended, and the trees and errors it made. -/
structure Taken where
  stop : Nat
  trees : List Tree := []
  errors : List SyntaxError := []
  deriving Repr, DecidableEq

/-- What was taken first and what was taken behind it. -/
def Taken.andThen (first rest : Taken) : Taken :=
  ⟨rest.stop, first.trees ++ rest.trees, first.errors ++ rest.errors⟩

/-- The kept result of a rule. -/
structure Entry where
  /-- What the rule took, unless it failed. -/
  taken : Option Taken
  /-- The end of the text that was looked at, which is not before the position. -/
  reach : Nat
  far : Option Failure
  frontier : Option Nat
  deriving Repr, DecidableEq

/-- The rule and the position of a result. -/
abbrev MemoKey := Nat × Nat

/-- Results by rule and position. -/
abbrev Results := Std.HashMap MemoKey Entry

/-- All kept results. -/
structure Memo where
  /-- Results in which no error point had a part. -/
  strict : Results := {}
  /-- Results in which some error point may have had a part. -/
  recovering : Results := {}

/-- Whether an error point lies in a stretch of the text. -/
def anyBetween (points : List Nat) (start stop : Nat) : Bool :=
  points.any fun p => start ≤ p && p < stop

namespace Memo

/-- A strict result, if it holds for recovery at the given error points too: none of them lies in
the text that the rule looked at. -/
def findClear? (m : Memo) (points : List Nat) (key : MemoKey) : Option Entry :=
  (m.strict[key]?).filter fun e => !anyBetween points key.2 e.reach

/-- A kept result, and whether it is one of those that error points may have had a part in. -/
def find? (m : Memo) (recovering : Bool) (points : List Nat) (key : MemoKey) :
    Option (Entry × Bool) :=
  if recovering then
    match m.recovering[key]? with
    | some entry => some (entry, true)
    | none => (m.findClear? points key).map fun entry => (entry, false)
  else (m.strict[key]?).map fun entry => (entry, false)

/-- Keeps a result. -/
def insert (recovering : Bool) (key : MemoKey) (entry : Entry) : Memo → Memo
  | ⟨strict, others⟩ =>
    if recovering then ⟨strict, others.insert key entry⟩ else ⟨strict.insert key entry, others⟩

/-- Drops the results that error points may have had a part in. -/
def settle : Memo → Memo
  | ⟨strict, _⟩ => ⟨strict, {}⟩

end Memo

end Packrat
