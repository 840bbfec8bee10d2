import Packrat.Parse.Trivia

/-!
# Recovery

After a failure at an error point, what should have come is looked for further on: at every
character in turn, without recovery, until it matches more than trivia there. What was passed over
becomes an error. The search ends before a token to stop at and at the end of the text. `run`
stands for the way to run an operation.
-/

namespace Packrat

/-- An operation that was found to match: its place among those tried, its trees and its end. -/
structure Match where
  index : Nat
  trees : List Tree
  stop : Nat

/-- How a search for a match ended. -/
inductive Search where
  /-- Something matched at a position. -/
  | found (position : Nat) (found : Match)
  /-- The search may not go past a position. -/
  | stopped (position : Nat)
  /-- The parse has stopped. -/
  | abandoned

/-- Tries operations at a position up to the first that ends behind `floor`. Their failures are
not noted, only how far they looked. -/
def tryEach (run : Evaluator) (c : Setting) (floor position : Nat) :
    (index : Nat) → List Step → State → (Option Match × Nat) × State
  | _, [], s => ((none, 0), s)
  | index, step :: steps, s =>
    match run c step position s with
    | (⟨taken, notes⟩, s) =>
      match taken.filter fun t => floor < t.stop with
      | some t => ((some ⟨index, t.trees, t.stop⟩, notes.reach), s)
      | none =>
        match tryEach run c floor position (index + 1) steps s with
        | ((found, reach), s) => ((found, max notes.reach reach), s)

/-- Tries operations at a position, without recovery. A match has to end behind the trivia. -/
def tryAt (run : Evaluator) (c : Setting) (steps : List Step) (position : Nat) (s : State) :
    (Option Match × Nat) × State :=
  let trivia := c.trivia position
  match tryEach run c.strict trivia.stop position 0 steps s with
  | ((found, reach), s) => ((found, max trivia.reach reach), s)

/-- Whether one of some terminals matches something at a position, and how far was looked. -/
def Setting.matchesAny (c : Setting) (position : Nat) : List Nat → Bool × Nat
  | [] => (false, 0)
  | t :: ts =>
    let scan := (c.program.terminal t).scanAt c.text position
    let reach := position + scan.reach
    match scan.length with
    | some (_ + 1) => (true, reach)
    | _ =>
      match c.matchesAny position ts with
      | (found, further) => (found, max reach further)

/-- Whether a search may not go past a position, and how far was looked to know. -/
def Setting.stopsAt (c : Setting) (position : Nat) (s : State) : Bool × Nat :=
  if c.text.size ≤ position || s.isHalted then (true, 0)
  else c.matchesAny position c.program.sync

/-- What a search finds at a position, if it ends there, and how far was looked. -/
def searchAt (run : Evaluator) (c : Setting) (steps : List Step) (position : Nat) (s : State) :
    (Option Search × Nat) × State :=
  match s.tick with
  | (false, s) => ((some .abandoned, 0), s)
  | (true, s) =>
    match tryAt run c steps position s with
    | ((some found, reach), s) => ((some (.found position found), reach), s)
    | ((none, reach), s) =>
      match c.stopsAt position s with
      | (true, further) => ((some (.stopped position), max reach further), s)
      | (false, further) => ((none, max reach further), s)

/-- Searches at a position and at the start of every character behind it. -/
def search (run : Evaluator) (c : Setting) (steps : List Step) :
    (rest : List Char) → (position : Nat) → State → (Search × Nat) × State
  | [], position, s =>
    match searchAt run c steps position s with
    | ((outcome, reach), s) => ((outcome.getD (.stopped position), reach), s)
  | char :: rest, position, s =>
    match searchAt run c steps position s with
    | ((some outcome, reach), s) => ((outcome, reach), s)
    | ((none, reach), s) =>
      match search run c steps rest (position + char.utf8Size) s with
      | ((outcome, further), s) => ((outcome, max reach further), s)

/-- Searches behind the trivia at a position. -/
def searchBehind (run : Evaluator) (c : Setting) (steps : List Step) (trivia : Trivia)
    (s : State) : (Search × Nat) × State :=
  match search run c steps (c.text.charsFrom trivia.stop) trivia.stop s with
  | ((outcome, reach), s) => ((outcome, max trivia.reach reach), s)

/-- The recovery of a sequence. -/
structure Resumption where
  taken : Taken
  /-- The place of the member that was found among those that were left; without one the sequence
  ends here. -/
  index : Option Nat
  reach : Nat

/-- Recovers in a sequence whose members from the failed one on are given: the sequence goes on
behind the first of them that matches further on, or ends where the search has to stop. -/
def recoverSeq (run : Evaluator) (c : Setting) (members : List Step) (expected : List Nat)
    (position : Nat) (s : State) : Resumption × State :=
  let trivia := c.trivia position
  let blank : Taken := { stop := trivia.stop, trees := trivia.leaves }
  match searchBehind run c members trivia s with
  | ((.abandoned, reach), s) => (⟨blank, none, reach⟩, s)
  | ((.stopped stop, reach), s) =>
    (⟨blank.andThen (c.takenError trivia.stop stop expected), none, reach⟩,
      s.record (.error trivia.stop stop))
  | ((.found start found, reach), s) =>
    let rest : Taken := { stop := found.stop, trees := found.trees }
    if trivia.stop < start || 0 < found.index then
      (⟨blank.andThen ((c.takenError trivia.stop start expected).andThen rest), some found.index,
        reach⟩, s.record (.error trivia.stop start))
    else (⟨blank.andThen rest, some found.index, reach⟩, s)

/-- Recovers in a repetition: the next match of the body further on is the next iteration. Where
the search has to stop the repetition ends, with nothing taken. -/
def recoverRepetition (run : Evaluator) (c : Setting) (body : Step) (expected : List Nat)
    (position : Nat) (s : State) : (Option Taken × Nat) × State :=
  let trivia := c.trivia position
  let blank : Taken := { stop := trivia.stop, trees := trivia.leaves }
  match searchBehind run c [body] trivia s with
  | ((.abandoned, reach), s) => ((none, reach), s)
  | ((.stopped _, reach), s) => ((none, reach), s)
  | ((.found start found, reach), s) =>
    let rest : Taken := { stop := found.stop, trees := found.trees }
    if trivia.stop < start then
      ((some (blank.andThen ((c.takenError trivia.stop start expected).andThen rest)), reach),
        s.record (.error trivia.stop start))
    else ((some (blank.andThen rest), reach), s)

end Packrat
