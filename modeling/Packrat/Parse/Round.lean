import Packrat.Parse.Evaluation

/-!
# Rounds

A parse is run in rounds. The first one knows no error points. A round that does not take all of
the text tells the place of its furthest failure, which becomes an error point of the next one.
The last round is the first that takes all of the text, that is stopped, that is the last allowed,
or that tells no new point.
-/

namespace Packrat

/-- What a program made of a text. -/
structure Parsed where
  tree : Tree
  /-- One error for every error node, by their starts. -/
  errors : List SyntaxError
  halted : Option Halt
  /-- The fingerprint of the program. -/
  fingerprint : UInt32
  /-- The results of rules in which no error point had a part. -/
  results : Results
  /-- The error points, in the order in which they were found. -/
  points : List Nat
  /-- The events, if they were asked for. -/
  log : List Event

namespace Parsed

/-- Whether there are errors. -/
def hasErrors (r : Parsed) : Bool := !r.errors.isEmpty

/-- The text. -/
def text (r : Parsed) : String := r.tree.text

/-- Whether two results have the same tree and the same errors. -/
def agrees (r s : Parsed) : Bool := r.tree = s.tree && r.errors = s.errors

end Parsed

/-- What is fixed in a round with some error points. -/
def roundSetting (p : Program) (o : ParseOptions) (text : Text) (points : List Nat) : Setting where
  program := p
  text := text
  memoize := o.memoize
  points := points.mergeSort
  recovering := !points.isEmpty

/-- Runs the start rule and takes the trivia behind it. -/
def runRound (c : Setting) (depth : Nat) (s : State) : Answer × State :=
  match runRule (evaluate depth) c c.program.start 0 s with
  | (⟨some t, notes⟩, s) =>
    let trivia := c.trivia t.stop
    (⟨some (t.andThen { stop := trivia.stop, trees := trivia.leaves }), notes⟩, s)
  | (⟨none, notes⟩, s) => (⟨none, notes⟩, s)

/-- The error point that a round tells: its furthest failure outside the error points, or the end
of what was taken if that is further. -/
def Answer.point (a : Answer) : Nat :=
  max (a.notes.frontier.getD 0) ((a.taken.map (·.stop)).getD 0)

/-- The error point with which to run another round after the round of a number, unless that one
is the last. -/
def nextPoint? (o : ParseOptions) (text : Text) (points : List Nat) (number : Nat) (a : Answer)
    (s : State) : Option Nat :=
  let complete := a.taken.any (·.stop == text.size)
  if complete || s.isHalted || o.maxRounds.any (· ≤ number) || points.contains a.point then none
  else some a.point

/-- Runs the round of a number and, as long as `left` allows, those after it. Every round has one
error point more than the one before, so there are no more than two rounds more than bytes. -/
def runRounds (p : Program) (o : ParseOptions) (text : Text) :
    (left number : Nat) → (points : List Nat) → State → (Answer × List Nat) × State
  | left, number, points, s =>
    let c := roundSetting p o text points
    match runRound c o.recursionLimit (s.record (.round number c.points)) with
    | (answer, s) =>
      match left, nextPoint? o text points number answer s with
      | left + 1, some point =>
        runRounds p o text left (number + 1) (points ++ [point]) s.settle
      | _, _ => ((answer, points), s)

/-- What a last round took, up to the end of the text. What it left over is an error, before which
nothing is expected unless the furthest failure is there. -/
def takenInFull (c : Setting) (a : Answer) (s : State) : Taken × State :=
  let taken := a.taken.getD { stop := 0 }
  if a.taken.isNone || taken.stop < c.text.size then
    let expected :=
      match a.notes.far with
      | some far => if far.position = taken.stop && !s.isHalted then far.expected else []
      | none => []
    (taken.andThen (c.takenError taken.stop c.text.size expected),
      s.record (.error taken.stop c.text.size))
  else (taken, s)

namespace Program

/-- Parses a text, starting from results that are known to hold. -/
def parseWith (p : Program) (o : ParseOptions) (known : Results) (traced : Bool) (text : Text) :
    Parsed :=
  let start : State :=
    { memo := { strict := known }, fuel := o.fuel, patience := o.patience, halted := none,
      log := if traced then some [] else none }
  match runRounds p o text (text.size + 1) 1 [] start with
  | ((answer, points), s) =>
    match takenInFull (roundSetting p o text points) answer s with
    | (taken, s) =>
      { tree := .node p.startRule.kind taken.trees
        errors := taken.errors.mergeSort fun a b => a.start ≤ b.start
        halted := s.halted
        fingerprint := p.fingerprint
        results := s.memo.strict
        points := points
        log := (s.log.getD []).reverse }

/-- Parses a text. -/
def parse (p : Program) (o : ParseOptions) (text : String) : Parsed :=
  p.parseWith o {} false (Text.ofString text)

/-- Parses a text and logs what happens. -/
def parseTraced (p : Program) (o : ParseOptions) (text : String) : Parsed :=
  p.parseWith o {} true (Text.ofString text)

end Program

end Packrat
