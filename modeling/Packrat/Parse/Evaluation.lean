import Packrat.Parse.Recovery

/-!
# Running operations

`evaluate` runs an operation at a position. It recurs on how deeply operations may still nest; the
functions before it say what each operation does, given the way `run` to run the operations in it.
A parse that has stopped runs nothing more, and every operation succeeds without taking anything,
so that the nodes that are open close around what was taken.
-/

namespace Packrat

/-- Runs a terminal, behind trivia unless it is immediate. -/
def runToken (c : Setting) (terminal kind : Nat) (immediate : Bool) (position : Nat) (s : State) :
    Answer × State :=
  let trivia := if immediate then ⟨[], position, 0⟩ else c.trivia position
  let start := trivia.stop
  let scan := (c.program.terminal terminal).scanAt c.text start
  let reach := max trivia.reach (start + scan.reach)
  let s := s.record (.token kind start scan.length)
  match scan.length with
  | some n =>
    let leaf := if n = 0 then [] else [c.leaf ⟨kind, start, start + n⟩]
    (⟨some { stop := start + n, trees := trivia.leaves ++ leaf }, .seen reach⟩, s)
  | none =>
    let frontier := if c.isPoint start then none else some start
    (⟨none, ⟨some ⟨start, [kind]⟩, frontier, reach⟩⟩, s)

/-- The answer that a kept result stands for. A strict one may have been made in another round, so
which of its failures is no error point is asked anew. -/
def Entry.answer (c : Setting) (entry : Entry) (recovering : Bool) : Answer :=
  let frontier :=
    if recovering then entry.frontier
    else (entry.far.map (·.position)).filter fun p => !c.isPoint p
  ⟨entry.taken, ⟨entry.far, frontier, entry.reach⟩⟩

/-- The entry for the answer of a rule at a position. -/
def Answer.entry (a : Answer) (position : Nat) : Entry :=
  ⟨a.taken, max position a.notes.reach, a.notes.far, a.notes.frontier⟩

/-- Keeps the result of a rule, unless the parse has stopped. A result in whose text no error
point lies was found as without recovery. -/
def keep (c : Setting) (rule position : Nat) (entry : Entry) (s : State) : State :=
  if c.memoize && !s.isHalted then
    s.remember (c.recovering && anyBetween c.points position entry.reach) (rule, position) entry
  else s

/-- Runs the body of a rule and keeps the result. -/
def runBody (run : Evaluator) (c : Setting) (rule position : Nat) (s : State) : Answer × State :=
  match run c (c.program.rule rule).body position (s.record (.call rule position)) with
  | (answer, s) =>
    let entry := answer.entry position
    let s := keep c rule position entry s
    (⟨answer.taken, ⟨entry.far, entry.frontier, entry.reach⟩⟩,
      s.record (.leave rule (answer.taken.map (·.stop))))

/-- The kept result of a rule at a position. -/
def known? (c : Setting) (rule position : Nat) (s : State) : Option (Entry × Bool) :=
  if c.memoize then s.memo.find? c.recovering c.points (rule, position) else none

/-- Runs a rule, or uses its kept result. -/
def runRule (run : Evaluator) (c : Setting) (rule position : Nat) (s : State) : Answer × State :=
  match s.ask with
  | (false, s) => (.idle position, s)
  | (true, s) =>
    match known? c rule position s with
    | some (entry, recovering) =>
      (entry.answer c recovering, s.record (.hit rule position (entry.taken.map (·.stop))))
    | none => runBody run c rule position s

/-- Runs a rule and closes its node. The trees of a hidden rule without another name are not put
into a node, nor is nothing at all once the parse has stopped. -/
def runCall (run : Evaluator) (c : Setting) (rule : Nat) (renamed : Option Nat) (position : Nat)
    (s : State) : Answer × State :=
  match runRule run c rule position s with
  | (⟨some t, notes⟩, s) =>
    if s.isHalted && t.trees.isEmpty then (⟨some t, notes⟩, s)
    else
      let info := c.program.rule rule
      if info.hidden && renamed.isNone then (⟨some t, notes⟩, s)
      else (⟨some { t with trees := c.close (renamed.getD info.kind) t.trees }, notes⟩, s)
  | (⟨none, notes⟩, s) => (⟨none, notes⟩, s)

/-- Runs an operation and puts its trees into a node. -/
def runWrap (run : Evaluator) (c : Setting) (body : Step) (kind : Nat) (position : Nat)
    (s : State) : Answer × State :=
  match run c body position s with
  | (⟨taken, notes⟩, s) =>
    (⟨taken.map fun t => { t with trees := c.close kind t.trees }, notes⟩, s)

/-- Runs operations in order, the first `skip` of them left out. One that fails behind the first
of the sequence, at an error point, is recovered from. -/
def runSeq (run : Evaluator) (c : Setting) :
    List Step → (skip : Nat) → (isFirst : Bool) → (position : Nat) → State → Answer × State
  | [], _, _, position, s => (.idle position, s)
  | _ :: rest, skip + 1, _, position, s => runSeq run c rest skip false position s
  | step :: rest, 0, isFirst, position, s =>
    match run c step position s with
    | (⟨some t, notes⟩, s) =>
      match runSeq run c rest 0 false t.stop s with
      | (answer, s) => (.behind t notes answer, s)
    | (⟨none, notes⟩, s) =>
      match if isFirst then none else c.recoverable? notes with
      | none => (⟨none, notes⟩, s)
      | some failure =>
        match recoverSeq run c (step :: rest) failure.expected position s with
        | (⟨t, none, reach⟩, s) => (⟨some t, notes.join (.seen reach)⟩, s)
        | (⟨t, some index, reach⟩, s) =>
          match runSeq run c rest index false t.stop s with
          | (answer, s) => (.behind t (notes.join (.seen reach)) answer, s)

/-- Runs alternatives up to the first that succeeds. -/
def runChoice (run : Evaluator) (c : Setting) :
    List Step → (position : Nat) → State → Answer × State
  | [], _, s => (⟨none, {}⟩, s)
  | step :: rest, position, s =>
    match run c step position s with
    | (⟨some t, notes⟩, s) => (⟨some t, notes⟩, s)
    | (⟨none, notes⟩, s) =>
      match runChoice run c rest position (s.record (.backtrack position)) with
      | (answer, s) => (.noting notes answer, s)

/-- The end of a repetition after some number of iterations, of which there have to be enough. -/
def endRepetition (min count position : Nat) (notes : Notes) : Answer :=
  ⟨if count < min then none else some { stop := position }, notes⟩

/-- Runs the iterations of a repetition. Each but the last takes a byte at least, so no more are
left than bytes. An iteration that fails at an error point is recovered from, once there has been
one or if there need not be any. -/
def runIterations (run : Evaluator) (c : Setting) (body : Step) (min : Nat) (max : Option Nat) :
    (left count position : Nat) → State → Answer × State
  | 0, count, position, s => (endRepetition min count position {}, s)
  | left + 1, count, position, s =>
    if max.any (· ≤ count) then (endRepetition min count position {}, s)
    else
      match run c body position s with
      | (⟨some t, notes⟩, s) =>
        if t.stop = position then (endRepetition min count position notes, s)
        else
          match runIterations run c body min max left (count + 1) t.stop s with
          | (answer, s) => (.behind t notes answer, s)
      | (⟨none, notes⟩, s) =>
        match if 1 ≤ count || min = 0 then c.recoverable? notes else none with
        | none => (endRepetition min count position notes, s)
        | some failure =>
          match recoverRepetition run c body failure.expected position s with
          | ((none, reach), s) =>
            (endRepetition min count position (notes.join (.seen reach)), s)
          | ((some t, reach), s) =>
            match runIterations run c body min max left (count + 1) t.stop s with
            | (answer, s) => (.behind t (notes.join (.seen reach)) answer, s)

/-- Runs an operation, given the way to run those in it. -/
def runStep (run : Evaluator) (c : Setting) (step : Step) (position : Nat) (s : State) :
    Answer × State :=
  match step with
  | .blank => (.idle position, s)
  | .token terminal kind immediate => runToken c terminal kind immediate position s
  | .call rule renamed => runCall run c rule renamed position s
  | .seq members => runSeq run c members 0 true position s
  | .choice members => runChoice run c members position s
  | .repetition body min max =>
    runIterations run c body min.toNat (max.map (·.toNat)) (c.text.size + 1 - position) 0
      position s
  | .wrap body kind => runWrap run c body kind position s

/-- Runs an operation in which operations nest at most `depth` deep. -/
def evaluate : (depth : Nat) → Evaluator
  | 0, _, _, position, s =>
    match s.tick with
    | (false, s) => (.idle position, s)
    | (true, s) => (.idle position, s.stop .tooDeep)
  | depth + 1, c, step, position, s =>
    match s.tick with
    | (false, s) => (.idle position, s)
    | (true, s) => runStep (evaluate depth) c step position s

end Packrat
