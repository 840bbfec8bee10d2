import Packrat.Parse.Reuse
import Packrat.Parse.Trace

/-!
# Careful parses

The parse once more, as it is run where the text is an array of bytes that may be cut between
characters only. Every position that the parse moves to, every stretch that it cuts out of the text
or reports and the end of every result that it keeps or uses again is looked at first; a position
inside a character or behind the end is a slip, and so is a stretch that ends before it starts. The
definitions elsewhere take a default in such a case. A parse that makes no slip never needs one.
-/

namespace Packrat

/-- Why a text cannot be cut. -/
inductive Slip where
  /-- A position lies inside a character or behind the end. -/
  | astray (position : Nat)
  /-- A stretch ends before it starts. -/
  | reversed (start stop : Nat)
  deriving Repr, DecidableEq

/-- A computation that may make a slip. -/
abbrev Careful := Except Slip

/-- A careful way to run an operation at a position. -/
abbrev CarefulEvaluator := Setting → Step → (position : Nat) → State → Careful (Answer × State)

namespace Careful

/-- A position that is moved to. -/
def reach (text : Text) (position : Nat) : Careful Unit :=
  if text.isBoundary position then .ok () else .error (.astray position)

/-- A stretch of the text that is cut out or reported. -/
def stretch (text : Text) (start stop : Nat) : Careful Unit := do
  reach text start
  reach text stop
  if stop < start then .error (.reversed start stop)

/-- The text between two positions. -/
def slice (text : Text) (start stop : Nat) : Careful String := do
  stretch text start stop
  return text.slice start stop

/-- What an entry takes: it ends at a boundary, and so do its errors. -/
def taken (text : Text) (t : Taken) : Careful Unit := do
  reach text t.stop
  t.errors.forM fun e => stretch text e.start e.stop

/-- A result that is kept or used again. -/
def entry (text : Text) (e : Entry) : Careful Unit :=
  match e.taken with
  | some t => taken text t
  | none => return ()

section

variable (c : Setting)

/-- The leaf of a piece, whose text is cut out. -/
def leaf (p : Piece) : Careful Tree := return .leaf p.kind (← slice c.text p.start p.stop)

/-- The pieces that extras match one after another, with a move behind each. -/
def extraPieces : (count position : Nat) → Careful (List Piece × Nat)
  | 0, _ => return ([], 0)
  | count + 1, position =>
    match c.firstExtra position c.program.extras with
    | (none, reach) => return ([], reach)
    | (some piece, examined) => do
      reach c.text piece.stop
      let (pieces, further) ← extraPieces count piece.stop
      return (piece :: pieces, max examined further)

/-- The trivia at a position, moved over piece by piece. -/
def trivia (position : Nat) : Careful Trivia := do
  reach c.text position
  let (pieces, further) ← extraPieces c (c.text.size + 1 - position) position
  let leaves ← (pieces.foldr Piece.push []).mapM (leaf c)
  return ⟨leaves, (pieces.getLast?.map (·.stop)).getD position, further⟩

/-- The node of an error, with the text that was skipped. -/
def errorNode (start stop : Nat) : Careful Tree := do
  if start < stop then return .node errorKind [← leaf c ⟨skippedKind, start, stop⟩]
  else return .node errorKind []

/-- An error that is taken for a stretch, which is reported. -/
def takenError (start stop : Nat) (expected : List Nat) : Careful Taken := do
  stretch c.text start stop
  return ⟨stop, [← errorNode c start stop], [c.error start stop expected]⟩

/-- The trivia in front of a token, unless the token is immediate. -/
def front (immediate : Bool) (position : Nat) : Careful Trivia :=
  if immediate then return ⟨[], position, 0⟩ else trivia c position

/-- The leaf of a token, unless the token is empty. -/
def leaves (p : Piece) : Careful (List Tree) :=
  if p.stop = p.start then return [] else [p].mapM (leaf c)

/-- Matches a terminal behind the trivia in front of it and cuts its leaf out. -/
def runToken (terminal kind : Nat) (immediate : Bool) (position : Nat) (s : State) :
    Careful (Answer × State) := do
  let trivia ← front c immediate position
  let start := trivia.stop
  let scan := (c.program.terminal terminal).scanAt c.text start
  let examined := max trivia.reach (start + scan.reach)
  let s := s.record (.token kind start scan.length)
  match scan.length with
  | some n =>
    let leaf ← leaves c ⟨kind, start, start + n⟩
    return (⟨some { stop := start + n, trees := trivia.leaves ++ leaf }, .seen examined⟩, s)
  | none =>
    let frontier := if c.isPoint start then none else some start
    return (⟨none, ⟨some ⟨start, [kind]⟩, frontier, examined⟩⟩, s)

end

section

variable (run : CarefulEvaluator)

/-- Runs an operation where the cursor is and looks where it is behind it. -/
def runAt (c : Setting) (step : Step) (position : Nat) (s : State) :
    Careful (Answer × State) := do
  reach c.text position
  let (answer, s) ← run c step position s
  match answer.taken with
  | some t => taken c.text t
  | none => pure ()
  return (answer, s)

/-- Runs the body of a rule and looks at the result before it is kept. -/
def runBody (c : Setting) (rule position : Nat) (s : State) : Careful (Answer × State) := do
  let (answer, s) ←
    runAt run c (c.program.rule rule).body position (s.record (.call rule position))
  let kept := answer.entry position
  entry c.text kept
  let s := keep c rule position kept s
  return (⟨answer.taken, ⟨kept.far, kept.frontier, kept.reach⟩⟩,
    s.record (.leave rule (answer.taken.map (·.stop))))

/-- Runs a rule, or looks at a kept result and uses it again. -/
def runRule (c : Setting) (rule position : Nat) (s : State) : Careful (Answer × State) :=
  match s.ask with
  | (false, s) => return (.idle position, s)
  | (true, s) =>
    match known? c rule position s with
    | some (known, recovering) => do
      entry c.text known
      return (known.answer c recovering, s.record (.hit rule position (known.taken.map (·.stop))))
    | none => runBody run c rule position s

/-- Calls a rule and closes its node, unless the rule is hidden. -/
def runCall (c : Setting) (rule : Nat) (renamed : Option Nat) (position : Nat) (s : State) :
    Careful (Answer × State) := do
  match ← runRule run c rule position s with
  | (⟨some t, notes⟩, s) =>
    if s.isHalted && t.trees.isEmpty then return (⟨some t, notes⟩, s)
    else
      let info := c.program.rule rule
      if info.hidden && renamed.isNone then return (⟨some t, notes⟩, s)
      else return (⟨some { t with trees := c.close (renamed.getD info.kind) t.trees }, notes⟩, s)
  | (⟨none, notes⟩, s) => return (⟨none, notes⟩, s)

/-- Runs an operation and closes a node around what it took. -/
def runWrap (c : Setting) (body : Step) (kind : Nat) (position : Nat) (s : State) :
    Careful (Answer × State) := do
  match ← runAt run c body position s with
  | (⟨taken, notes⟩, s) =>
    return (⟨taken.map fun t => { t with trees := c.close kind t.trees }, notes⟩, s)

/-- Tries operations in turn, each from the position that was moved to. -/
def tryEach (c : Setting) (floor position : Nat) :
    (index : Nat) → List Step → State → Careful ((Option Match × Nat) × State)
  | _, [], s => return ((none, 0), s)
  | index, step :: steps, s => do
    match ← runAt run c step position s with
    | (⟨taken, notes⟩, s) =>
      match taken.filter fun t => floor < t.stop with
      | some t => return ((some ⟨index, t.trees, t.stop⟩, notes.reach), s)
      | none =>
        match ← tryEach c floor position (index + 1) steps s with
        | ((found, reach), s) => return ((found, max notes.reach reach), s)

/-- Tries operations behind the trivia at a position. -/
def tryAt (c : Setting) (steps : List Step) (position : Nat) (s : State) :
    Careful ((Option Match × Nat) × State) := do
  let trivia ← trivia c position
  match ← tryEach run c.strict trivia.stop position 0 steps s with
  | ((found, reach), s) => return ((found, max trivia.reach reach), s)

/-- Searches at one position. -/
def searchAt (c : Setting) (steps : List Step) (position : Nat) (s : State) :
    Careful ((Option Search × Nat) × State) :=
  match s.tick with
  | (false, s) => return ((some .abandoned, 0), s)
  | (true, s) => do
    match ← tryAt run c steps position s with
    | ((some found, reach), s) => return ((some (.found position found), reach), s)
    | ((none, reach), s) =>
      match c.stopsAt position s with
      | (true, further) => return ((some (.stopped position), max reach further), s)
      | (false, further) => return ((none, max reach further), s)

/-- Searches at a position and at the start of every character behind it, each of which is where
the rest of the text is cut off. -/
def search (c : Setting) (steps : List Step) :
    (rest : List Char) → (position : Nat) → State → Careful ((Search × Nat) × State)
  | [], position, s => do
    stretch c.text position c.text.size
    match ← searchAt run c steps position s with
    | ((outcome, reach), s) => return ((outcome.getD (.stopped position), reach), s)
  | char :: rest, position, s => do
    stretch c.text position c.text.size
    match ← searchAt run c steps position s with
    | ((some outcome, reach), s) => return ((outcome, reach), s)
    | ((none, reach), s) =>
      match ← search c steps rest (position + char.utf8Size) s with
      | ((outcome, further), s) => return ((outcome, max reach further), s)

/-- Searches behind some trivia. -/
def searchBehind (c : Setting) (steps : List Step) (trivia : Trivia) (s : State) :
    Careful ((Search × Nat) × State) := do
  match ← search run c steps (c.text.charsFrom trivia.stop) trivia.stop s with
  | ((outcome, reach), s) => return ((outcome, max trivia.reach reach), s)

/-- Recovers in a sequence; the stretch that is skipped is reported. -/
def recoverSeq (c : Setting) (members : List Step) (expected : List Nat) (position : Nat)
    (s : State) : Careful (Resumption × State) := do
  let trivia ← trivia c position
  let blank : Taken := { stop := trivia.stop, trees := trivia.leaves }
  match ← searchBehind run c members trivia s with
  | ((.abandoned, reach), s) => return (⟨blank, none, reach⟩, s)
  | ((.stopped stop, reach), s) =>
    return (⟨blank.andThen (← takenError c trivia.stop stop expected), none, reach⟩,
      s.record (.error trivia.stop stop))
  | ((.found start found, reach), s) =>
    let rest : Taken := { stop := found.stop, trees := found.trees }
    if trivia.stop < start || 0 < found.index then
      return (⟨blank.andThen ((← takenError c trivia.stop start expected).andThen rest),
        some found.index, reach⟩, s.record (.error trivia.stop start))
    else return (⟨blank.andThen rest, some found.index, reach⟩, s)

/-- Recovers in a repetition; the stretch that is skipped is reported. -/
def recoverRepetition (c : Setting) (body : Step) (expected : List Nat) (position : Nat)
    (s : State) : Careful ((Option Taken × Nat) × State) := do
  let trivia ← trivia c position
  let blank : Taken := { stop := trivia.stop, trees := trivia.leaves }
  match ← searchBehind run c [body] trivia s with
  | ((.abandoned, reach), s) => return ((none, reach), s)
  | ((.stopped _, reach), s) => return ((none, reach), s)
  | ((.found start found, reach), s) =>
    let rest : Taken := { stop := found.stop, trees := found.trees }
    if trivia.stop < start then
      return ((some (blank.andThen ((← takenError c trivia.stop start expected).andThen rest)),
        reach), s.record (.error trivia.stop start))
    else return ((some (blank.andThen rest), reach), s)

/-- Runs the members of a sequence, each from the end of the one before it. -/
def runSeq (c : Setting) : List Step → (skip : Nat) → (isFirst : Bool) → (position : Nat) →
    State → Careful (Answer × State)
  | [], _, _, position, s => return (.idle position, s)
  | _ :: rest, skip + 1, _, position, s => runSeq c rest skip false position s
  | step :: rest, 0, isFirst, position, s => do
    match ← runAt run c step position s with
    | (⟨some t, notes⟩, s) =>
      match ← runSeq c rest 0 false t.stop s with
      | (answer, s) => return (.behind t notes answer, s)
    | (⟨none, notes⟩, s) =>
      match if isFirst then none else c.recoverable? notes with
      | none => return (⟨none, notes⟩, s)
      | some failure =>
        match ← recoverSeq run c (step :: rest) failure.expected position s with
        | (⟨t, none, reach⟩, s) => return (⟨some t, notes.join (.seen reach)⟩, s)
        | (⟨t, some index, reach⟩, s) =>
          match ← runSeq c rest index false t.stop s with
          | (answer, s) => return (.behind t (notes.join (.seen reach)) answer, s)

/-- Runs alternatives in turn, each from the same position. -/
def runChoice (c : Setting) : List Step → (position : Nat) → State → Careful (Answer × State)
  | [], _, s => return (⟨none, {}⟩, s)
  | step :: rest, position, s => do
    match ← runAt run c step position s with
    | (⟨some t, notes⟩, s) => return (⟨some t, notes⟩, s)
    | (⟨none, notes⟩, s) =>
      match ← runChoice c rest position (s.record (.backtrack position)) with
      | (answer, s) => return (.noting notes answer, s)

/-- Runs the iterations of a repetition, each from the end of the one before it. -/
def runIterations (c : Setting) (body : Step) (min : Nat) (max : Option Nat) :
    (left count position : Nat) → State → Careful (Answer × State)
  | 0, count, position, s => return (endRepetition min count position {}, s)
  | left + 1, count, position, s =>
    if max.any (· ≤ count) then return (endRepetition min count position {}, s)
    else do
      match ← runAt run c body position s with
      | (⟨some t, notes⟩, s) =>
        if t.stop = position then return (endRepetition min count position notes, s)
        else
          match ← runIterations c body min max left (count + 1) t.stop s with
          | (answer, s) => return (.behind t notes answer, s)
      | (⟨none, notes⟩, s) =>
        match if 1 ≤ count || min = 0 then c.recoverable? notes else none with
        | none => return (endRepetition min count position notes, s)
        | some failure =>
          match ← recoverRepetition run c body failure.expected position s with
          | ((none, reach), s) =>
            return (endRepetition min count position (notes.join (.seen reach)), s)
          | ((some t, reach), s) =>
            match ← runIterations c body min max left (count + 1) t.stop s with
            | (answer, s) => return (.behind t (notes.join (.seen reach)) answer, s)

/-- Runs an operation. -/
def runStep (c : Setting) (step : Step) (position : Nat) (s : State) : Careful (Answer × State) :=
  match step with
  | .blank => return (.idle position, s)
  | .token terminal kind immediate => runToken c terminal kind immediate position s
  | .call rule renamed => runCall run c rule renamed position s
  | .seq members => runSeq run c members 0 true position s
  | .choice members => runChoice run c members position s
  | .repetition body min max =>
    runIterations run c body min.toNat (max.map (·.toNat)) (c.text.size + 1 - position) 0
      position s
  | .wrap body kind => runWrap run c body kind position s

end

/-- Evaluates an operation with so many levels of nesting left. -/
def evaluate : (depth : Nat) → CarefulEvaluator
  | 0, _, _, position, s =>
    match s.tick with
    | (false, s) => return (.idle position, s)
    | (true, s) => return (.idle position, s.stop .tooDeep)
  | depth + 1, c, step, position, s =>
    match s.tick with
    | (false, s) => return (.idle position, s)
    | (true, s) => runStep (evaluate depth) c step position s

/-- Runs a round from the start of the text, and the trivia behind what it takes. -/
def runRound (c : Setting) (depth : Nat) (s : State) : Careful (Answer × State) := do
  match ← runRule (evaluate depth) c c.program.start 0 s with
  | (⟨some t, notes⟩, s) =>
    let trivia ← trivia c t.stop
    return (⟨some (t.andThen { stop := trivia.stop, trees := trivia.leaves }), notes⟩, s)
  | (⟨none, notes⟩, s) => return (⟨none, notes⟩, s)

/-- The round of a number that starts in a state. -/
def runRoundOf (p : Program) (o : ParseOptions) (text : Text) (number : Nat) (points : List Nat)
    (s : State) : Careful (Answer × State) :=
  let c := roundSetting p o text points
  runRound c o.recursionLimit (s.record (.round number c.points))

/-- Runs rounds as long as one tells another error point, which is looked at. -/
def runRounds (p : Program) (o : ParseOptions) (text : Text) :
    (left number : Nat) → (points : List Nat) → State → Careful ((Answer × List Nat) × State)
  | 0, number, points, s => do
    let (answer, s) ← runRoundOf p o text number points s
    return ((answer, points), s)
  | left + 1, number, points, s => do
    let (answer, s) ← runRoundOf p o text number points s
    match nextPoint? o text points number answer s with
    | none => return ((answer, points), s)
    | some point =>
      reach text point
      runRounds p o text left (number + 1) (points ++ [point]) s.settle

/-- What is taken in the end, where text that is left over is reported. -/
def takenInFull (c : Setting) (a : Answer) (s : State) : Careful (Taken × State) := do
  let taken := a.taken.getD { stop := 0 }
  if a.taken.isNone || taken.stop < c.text.size then
    let expected :=
      match a.notes.far with
      | some far => if far.position = taken.stop && !s.isHalted then far.expected else []
      | none => []
    return (taken.andThen (← takenError c taken.stop c.text.size expected),
      s.record (.error taken.stop c.text.size))
  else return (taken, s)

/-- Parses a text, starting from known results. -/
def parseWith (p : Program) (o : ParseOptions) (known : Results) (traced : Bool) (text : Text) :
    Careful Parsed := do
  let start : State :=
    { memo := { strict := known }, fuel := o.fuel, patience := o.patience, halted := none,
      log := if traced then some [] else none }
  let ((answer, points), s) ← runRounds p o text (text.size + 1) 1 [] start
  let (taken, s) ← takenInFull (roundSetting p o text points) answer s
  return {
    tree := .node p.startRule.kind taken.trees
    errors := taken.errors.mergeSort fun a b => a.start ≤ b.start
    halted := s.halted
    fingerprint := p.fingerprint
    results := s.memo.strict
    points := points
    log := (s.log.getD []).reverse }

section

variable (v : TraceView)

/-- The line of a terminal. The longest trace shows what it matched. -/
def tokenLine (kind position : Nat) (length : Option Nat) : Careful String :=
  let what := v.kindText kind ++ " " ++ v.positionText position
  match length with
  | some n =>
    if v.verbosity = .longest then
      return "  " ++ what ++ " " ++ quoted (← slice v.text position (position + n))
    else return "  " ++ what
  | none => return v.palette.inRed "!" ++ " " ++ what

/-- Adds the line of an event. Only that of a terminal needs a part of the text. -/
def add (t : Trace) : Event → Careful Trace
  | .token kind position length =>
    if v.verbosity = .brief then return t
    else return t.indent (← tokenLine v kind position length)
  | e => return t.add v e

/-- The lines of a trace. -/
def lines (events : List Event) : Careful (List String) :=
  return (← events.foldlM (add v) {}).lines.reverse

end

end Careful

end Packrat
