import Packrat.Parse.Evaluation

/-!
# Running operations on a cursor

The operations once more, as a machine runs them that keeps all it has taken in one place: a
position, a stack of trees and a list of errors, with the notes of the rule that is open. An
operation says whether it succeeded. It may push trees and errors and move the cursor before it
fails; what it pushed is then cut off again, back to a mark that was set before. A rule takes what
its body pushed from the stack again to keep it, and a node is closed by taking its children from
the stack.
-/

namespace Packrat

/-- What a parse has at hand between two operations. -/
@[ext] structure Cursor where
  position : Nat
  /-- The trees that were made, the latest last. -/
  trees : List Tree
  errors : List SyntaxError
  /-- The furthest failure since it was last set aside. -/
  far : Option Failure
  frontier : Option Nat
  /-- The end of the text that the open rule has looked at. -/
  examined : Nat
  state : State

/-- A way to run an operation on a cursor, which tells whether it succeeded. -/
abbrev CursorEvaluator := Setting → Step → Cursor → Bool × Cursor

namespace Cursor

/-- How much there was at some moment. -/
structure Mark where
  position : Nat
  trees : Nat
  errors : Nat

/-- How much there is now. -/
def mark (k : Cursor) : Mark := ⟨k.position, k.trees.length, k.errors.length⟩

/-- Goes back to a mark and cuts off what was pushed since. -/
def reset (k : Cursor) (m : Mark) : Cursor :=
  { k with
    position := m.position
    trees := k.trees.take m.trees
    errors := k.errors.take m.errors }

/-- Notes an event. -/
def record (k : Cursor) (e : Event) : Cursor := { k with state := k.state.record e }

/-- Notes a look at the text. -/
def look (k : Cursor) (reach : Nat) : Cursor := { k with examined := max k.examined reach }

/-- Pushes trees and moves the cursor behind them. -/
def push (k : Cursor) (trees : List Tree) (stop : Nat) : Cursor :=
  { k with position := stop, trees := k.trees ++ trees }

/-- Takes the trivia at the cursor. -/
def skipExtras (c : Setting) (k : Cursor) : Cursor :=
  let trivia := c.trivia k.position
  (k.look trivia.reach).push trivia.leaves trivia.stop

/-- Notes that a terminal failed at a position. -/
def expect (c : Setting) (position kind : Nat) (k : Cursor) : Cursor :=
  { k with
    far := furthest k.far (some ⟨position, [kind]⟩)
    frontier := if c.isPoint position then k.frontier else greater k.frontier (some position) }

/-- Wraps the trees from a place of the stack on into a node, except for the trivia they begin
with. -/
def closeNode (c : Setting) (start kind : Nat) (k : Cursor) : Cursor :=
  let split := start + ((k.trees.drop start).takeWhile c.isTrivia).length
  { k with trees := k.trees.take split ++ [.node kind (k.trees.drop split)] }

/-- Pushes an error over a stretch of the text, with its node. -/
def emitError (c : Setting) (start stop : Nat) (expected : List Nat) (k : Cursor) : Cursor :=
  { k.record (.error start stop) with
    trees := k.trees ++ [c.errorNode start stop]
    errors := k.errors ++ [c.error start stop expected] }

/-- Runs a terminal, behind trivia unless it is immediate. -/
def token (c : Setting) (terminal kind : Nat) (immediate : Bool) (k : Cursor) : Bool × Cursor :=
  let start := k.mark
  let k := if immediate then k else k.skipExtras c
  let position := k.position
  let scan := (c.program.terminal terminal).scanAt c.text position
  let k := (k.look (position + scan.reach)).record (.token kind position scan.length)
  match scan.length with
  | some n =>
    if n = 0 then (true, k)
    else (true, k.push [c.leaf ⟨kind, position, position + n⟩] (position + n))
  | none => (false, (k.expect c position kind).reset start)

/-- Uses the kept result of a rule as if the rule were run. -/
def replay (c : Setting) (entry : Entry) (recovering : Bool) (k : Cursor) : Bool × Cursor :=
  let frontier :=
    if recovering then entry.frontier
    else (entry.far.map (·.position)).filter fun p => !c.isPoint p
  let k : Cursor :=
    { k.look entry.reach with
      far := furthest k.far entry.far
      frontier := greater k.frontier frontier }
  match entry.taken with
  | some t => (true, { k.push t.trees t.stop with errors := k.errors ++ t.errors })
  | none => (false, k)

/-- Runs the body of a rule, with notes of its own, and keeps the result. -/
def enter (run : CursorEvaluator) (c : Setting) (rule : Nat) (k : Cursor) : Bool × Cursor :=
  let start := k.mark
  let inner : Cursor :=
    { k.record (.call rule k.position) with
      far := none
      frontier := none
      examined := k.position }
  match run c (c.program.rule rule).body inner with
  | (ok, k') =>
    let taken : Taken :=
      ⟨k'.position, k'.trees.drop start.trees, k'.errors.drop start.errors⟩
    let entry : Entry := ⟨if ok then some taken else none, k'.examined, k'.far, k'.frontier⟩
    let state := keep c rule k.position entry k'.state
    (ok,
      { k' with
        far := furthest k.far k'.far
        frontier := greater k.frontier k'.frontier
        examined := max k.examined k'.examined
        state := state.record (.leave rule (if ok then some k'.position else none)) })

/-- Runs a rule, or uses its kept result. -/
def rule (run : CursorEvaluator) (c : Setting) (rule : Nat) (k : Cursor) : Bool × Cursor :=
  match k.state.ask with
  | (false, s) => (true, { k with state := s })
  | (true, s) =>
    match known? c rule k.position s with
    | some (entry, recovering) =>
      let s := s.record (.hit rule k.position (entry.taken.map (·.stop)))
      { k with state := s }.replay c entry recovering
    | none => { k with state := s }.enter run c rule

/-- Runs a rule and closes its node, unless the rule is hidden or the parse has stopped with
nothing pushed. -/
def call (run : CursorEvaluator) (c : Setting) (rule : Nat) (renamed : Option Nat) (k : Cursor) :
    Bool × Cursor :=
  let start := k.mark
  match k.rule run c rule with
  | (false, k) => (false, k)
  | (true, k) =>
    if k.state.isHalted && k.trees.length = start.trees then (true, k)
    else
      let info := c.program.rule rule
      if info.hidden && renamed.isNone then (true, k)
      else (true, k.closeNode c start.trees (renamed.getD info.kind))

/-- Runs an operation and puts what it pushed into a node. -/
def wrap (run : CursorEvaluator) (c : Setting) (body : Step) (kind : Nat) (k : Cursor) :
    Bool × Cursor :=
  let start := k.mark
  match run c body k with
  | (false, k) => (false, k)
  | (true, k) => (true, k.closeNode c start.trees kind)

/-- Tries operations at a position up to the first that ends behind `floor`, and takes back what
they pushed. -/
def attempt (run : CursorEvaluator) (c : Setting) (floor position : Nat) :
    (index : Nat) → List Step → Cursor → Option Match × Cursor
  | _, [], k => (none, k)
  | index, step :: steps, k =>
    let m := k.mark
    match run c step { k with position := position } with
    | (ok, k) =>
      if ok && floor < k.position then
        (some ⟨index, k.trees.drop m.trees, k.position⟩, k.reset m)
      else attempt run c floor position (index + 1) steps (k.reset m)

/-- Tries operations at a position without recovery. Their failures are forgotten. -/
def attemptAt (run : CursorEvaluator) (c : Setting) (steps : List Step) (position : Nat)
    (k : Cursor) : Option Match × Cursor :=
  let m := k.mark
  let behind := { k with position := position }.skipExtras c
  match attempt run c.strict behind.position position 0 steps (behind.reset m) with
  | (found, k') => (found, { k' with far := k.far, frontier := k.frontier })

/-- Searches at a position and at the start of every character behind it. -/
def scan (run : CursorEvaluator) (c : Setting) (steps : List Step) :
    (rest : List Char) → (position : Nat) → Cursor → Search × Cursor
  | rest, position, k =>
    match k.state.tick with
    | (false, s) => (.abandoned, { k with state := s })
    | (true, s) =>
      match { k with state := s }.attemptAt run c steps position with
      | (some found, k) => (.found position found, k)
      | (none, k) =>
        let (stops, reach) := c.stopsAt position k.state
        let k := k.look reach
        if stops then (.stopped position, k)
        else
          match rest with
          | [] => (.stopped position, k)
          | char :: rest => scan run c steps rest (position + char.utf8Size) k

/-- Recovers in a sequence, and tells the place of the member that was found among those left. -/
def recoverSeq (run : CursorEvaluator) (c : Setting) (members : List Step) (expected : List Nat)
    (k : Cursor) : Option Nat × Cursor :=
  let k := k.skipExtras c
  let start := k.position
  match k.scan run c members (c.text.charsFrom start) start with
  | (.abandoned, k) => (none, k)
  | (.stopped stop, k) => (none, { k.emitError c start stop expected with position := stop })
  | (.found position found, k) =>
    let k :=
      if start < position || 0 < found.index then k.emitError c start position expected else k
    (some found.index, k.push found.trees found.stop)

/-- Recovers in a repetition, and tells whether there is another iteration. -/
def recoverRepetition (run : CursorEvaluator) (c : Setting) (body : Step) (expected : List Nat)
    (k : Cursor) : Bool × Cursor :=
  let m := k.mark
  let k := k.skipExtras c
  let start := k.position
  match k.scan run c [body] (c.text.charsFrom start) start with
  | (.found position found, k) =>
    let k := if start < position then k.emitError c start position expected else k
    (true, k.push found.trees found.stop)
  | (_, k) => (false, k.reset m)

/-- Runs an operation with its failures noted apart, and tells the furthest of these as well. -/
def apart (run : CursorEvaluator) (c : Setting) (step : Step) (k : Cursor) :
    Bool × Option Failure × Cursor :=
  match run c step { k with far := none } with
  | (ok, k') => (ok, k'.far, { k' with far := furthest k.far k'.far })

/-- Runs operations in order, the first `skip` of them left out. -/
def seq (run : CursorEvaluator) (c : Setting) (start : Mark) :
    List Step → (skip : Nat) → (isFirst : Bool) → Cursor → Bool × Cursor
  | [], _, _, k => (true, k)
  | _ :: rest, skip + 1, _, k => seq run c start rest skip false k
  | step :: rest, 0, isFirst, k =>
    match k.apart run c step with
    | (true, _, k) => seq run c start rest 0 false k
    | (false, own, k) =>
      match if isFirst then none else c.recoverable? { far := own } with
      | none => (false, k.reset start)
      | some failure =>
        match k.recoverSeq run c (step :: rest) failure.expected with
        | (none, k) => (true, k)
        | (some index, k) => seq run c start rest index false k

/-- Runs alternatives up to the first that succeeds. -/
def choice (run : CursorEvaluator) (c : Setting) (start : Mark) :
    List Step → Cursor → Bool × Cursor
  | [], k => (false, k)
  | step :: rest, k =>
    match run c step k with
    | (true, k) => (true, k)
    | (false, k) => choice run c start rest ((k.reset start).record (.backtrack start.position))

/-- The end of a repetition after some number of iterations, of which there have to be enough. -/
def leave (min : Nat) (start : Mark) (count : Nat) (k : Cursor) : Bool × Cursor :=
  if count < min then (false, k.reset start) else (true, k)

/-- Runs the iterations of a repetition. -/
def iterations (run : CursorEvaluator) (c : Setting) (body : Step) (min : Nat) (max : Option Nat)
    (start : Mark) : (left count : Nat) → Cursor → Bool × Cursor
  | 0, count, k => k.leave min start count
  | left + 1, count, k =>
    if max.any (· ≤ count) then k.leave min start count
    else
      let before := k.mark
      match k.apart run c body with
      | (true, _, k) =>
        if k.position = before.position then (k.reset before).leave min start count
        else iterations run c body min max start left (count + 1) k
      | (false, own, k) =>
        match if 1 ≤ count || min = 0 then c.recoverable? { far := own } else none with
        | none => k.leave min start count
        | some failure =>
          match k.recoverRepetition run c body failure.expected with
          | (true, k) => iterations run c body min max start left (count + 1) k
          | (false, k) => k.leave min start count

/-- Runs an operation, given the way to run those in it. -/
def step (run : CursorEvaluator) (c : Setting) (op : Step) (k : Cursor) : Bool × Cursor :=
  match op with
  | .blank => (true, k)
  | .token terminal kind immediate => k.token c terminal kind immediate
  | .call number renamed => k.call run c number renamed
  | .seq members => k.seq run c k.mark members 0 true
  | .choice members => k.choice run c k.mark members
  | .repetition body min max =>
    k.iterations run c body min.toNat (max.map (·.toNat)) k.mark
      (c.text.size + 1 - k.position) 0
  | .wrap body kind => k.wrap run c body kind

/-- Runs an operation in which operations nest at most `depth` deep. -/
def eval : (depth : Nat) → CursorEvaluator
  | 0, _, _, k =>
    match k.state.tick with
    | (false, s) => (true, { k with state := s })
    | (true, s) => (true, { k with state := s.stop .tooDeep })
  | depth + 1, c, op, k =>
    match k.state.tick with
    | (false, s) => (true, { k with state := s })
    | (true, s) => { k with state := s }.step (eval depth) c op

end Cursor

end Packrat
