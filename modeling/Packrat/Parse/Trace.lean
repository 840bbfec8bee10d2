import Packrat.Palette
import Packrat.Parse.Basic
import Packrat.Text.Basic

/-!
# Traces

The events of a parse as lines of text, indented by how deeply rules nest. A brief trace shows
rounds, rules, errors and the end of a parse that stops early; a longer one also terminals and
kept results; the longest also matched text and alternatives that were given up.
-/

namespace Packrat

/-- How much a trace shows. -/
inductive Verbosity where
  | brief
  | long
  | longest
  deriving Repr, DecidableEq

/-- How events are shown. -/
structure TraceView where
  program : Program
  text : Text
  verbosity : Verbosity
  palette : Palette

namespace TraceView

variable (v : TraceView)

/-- A rule. -/
def ruleText (rule : Nat) : String := v.palette.inBlue (v.program.rule rule).name

/-- A kind. -/
def kindText (kind : Nat) : String :=
  let label := v.program.kindLabel kind
  if v.program.isNamed kind then v.palette.inBlue label else v.palette.inGreen label

/-- A position. -/
def positionText (position : Nat) : String := v.palette.dimmed ("@" ++ toString position)

/-- The line of a round. -/
def roundLine (number : Nat) (points : List Nat) : String :=
  let title := "round " ++ toString number
  if points.isEmpty then title
  else title ++ " (error points: " ++ String.intercalate ", " (points.map toString) ++ ")"

/-- The line at the end of a rule. -/
def leaveLine (rule : Nat) (stop : Option Nat) : String :=
  match stop with
  | some stop => "< " ++ v.ruleText rule ++ " " ++ v.positionText stop
  | none => v.palette.inRed "x" ++ " " ++ v.ruleText rule

/-- The line of a kept result. -/
def hitLine (rule position : Nat) (stop : Option Nat) : String :=
  let outcome :=
    match stop with
    | some stop => "-> " ++ v.positionText stop
    | none => "fail"
  "= " ++ v.ruleText rule ++ " " ++ v.positionText position ++ " " ++ outcome

/-- The line of a terminal. -/
def tokenLine (kind position : Nat) (length : Option Nat) : String :=
  let what := v.kindText kind ++ " " ++ v.positionText position
  match length with
  | some n =>
    if v.verbosity = .longest then
      "  " ++ what ++ " " ++ quoted (v.text.slice position (position + n))
    else "  " ++ what
  | none => v.palette.inRed "!" ++ " " ++ what

/-- The line of an error. -/
def errorLine (start stop : Nat) : String :=
  v.palette.inRed "ERROR" ++ " " ++
    v.palette.dimmed (toString start ++ ".." ++ toString stop)

/-- The line of a parse that stops early. -/
def haltLine (reason : Halt) : String := v.palette.inRed "halt:" ++ " " ++ reason.message

end TraceView

/-- The lines of a trace, the latest first, and how deeply rules nest. -/
structure Trace where
  lines : List String := []
  depth : Nat := 0

namespace Trace

/-- Adds a line as it is. -/
def push (t : Trace) (line : String) : Trace := { t with lines := line :: t.lines }

/-- Adds an indented line. -/
def indent (t : Trace) (line : String) : Trace :=
  t.push (String.ofList (List.replicate (2 * t.depth) ' ') ++ line)

/-- Adds the line of an event, unless the trace is too brief for it. A blank line stands between
rounds. -/
def add (v : TraceView) (t : Trace) : Event → Trace
  | .round number points =>
    let t := if t.lines.isEmpty then t else t.push ""
    ({ t with depth := 0 }).push (TraceView.roundLine number points)
  | .call rule position =>
    let t := t.indent ("> " ++ v.ruleText rule ++ " " ++ v.positionText position)
    { t with depth := t.depth + 1 }
  | .leave rule stop => ({ t with depth := t.depth - 1 }).indent (v.leaveLine rule stop)
  | .hit rule position stop =>
    if v.verbosity = .brief then t else t.indent (v.hitLine rule position stop)
  | .token kind position length =>
    if v.verbosity = .brief then t else t.indent (v.tokenLine kind position length)
  | .backtrack position =>
    if v.verbosity = .longest then t.indent ("~ " ++ v.positionText position) else t
  | .error start stop => t.indent (v.errorLine start stop)
  | .halt reason => t.push (v.haltLine reason)

end Trace

/-- The lines of a trace of some events. -/
def TraceView.lines (v : TraceView) (events : List Event) : List String :=
  (events.foldl (Trace.add v) {}).lines.reverse

end Packrat
