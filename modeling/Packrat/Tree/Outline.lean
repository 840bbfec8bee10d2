import Packrat.Palette
import Packrat.Program.Basic
import Packrat.Tree.Basic

/-!
# Outlines

A tree with one line for each node and leaf, children indented below their parent. A leaf of an
anonymous kind whose text is its name shows only its label; other leaves show their text.
-/

namespace Packrat

/-- How outlines are shown. -/
structure OutlineView where
  program : Program
  /-- Whether byte ranges are shown. -/
  spans : Bool := false
  /-- Whether trivia is shown. -/
  trivia : Bool := false
  palette : Palette := .off

namespace OutlineView

variable (v : OutlineView)

/-- The label of a kind. -/
def label (kind : Nat) : String :=
  let text := v.program.kindLabel kind
  if kind = errorKind then v.palette.inRed text
  else if v.program.isNamed kind then v.palette.inBlue text
  else v.palette.inGreen text

/-- A byte range behind a label. -/
def spanText (start stop : Nat) : String :=
  if v.spans then
    " " ++ v.palette.dimmed ("[" ++ toString start ++ ".." ++ toString stop ++ "]")
  else ""

/-- The line of a leaf. -/
def leafLine (start kind : Nat) (text : String) : String :=
  let head := v.label kind ++ v.spanText start (start + text.utf8ByteSize)
  if !v.program.isNamed kind && v.program.kindName kind == text then head
  else head ++ " " ++ v.palette.inGreen (quoted text)

/-- An indented line. -/
def indented (depth : Nat) (line : String) : String :=
  String.ofList (List.replicate (2 * depth) ' ') ++ line

mutual

/-- The lines of a tree that starts at an offset. -/
def lines (depth start : Nat) : Tree → List String
  | .leaf kind text =>
    if !v.trivia && v.program.isTrivia kind then []
    else [indented depth (v.leafLine start kind text)]
  | .node kind children =>
    indented depth (v.label kind ++ v.spanText start (start + Tree.sizeAmong children)) ::
      linesAmong (depth + 1) start children

/-- The lines of trees that follow each other. -/
def linesAmong (depth start : Nat) : List Tree → List String
  | [] => []
  | t :: ts => lines depth start t ++ linesAmong depth (start + t.size) ts

end

/-- The outline of a tree. -/
def render (t : Tree) : String := String.join ((v.lines 0 0 t).map (· ++ "\n"))

end OutlineView

end Packrat
