import Packrat.Parse.Basic
import Packrat.Text.Basic
import Packrat.Unicode.Width

/-!
# Diagnostics

Errors as text for people: one line for each, or a snippet for each that shows the line of the
source with a mark below it. An error at which nothing was skipped is marked by a single caret, as
is one at the end of the text.
-/

namespace Packrat

namespace SyntaxError

/-- The error in a line. -/
def line (e : SyntaxError) : String :=
  toString e.start ++ ".." ++ toString e.stop ++ ": " ++ e.message

/-- What the mark of the error says. -/
def markLabel (e : SyntaxError) : String :=
  match e.kind with
  | .unexpected => "skipped"
  | .missing => "expected here"

/-- The end of what is marked: one place at least, also where nothing was skipped. -/
def markStop (e : SyntaxError) : Nat := if e.start = e.stop then e.start + 1 else e.stop

end SyntaxError

/-- Errors with a line for each. -/
def plainDiagnostics (errors : List SyntaxError) : String :=
  String.intercalate "\n" (errors.map SyntaxError.line)

/-- A line of a source text. -/
structure SourceLine where
  number : Nat
  /-- The offset of its first character. -/
  start : Nat
  /-- The line without its end. -/
  chars : List Char
  /-- The offset of the next line. -/
  stop : Nat
  deriving Repr, DecidableEq

/-- A line without a carriage return at its end. -/
def withoutReturn (chars : List Char) : List Char :=
  if chars.getLast? = some '\r' then chars.dropLast else chars

/-- The lines of a text; `current` is the part of the line that was passed, the latest character
first, and `start` where it starts. -/
def sourceLines (number start : Nat) (current : List Char) : List Char → List SourceLine
  | [] =>
    if current.isEmpty then []
    else [⟨number, start, current.reverse, start + utf8Length current⟩]
  | c :: cs =>
    if c = '\n' then
      let stop := start + utf8Length current + 1
      ⟨number, start, withoutReturn current.reverse, stop⟩ :: sourceLines (number + 1) stop [] cs
    else sourceLines number start (c :: current) cs

/-- The line of an offset; behind the last line it is that one, and a text without lines has an
empty one. -/
def lineAt (text : Text) (offset : Nat) : SourceLine :=
  let lines := sourceLines 1 0 [] text.chars
  ((lines.find? fun l => offset < l.stop).or lines.getLast?).getD ⟨1, 0, [], 0⟩

namespace SourceLine

/-- The characters before an offset. -/
def charsBefore (l : SourceLine) (offset : Nat) : List Char :=
  takeBytes l.chars (offset - l.start)

/-- The column of an offset, counted in characters. The end of the line has a column, and what
ends the line has the next one. -/
def column (l : SourceLine) (offset : Nat) : Nat :=
  (l.charsBefore offset).length + if l.start + utf8Length l.chars < offset then 2 else 1

end SourceLine

/-- How a character is shown in a snippet: tabs as four blanks, controls by their pictures. -/
def shownInSnippet (c : Char) : List Char :=
  if c = '\t' then [' ', ' ', ' ', ' ']
  else if c.toNat < 0x20 then [Char.ofNat (0x2400 + c.toNat)]
  else if c.toNat = 0x7F then ['\u2421']
  else if c = '\u200d' then []
  else if (0x202A ≤ c.toNat && c.toNat ≤ 0x202E) || (0x2066 ≤ c.toNat && c.toNat ≤ 0x2069) then
    ['\ufffd']
  else [c]

/-- Some characters as they are shown in a snippet. -/
def snippetText (chars : List Char) : String := String.ofList (chars.flatMap shownInSnippet)

/-- How many columns some characters take in a snippet. -/
def snippetWidth (chars : List Char) : Nat :=
  (chars.flatMap shownInSnippet).foldl (fun width c => width + Unicode.columns c) 0

/-- Some blanks. -/
def blanks (n : Nat) : String := String.ofList (List.replicate n ' ')

/-- How the parts of a snippet are coloured. -/
structure SnippetStyle where
  /-- The word for an error. -/
  heading : String → String
  message : String → String
  /-- What frames the source: bars, line numbers and the arrow. -/
  frame : String → String
  /-- Marks and their labels. -/
  mark : String → String

namespace SnippetStyle

/-- No colours. -/
def plain : SnippetStyle := ⟨id, id, id, id⟩

/-- Colours for a terminal. -/
def colored : SnippetStyle where
  heading text := "\x1b[1m\x1b[91m" ++ text ++ "\x1b[0m"
  message text := "\x1b[1m" ++ text ++ "\x1b[0m"
  frame text := "\x1b[1m\x1b[94m" ++ text ++ "\x1b[0m"
  mark text := "\x1b[1m\x1b[91m" ++ text ++ "\x1b[0m"

/-- Colours or none. -/
def ofBool (colors : Bool) : SnippetStyle := if colors then colored else plain

end SnippetStyle

/-- The heading of a snippet. Further lines of the message are indented below its first. -/
def headingLines (style : SnippetStyle) (message : String) : List String :=
  match message.splitOn "\n" with
  | [] => []
  | first :: rest =>
    (style.heading "error" ++ style.message (": " ++ snippetText first.toList)) ::
      rest.map fun line => blanks 7 ++ style.message (snippetText line.toList)

/-- The snippet of an error. -/
def snippet (style : SnippetStyle) (path : Option String) (text : Text) (e : SyntaxError) :
    String :=
  let line := lineAt text e.start
  let number := toString line.number
  let margin := blanks (number.length + 1)
  let before := line.charsBefore e.start
  let marked := (line.charsBefore e.markStop).drop before.length
  let source := snippetText line.chars
  let location := path.toList.map fun path =>
    blanks number.length ++ style.frame "--> " ++ path ++ ":" ++ number ++ ":" ++
      toString (line.column e.start)
  let carets := String.ofList (List.replicate (max 1 (snippetWidth marked)) '^')
  String.intercalate "\n" (headingLines style e.message ++ location ++
    [margin ++ style.frame "|",
      style.frame number ++ " " ++ style.frame "|" ++
        (if source.isEmpty then "" else " " ++ source),
      margin ++ style.frame "|" ++ " " ++ blanks (snippetWidth before) ++ style.mark carets ++
        " " ++ style.mark e.markLabel])

/-- Errors with a snippet of the source for each. -/
def snippets (style : SnippetStyle) (path : Option String) (text : Text)
    (errors : List SyntaxError) : String :=
  String.intercalate "\n" (errors.map (snippet style path text))

end Packrat
