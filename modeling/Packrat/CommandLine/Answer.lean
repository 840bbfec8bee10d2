import Packrat.CommandLine.Arguments
import Packrat.Diagnostics
import Packrat.Grammar.Document
import Packrat.Json.Printer
import Packrat.Parse.Round
import Packrat.Parse.Trace
import Packrat.Program.Listing
import Packrat.Program.Lowering
import Packrat.Tree.Json
import Packrat.Tree.Outline

/-!
# Answers to requests

What a command prints and how it ends, given what the files hold. Errors end it with code 1, and
arguments that make no request with code 2.
-/

namespace Packrat

namespace CommandLine

/-- Why a file cannot be read. -/
inductive ReadError where
  | absent
  | directory
  | notText
  | other (text : String)
  deriving Repr, DecidableEq

namespace ReadError

/-- The error in words. -/
def message : ReadError → String
  | absent => "No such file or directory (os error 2)"
  | directory => "Is a directory (os error 21)"
  | notText => "stream did not contain valid UTF-8"
  | other text => text

end ReadError

/-- What can be read: the files by path, and the standard input. -/
structure Sources where
  file : String → Except ReadError (List UInt8)
  input : List UInt8

/-- What a command prints and how it ends. -/
structure Outcome where
  code : Nat := 0
  output : String := ""
  errors : String := ""
  deriving Repr, DecidableEq

/-- Why a request cannot be answered. -/
inductive RequestError where
  | unreadable (path : String) (reason : ReadError)
  | unreadableInput (reason : ReadError)
  | unknownFormat (path : String)
  | badDocument (path : String) (fault : JsonFault)
  | badBinary (path : String) (problem : BinaryError)
  | badGrammar (problem : GrammarError)
  | missingSource
  deriving Repr, DecidableEq

/-- A path in quotes. -/
def quotedPath (path : String) : String := "'" ++ path ++ "'"

/-- What is wrong with a document, in words. -/
def faultText : JsonFault → String
  | .unfinished => "the text ends too early"
  | .malformed => "the text is malformed"
  | .misshapen => "the text is no grammar"

namespace RequestError

/-- The error in words. -/
def message : RequestError → String
  | unreadable path reason => "failed to read " ++ quotedPath path ++ ": " ++ reason.message
  | unreadableInput reason => "failed to read stdin: " ++ reason.message
  | unknownFormat path =>
    quotedPath path ++ ": unknown grammar format (expected .json or .bin)"
  | badDocument path fault => quotedPath path ++ ": JSON parse error: " ++ faultText fault
  | badBinary path problem => quotedPath path ++ ": binary decode error: " ++ problem.message
  | badGrammar problem => problem.message
  | missingSource =>
    "source is required: use a positional argument, -s/--source, or - for stdin"

end RequestError

/-- The text that some bytes spell. -/
def textOf (bytes : List UInt8) : Except ReadError String :=
  match String.fromUTF8? ⟨bytes.toArray⟩ with
  | some text => .ok text
  | none => .error .notText

/-- The names on a path, without those that stay in place. -/
def pathNames (path : String) : List (List Char) :=
  (path.toList.splitOn '/').filter fun name => !name.isEmpty && name ≠ ['.']

/-- What follows the last point of the last name on a path, unless the name starts with it. -/
def extension? (path : String) : Option String := do
  let name ← (pathNames path).getLast?
  let ending := name.reverse.takeWhile (· != '.')
  if name = ['.', '.'] ∨ name.length ≤ ending.length + 1 then none
  else return String.ofList ending.reverse

namespace Sources

variable (s : Sources)

/-- The bytes of a file. -/
def bytes (path : String) : Except RequestError (List UInt8) :=
  (s.file path).mapError (.unreadable path)

/-- The text of a file. -/
def text (path : String) : Except RequestError String := do
  (textOf (← s.bytes path)).mapError (.unreadable path)

/-- The grammar in a file, whose form its name tells. -/
def grammar (path : String) : Except RequestError Grammar := do
  match extension? path with
  | some "json" => (Grammar.ofDocument (← s.text path)).mapError (.badDocument path)
  | some "bin" => (Grammar.decode (← s.bytes path)).mapError (.badBinary path)
  | _ => .error (.unknownFormat path)

end Sources

namespace Request

variable (r : Request)

/-- The program of the request, and what is odd about its grammar. -/
def program (s : Sources) : Except RequestError (Program × List GrammarWarning) := do
  let grammar ← s.grammar r.grammarPath
  (Compiler.compile ⟨r.start, r.sync⟩ grammar).mapError .badGrammar

/-- The text to parse: one that is given outright, or else that of a file or of the input. -/
def source (s : Sources) : Except RequestError String :=
  match r.sourceText, r.sourcePath with
  | some text, _ => .ok text
  | none, some "-" => (textOf s.input).mapError .unreadableInput
  | none, some path => s.text path
  | none, none => .error .missingSource

/-- The name of the text to parse in messages. -/
def sourceName : Option String :=
  match r.sourceText, r.sourcePath with
  | some _, _ => none
  | none, some "-" => some "<stdin>"
  | none, path => path

/-- Whether output is coloured, given whether it goes to a terminal. -/
def isColored (terminal : Bool) : Bool :=
  match r.coloring with
  | .always => true
  | .never => false
  | .auto => terminal

/-- How much of a trace is shown. -/
def verbosity : Verbosity :=
  match r.verbose with
  | 0 => .brief
  | 1 => .long
  | _ => .longest

/-- A warning. -/
def warningLine (c : Palette) (text : String) : String := c.inRed "warning" ++ ": " ++ text ++ "\n"

/-- The outcome of a parse behind what was printed: a warning if it stopped early, and its errors,
which make it a failure. -/
def report (colored : Bool) (text output : String) (result : Parsed) : Outcome :=
  let stopped := result.halted.toList.map fun halt =>
    warningLine (.ofBool colored) ("parse stopped early: " ++ halt.message)
  let faults :=
    if result.hasErrors then
      [snippets (.ofBool colored) r.sourceName (Text.ofString text) result.errors ++ "\n"]
    else []
  ⟨if result.hasErrors then 1 else 0, output, String.join (stopped ++ faults)⟩

/-- The outline of a tree. -/
def outline (colored : Bool) (p : Program) (tree : Tree) : String :=
  OutlineView.render ⟨p, r.spans, r.trivia, .ofBool colored⟩ tree

/-- Checks a grammar. -/
def answerCheck (colored : Bool) (s : Sources) : Except RequestError Outcome := do
  let (_, warnings) ← r.program s
  let lines := warnings.map fun w => warningLine (.ofBool colored) w.message
  return ⟨if r.strict && !warnings.isEmpty then 1 else 0, "", String.join lines⟩

/-- Lists a program. -/
def answerDump (colored : Bool) (s : Sources) : Except RequestError Outcome := do
  let (p, _) ← r.program s
  return { output := p.listing (.ofBool colored) }

/-- Parses a text and shows its tree. -/
def answerParse (colored : Bool) (s : Sources) : Except RequestError Outcome := do
  let (p, _) ← r.program s
  let text ← r.source s
  let result := p.parse { fuel := r.fuel } text
  let output :=
    if r.json then (JsonView.value ⟨p, r.trivia⟩ result.tree).sorted.pretty 0 ++ "\n"
    else r.outline colored p result.tree
  return r.report colored text output result

/-- Parses a text and shows how. -/
def answerTrace (colored : Bool) (s : Sources) : Except RequestError Outcome := do
  let (p, _) ← r.program s
  let text ← r.source s
  let c := Palette.ofBool colored
  let result := p.parseTraced { fuel := r.fuel } text
  let lines := TraceView.lines ⟨p, Text.ofString text, r.verbosity, c⟩ result.log
  let output :=
    String.join (lines.map (· ++ "\n")) ++ c.dimmed "---" ++ "\n" ++
      r.outline colored p result.tree
  return r.report colored text output result

/-- The answer to a request. -/
def answer (terminal : Bool) (s : Sources) : Outcome :=
  let colored := r.isColored terminal
  let result :=
    match r.verb with
    | .check => r.answerCheck colored s
    | .dump => r.answerDump colored s
    | .parse => r.answerParse colored s
    | .trace => r.answerTrace colored s
  match result with
  | .ok outcome => outcome
  | .error problem => { code := 1, errors := "error: " ++ problem.message ++ "\n" }

end Request

/-- What a command does for some arguments. -/
def run (terminal : Bool) (s : Sources) (arguments : List String) : Outcome :=
  match Request.ofArguments arguments with
  | .ok request => request.answer terminal s
  | .error problem => { code := 2, errors := "error: " ++ problem.message ++ "\n" }

end CommandLine

end Packrat
