import Packrat.Program.Basic
import Packrat.Tree.Basic

/-!
# Parses

What a parse is asked for and what it reports: the limits it is held to, the reason why it may
stop early, errors, and the events of a trace.
-/

namespace Packrat

/-- Why a parse stopped early. -/
inductive Halt where
  | cancelled
  | outOfFuel
  | tooDeep
  deriving Repr, DecidableEq

namespace Halt

/-- The reason in words. -/
def message : Halt → String
  | cancelled => "parse cancelled"
  | outOfFuel => "execution limit exceeded"
  | tooDeep => "recursion limit exceeded"

end Halt

/-- The limits of a parse. -/
structure ParseOptions where
  /-- How many operations may be run in all. -/
  fuel : Option Nat := none
  /-- How deeply operations may nest. -/
  recursionLimit : Nat := 1024
  /-- How many rounds there may be; the first one is always run. -/
  maxRounds : Option Nat := none
  /-- Whether the results of rules are kept and used again. -/
  memoize : Bool := true
  /-- How many rules may be called before the parse is cancelled. -/
  patience : Option Nat := none
  deriving Repr, DecidableEq

/-- What an error tells of: input that was skipped, or input that is absent. -/
inductive SyntaxErrorKind where
  | unexpected
  | missing
  deriving Repr, DecidableEq

/-- The kind of an error over a stretch of the text; over no text at all, nothing was skipped. -/
def SyntaxErrorKind.over (start stop : Nat) : SyntaxErrorKind :=
  if start < stop then .unexpected else .missing

/-- An error: what was skipped, or the place where something is missing, and the labels of what
could have come there. -/
structure SyntaxError where
  start : Nat
  stop : Nat
  kind : SyntaxErrorKind
  expected : List String
  deriving Repr, DecidableEq

namespace SyntaxError

/-- Whether the error tells of absent input. -/
def isMissing (e : SyntaxError) : Bool := e.kind == .missing

/-- Labels as a list of alternatives in words. -/
def alternatives : List String → String
  | [] => ""
  | [label] => label
  | labels => String.intercalate ", " labels.dropLast ++ " or " ++ labels.getLast?.getD ""

/-- The error in words. -/
def message (e : SyntaxError) : String :=
  match e.kind, e.expected with
  | .unexpected, [] => "unexpected input"
  | .unexpected, labels => "unexpected input, expected " ++ alternatives labels
  | .missing, [] => "missing input"
  | .missing, labels => "missing " ++ alternatives labels

end SyntaxError

/-- What happens in a parse, as far as a trace tells it. -/
inductive Event where
  /-- A round begins. -/
  | round (number : Nat) (points : List Nat)
  /-- A rule is run. -/
  | call (rule position : Nat)
  /-- A rule is done with, up to some position if it succeeded. -/
  | leave (rule : Nat) (stop : Option Nat)
  /-- The kept result of a rule is used again. -/
  | hit (rule position : Nat) (stop : Option Nat)
  /-- A terminal was tried. -/
  | token (kind position : Nat) (length : Option Nat)
  /-- An alternative was given up. -/
  | backtrack (position : Nat)
  /-- An error was put into the tree. -/
  | error (start stop : Nat)
  /-- The parse stops early. -/
  | halt (reason : Halt)
  deriving Repr, DecidableEq

end Packrat
