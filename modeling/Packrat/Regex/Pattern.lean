import Packrat.Regex.Meaning
import Packrat.Regex.Scan

/-!
# Patterns

A pattern is the source text of a regular expression with flags for the whole of it, made ready
to scan texts. `Pattern.read` fails on an unknown flag, on a source that is no expression, and on
an expression that asks about Unicode words, in this order.
-/

namespace Packrat

/-- Why a pattern cannot be used. -/
inductive PatternError where
  | unknownFlag (flag : Char)
  | invalid
  | unsupported
  deriving Repr, DecidableEq

namespace PatternError

/-- The error in words. -/
def message : PatternError → String
  | unknownFlag flag => "unsupported regex flag '" ++ String.singleton flag ++ "'"
  | invalid => "invalid regex"
  | unsupported => "failed to build DFA"

end PatternError

/-- A regular expression with its source text. -/
structure Pattern where
  source : String
  regex : Regex
  deriving Repr, DecidableEq

namespace Pattern

/-- How an expression is read under flags for the whole of it: `i`, `m` and `s` mean what they
mean inside an expression, and `u`, `v` and `g` change nothing. -/
def flagsOf (letters : List Char) : Except PatternError Regex.Flags :=
  letters.foldlM (fun flags letter =>
    match letter with
    | 'i' => .ok { flags with caseInsensitive := true }
    | 'm' => .ok { flags with multiLine := true }
    | 's' => .ok { flags with dotMatchesNewLine := true }
    | 'u' | 'v' | 'g' => .ok flags
    | other => .error (.unknownFlag other)) .standard

/-- The expression that a source text denotes, without asking whether it can be run. -/
def parse (source : String) (flags : Option String) : Except PatternError Regex := do
  let flags ← flagsOf (flags.getD "").toList
  match Regex.Written.read? source >>= Regex.Written.toRegex? flags with
  | some regex => .ok regex
  | none => .error .invalid

/-- The pattern that a source text denotes. -/
def read (source : String) (flags : Option String) : Except PatternError Pattern := do
  let regex ← parse source flags
  if regex.hasUnicodeLook then .error .unsupported else .ok ⟨source, regex⟩

/-- Whether a source text denotes an expression that can match nothing at all. -/
def isNullable (source : String) (flags : Option String) : Bool :=
  match parse source flags with
  | .ok regex => regex.isNullable
  | .error _ => false

end Pattern

end Packrat
