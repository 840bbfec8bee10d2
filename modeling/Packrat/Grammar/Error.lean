import Packrat.Regex.Pattern

/-!
# Findings about grammars

`GrammarError` tells why a grammar cannot be compiled, `GrammarWarning` what is odd about one that
can be. The wording is in `message`.
-/

namespace Packrat

/-- Why a grammar cannot be compiled. -/
inductive GrammarError where
  | noRules
  | missingStart (name : String)
  | duplicateRule (name : String)
  | undefinedRule (rule name : String)
  | badPattern (rule source : String) (problem : PatternError)
  | symbolInToken (rule name : String)
  | unsupportedExtra (index : Nat)
  | leftRecursion (cycle : List String)
  | endlessRecursion (cycle : List String)
  | tooManyKinds
  deriving Repr, DecidableEq

/-- What is odd about a grammar. -/
inductive GrammarWarning where
  | unreachableRule (name : String)
  | nullableRepetition (rule : String)
  | shadowedAlternative (rule : String) (shadowed winner : Nat)
  deriving Repr, DecidableEq

/-- How many kinds of nodes a program can have. -/
def kindLimit : Nat := 65536

/-- A name in an error message. -/
def ticked (name : String) : String := "`" ++ name ++ "`"

/-- A cycle of rules, closed by its first one. -/
def cycleText (cycle : List String) : String :=
  String.intercalate " -> " (cycle ++ cycle.head?.toList)

namespace GrammarError

/-- The error in words. -/
def message : GrammarError → String
  | noRules => "grammar has no rules"
  | missingStart name => "start rule " ++ ticked name ++ " is not defined"
  | duplicateRule name => "rule " ++ ticked name ++ " is defined more than once"
  | undefinedRule rule name =>
    "rule " ++ ticked rule ++ " references undefined rule " ++ ticked name
  | badPattern rule source problem =>
    "rule " ++ ticked rule ++ " has an invalid pattern /" ++ source ++ "/: " ++ problem.message
  | symbolInToken rule name =>
    "rule " ++ ticked rule ++ " references " ++ ticked name ++
      " inside a token; tokens may only contain literals and patterns"
  | unsupportedExtra index => "extra #" ++ toString index ++ " is not a token or a lexical rule"
  | leftRecursion cycle => "left recursion: " ++ cycleText cycle
  | endlessRecursion cycle =>
    "infinite recursion: cycle has no escape path: " ++ cycleText cycle
  | tooManyKinds => "grammar needs more than " ++ toString kindLimit ++ " node kinds"

end GrammarError

namespace GrammarWarning

/-- The warning in words. -/
def message : GrammarWarning → String
  | unreachableRule name => "rule " ++ ticked name ++ " is unreachable from the start rule"
  | nullableRepetition rule =>
    "rule " ++ ticked rule ++ " repeats an expression that can match empty input"
  | shadowedAlternative rule shadowed winner =>
    "rule " ++ ticked rule ++ ": alternative " ++ toString shadowed ++
      " can never match, alternative " ++ toString winner ++ " always wins first"

end GrammarWarning

end Packrat
