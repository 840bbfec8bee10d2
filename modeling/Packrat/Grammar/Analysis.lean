import Packrat.Grammar.Recursion
import Packrat.Grammar.Warning

/-!
# Analysis

The analysis of a grammar checks names, references and recursion, in this order, and tells facts
about the rules of a grammar that passes.
-/

namespace Packrat

/-- Facts about the rules of a grammar, by number. -/
structure Analysis where
  /-- The number of the start rule. -/
  start : Nat
  /-- Which rules can match nothing. -/
  nullable : Grammar.Nullability
  /-- Which rules are single terminals; the start rule never counts as one. -/
  lexical : List Bool
  /-- Which rules the start rule or an extra leads to. -/
  reachable : List Bool
  warnings : List GrammarWarning
  deriving Repr, DecidableEq

namespace Grammar

/-- Which rules are single terminals, a start rule aside. -/
def lexicality (g : Grammar) (start : Nat) : List Bool :=
  g.rules.zipIdx.map fun rule => rule.2 != start && rule.1.2.isTerminal

/-- The analysis of a grammar with a start rule of some name. -/
def analyzeFrom (g : Grammar) (name : String) : Except GrammarError Analysis := do
  g.checkNames
  match g.number? name with
  | none => .error (.missingStart name)
  | some start =>
    g.checkReferences
    let nullable := g.nullability
    g.checkLeftRecursion nullable
    g.checkEscape
    let reachable := g.reachability start
    return {
      start, nullable, reachable
      lexical := g.lexicality start
      warnings := g.warnings reachable nullable }

/-- The analysis of a grammar. The start rule is the given one, or else that of the grammar. -/
def analyze (g : Grammar) (start : Option String) : Except GrammarError Analysis :=
  match start.or g.startRule? with
  | some name => g.analyzeFrom name
  | none => .error .noRules

end Grammar

/-- Whether an expression can match nothing in the analysed grammar. -/
def Analysis.isNullable (a : Analysis) (g : Grammar) (rule : Rule) : Bool :=
  rule.isNullable (g.nullableRule a.nullable)

end Packrat
