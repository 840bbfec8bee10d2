import Packrat.Grammar.Basic
import Packrat.Grammar.Error
import Packrat.Graph.Basic

/-!
# References

Rules are known by their names, so names must be distinct, and a reference must name a rule. The
content of a token is scanned as one terminal and refers to no rule, every pattern must be
readable, and an extra must be a single terminal. `Grammar.checkReferences` finds the first place
where this fails, in the order of the rules and of their expressions.
-/

namespace Packrat

/-- What is wrong at a place of an expression. -/
inductive Flaw where
  | undefined (name : String)
  | symbolInToken (name : String)
  | badPattern (source : String) (problem : PatternError)
  deriving Repr, DecidableEq

/-- The error of a rule that has a flaw. -/
def Flaw.error (rule : String) : Flaw → GrammarError
  | undefined name => .undefinedRule rule name
  | symbolInToken name => .symbolInToken rule name
  | badPattern source problem => .badPattern rule source problem

namespace Rule

mutual

/-- The first flaw of an expression, given which names have rules and whether the expression
stands in a token. -/
def flaw? (defined : String → Bool) (inToken : Bool) : Rule → Option Flaw
  | blank => none
  | literal _ => none
  | pattern source flags =>
    match Pattern.parse source flags with
    | .ok _ => none
    | .error problem => some (.badPattern source problem)
  | symbol name =>
    if !defined name then some (.undefined name)
    else if inToken then some (.symbolInToken name)
    else none
  | seq members => flawAmong? defined inToken members
  | choice members => flawAmong? defined inToken members
  | repetition content _ _ => content.flaw? defined inToken
  | token content _ => content.flaw? defined true
  | renamed content _ _ => content.flaw? defined inToken
  | field _ content => content.flaw? defined inToken

/-- The first flaw of some expressions. -/
def flawAmong? (defined : String → Bool) (inToken : Bool) : List Rule → Option Flaw
  | [] => none
  | r :: rs => (r.flaw? defined inToken).or (flawAmong? defined inToken rs)

end

mutual

/-- The names that an expression refers to, in order. -/
def references : Rule → List String
  | symbol name => [name]
  | seq members => referencesAmong members
  | choice members => referencesAmong members
  | repetition content _ _ => content.references
  | token content _ => content.references
  | renamed content _ _ => content.references
  | field _ content => content.references
  | _ => []

/-- The names that some expressions refer to. -/
def referencesAmong : List Rule → List String
  | [] => []
  | r :: rs => r.references ++ referencesAmong rs

end

end Rule

/-- The first item that equals an earlier one. -/
def firstRepeated? {α : Type} [BEq α] : (seen : List α) → List α → Option α
  | _, [] => none
  | seen, a :: as => if seen.contains a then some a else firstRepeated? (a :: seen) as

namespace Grammar

/-- The number of the rule of a name. -/
def number? (g : Grammar) (name : String) : Option Nat := g.rules.findIdx? (·.1 == name)

/-- Whether there is a rule of a name. -/
def defines (g : Grammar) (name : String) : Bool := (g.number? name).isSome

/-- The expression of the rule of a number. -/
def body (g : Grammar) (i : Nat) : Rule := (g.rules[i]?.map (·.2)).getD .blank

/-- The name of the rule of a number. -/
def ruleName (g : Grammar) (i : Nat) : String := (g.rules[i]?.map (·.1)).getD ""

/-- Whether an extra is a single terminal or refers to a rule that is one. -/
def isExtra (g : Grammar) (extra : Rule) : Bool :=
  match extra.unwrapped with
  | .symbol name => ((g.find? name).map (·.isTerminal)).getD false
  | rule => rule.isTerminal

/-- The rule in whose name flaws of extras are told. -/
def extrasName : String := "extras"

/-- Checks the names of the rules. -/
def checkNames (g : Grammar) : Except GrammarError Unit :=
  if g.rules.isEmpty then .error .noRules
  else
    match firstRepeated? [] (g.rules.map (·.1)) with
    | some name => .error (.duplicateRule name)
    | none => .ok ()

/-- Checks an expression of a rule. -/
def checkRule (g : Grammar) (name : String) (rule : Rule) : Except GrammarError Unit :=
  match rule.flaw? g.defines false with
  | some flaw => .error (flaw.error name)
  | none => .ok ()

/-- Checks an extra and its place in the list. -/
def checkExtra (g : Grammar) (extra : Rule × Nat) : Except GrammarError Unit := do
  g.checkRule extrasName extra.1
  if g.isExtra extra.1 then return else .error (.unsupportedExtra extra.2)

/-- Checks all expressions, those of the rules first. -/
def checkReferences (g : Grammar) : Except GrammarError Unit := do
  g.rules.forM fun rule => g.checkRule rule.1 rule.2
  g.extras.zipIdx.forM g.checkExtra

/-- The graph of the references between rules. -/
def referenceGraph (g : Grammar) : Graph :=
  (g.rules.map fun rule => rule.2.references.filterMap g.number?).toArray

end Grammar

end Packrat
