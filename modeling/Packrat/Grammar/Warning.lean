import Packrat.Grammar.Nullability

/-!
# Warnings

Rules that nothing refers to, repetitions of what can match nothing, and alternatives that an
earlier one always wins over. The content of a token is not looked into, since it becomes a single
expression in which the order of alternatives does not count.
-/

namespace Packrat

namespace Rule

mutual

/-- Whether an expression repeats something that can match nothing. -/
def repeatsNullable (nullable : String → Bool) : Rule → Bool
  | seq members => someRepeatsNullable nullable members
  | choice members => someRepeatsNullable nullable members
  | repetition content _ _ => content.isNullable nullable || content.repeatsNullable nullable
  | renamed content _ _ => content.repeatsNullable nullable
  | field _ content => content.repeatsNullable nullable
  | _ => false

/-- Whether one of some expressions does. -/
def someRepeatsNullable (nullable : String → Bool) : List Rule → Bool
  | [] => false
  | r :: rs => r.repeatsNullable nullable || someRepeatsNullable nullable rs

end

mutual

/-- The lists of alternatives in an expression, outer ones first. -/
def choices : Rule → List (List Rule)
  | seq members => choicesAmong members
  | choice members => members :: choicesAmong members
  | repetition content _ _ => content.choices
  | renamed content _ _ => content.choices
  | field _ content => content.choices
  | _ => []

/-- The lists of alternatives in some expressions. -/
def choicesAmong : List Rule → List (List Rule)
  | [] => []
  | r :: rs => r.choices ++ choicesAmong rs

end

/-- The text of a literal, under whatever roles. -/
def literal? (r : Rule) : Option String :=
  match r.unwrapped with
  | literal text => some text
  | _ => none

end Rule

/-- Whether a literal starts with a text. -/
def startsWith (text start : String) : Bool := start.toList.isPrefixOf text.toList

/-- The alternative that wins over the one of a number whenever that could match: the first that
can match nothing, or else the first literal that a literal starts with. An alternative that is
blank is never told, as it makes the others optional. -/
def winner? (firstNullable : Option Nat) (members : List Rule) (member : Rule × Nat) :
    Option Nat :=
  if member.1 = .blank then none
  else
    match firstNullable.filter (· < member.2) with
    | some j => some j
    | none => do
      let text ← member.1.literal?
      (members.take member.2).findIdx? fun earlier =>
        match earlier.literal? with
        | some start => startsWith text start
        | none => false

/-- The alternatives that cannot be taken, each with the one that wins over it. -/
def shadowed (nullable : String → Bool) (members : List Rule) : List (Nat × Nat) :=
  let firstNullable := members.findIdx? (·.isNullable nullable)
  members.zipIdx.filterMap fun member =>
    (winner? firstNullable members member).map fun j => (member.2, j)

namespace Grammar

/-- The rules that can be reached from a start rule or from an extra, by number. -/
def reachability (g : Grammar) (start : Nat) : List Bool :=
  let extras := g.extras.flatMap fun extra => extra.references.filterMap g.number?
  let reached := g.referenceGraph.reachable (start :: extras)
  (List.range g.rules.length).map reached.contains

/-- The warnings about the expression of a rule for alternatives. -/
def shadowWarnings (nullable : String → Bool) (rule : String × Rule) : List GrammarWarning :=
  rule.2.choices.flatMap fun members =>
    (shadowed nullable members).map fun p => .shadowedAlternative rule.1 p.1 p.2

/-- All warnings, by what they tell. -/
def warnings (g : Grammar) (reached : List Bool) (known : Nullability) : List GrammarWarning :=
  let nullable := g.nullableRule known
  let unreachable := (g.rules.zip reached).filterMap fun rule =>
    if rule.2 then none else some (.unreachableRule rule.1.1)
  let repetitions := g.rules.filterMap fun rule =>
    if rule.2.repeatsNullable nullable then some (.nullableRepetition rule.1) else none
  unreachable ++ repetitions ++ g.rules.flatMap (shadowWarnings nullable)

end Grammar

end Packrat
