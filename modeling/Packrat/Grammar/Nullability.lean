import Packrat.Grammar.Reference

/-!
# Nullability

Which rules can match nothing at all. An expression can when its parts can, given which rules can;
the rules are found by starting from none and looking again until nothing changes, which yields
the least solution.
-/

namespace Packrat

namespace Rule

mutual

/-- Whether an expression can match nothing, given which rules can. -/
def isNullable (nullable : String → Bool) : Rule → Bool
  | blank => true
  | literal text => text.isEmpty
  | pattern source flags => Pattern.isNullable source flags
  | symbol name => nullable name
  | seq members => allNullable nullable members
  | choice members => someNullable nullable members
  | repetition content min _ => min == 0 || content.isNullable nullable
  | token content _ => content.isNullable nullable
  | renamed content _ _ => content.isNullable nullable
  | field _ content => content.isNullable nullable

/-- Whether all of some expressions can match nothing. -/
def allNullable (nullable : String → Bool) : List Rule → Bool
  | [] => true
  | r :: rs => r.isNullable nullable && allNullable nullable rs

/-- Whether one of some expressions can match nothing. -/
def someNullable (nullable : String → Bool) : List Rule → Bool
  | [] => false
  | r :: rs => r.isNullable nullable || someNullable nullable rs

end

end Rule

namespace Grammar

/-- The rules, by number, that can match nothing. -/
abbrev Nullability := List Bool

/-- Whether the rule of a name can match nothing. -/
def nullableRule (g : Grammar) (known : Nullability) (name : String) : Bool :=
  match g.number? name with
  | some i => known[i]?.getD false
  | none => false

/-- What is known after looking at every rule once more. -/
def widen (g : Grammar) (known : Nullability) : Nullability :=
  g.rules.map fun rule => rule.2.isNullable (g.nullableRule known)

/-- Looks at every rule until nothing changes, at most so many times. -/
def saturate (g : Grammar) : (rounds : Nat) → Nullability → Nullability
  | 0, known => known
  | rounds + 1, known =>
    let wider := g.widen known
    if wider = known then known else saturate g rounds wider

/-- The rules that can match nothing. Every look but the last finds a further rule. -/
def nullability (g : Grammar) : Nullability :=
  g.saturate (g.rules.length + 1) (g.rules.map fun _ => false)

end Grammar

end Packrat
