import Packrat.Grammar.Nullability
import Packrat.Graph.Component

/-!
# Recursion

A rule that reaches itself before anything was matched is left-recursive; ordered choice cannot
take such a rule. Rules that need each other without a way out match no finite text. Both are
errors that tell a cycle of rules.
-/

namespace Packrat

namespace Rule

mutual

/-- The names that an expression refers to at places where nothing needs to be matched before,
given which rules can match nothing. -/
def leftReferences (nullable : String → Bool) : Rule → List String
  | symbol name => [name]
  | seq members => leftReferencesOfSeq nullable members
  | choice members => leftReferencesAmong nullable members
  | repetition content _ _ => content.leftReferences nullable
  | renamed content _ _ => content.leftReferences nullable
  | field _ content => content.leftReferences nullable
  | _ => []

/-- The same for expressions that follow each other. -/
def leftReferencesOfSeq (nullable : String → Bool) : List Rule → List String
  | [] => []
  | r :: rs =>
    r.leftReferences nullable ++
      if r.isNullable nullable then leftReferencesOfSeq nullable rs else []

/-- The same for alternatives. -/
def leftReferencesAmong (nullable : String → Bool) : List Rule → List String
  | [] => []
  | r :: rs => r.leftReferences nullable ++ leftReferencesAmong nullable rs

end

mutual

/-- Whether an expression can be matched without the rules that are `inside`. -/
def escapes (inside : String → Bool) : Rule → Bool
  | symbol name => !inside name
  | seq members => allEscape inside members
  | choice members => someEscape inside members
  | repetition content min _ => min == 0 || content.escapes inside
  | renamed content _ _ => content.escapes inside
  | field _ content => content.escapes inside
  | _ => true

/-- Whether all of some expressions can be matched so. -/
def allEscape (inside : String → Bool) : List Rule → Bool
  | [] => true
  | r :: rs => r.escapes inside && allEscape inside rs

/-- Whether one of some expressions can be matched so. -/
def someEscape (inside : String → Bool) : List Rule → Bool
  | [] => false
  | r :: rs => r.escapes inside || someEscape inside rs

end

end Rule

namespace Grammar

/-- The graph of the references at places where nothing needs to be matched before. -/
def leftGraph (g : Grammar) (known : Nullability) : Graph :=
  (g.rules.map fun rule =>
    (rule.2.leftReferences (g.nullableRule known)).filterMap g.number?).toArray

/-- Checks that no rule is left-recursive. -/
def checkLeftRecursion (g : Grammar) (known : Nullability) : Except GrammarError Unit :=
  let graph := g.leftGraph known
  match graph.cycle? graph.vertices with
  | some cycle => .error (.leftRecursion (cycle.map g.ruleName))
  | none => .ok ()

/-- Whether a rule is among those of some numbers. -/
def isAmong (g : Grammar) (members : List Nat) (name : String) : Bool :=
  match g.number? name with
  | some i => members.contains i
  | none => false

/-- Whether one of the rules that need each other has a way out. -/
def hasEscape (g : Grammar) (members : List Nat) : Bool :=
  members.any fun i => (g.body i).escapes (g.isAmong members)

/-- Checks a component of the graph of references. -/
def checkComponent (g : Grammar) (graph : Graph) (members : List Nat) :
    Except GrammarError Unit :=
  if !graph.isRecursive members || g.hasEscape members then .ok ()
  else
    let inOrder := members.mergeSort
    let cycle := ((graph.within members).cycle? inOrder).getD (inOrder.take 1)
    .error (.endlessRecursion (cycle.map g.ruleName))

/-- Checks that rules that need each other have a way out. -/
def checkEscape (g : Grammar) : Except GrammarError Unit :=
  let graph := g.referenceGraph
  graph.components.forM (g.checkComponent graph)

end Grammar

end Packrat
