import Packrat.Program.Lowering

/-!
# Arenas

The operations of a program in one row, each behind the operations in it, which it names by their
places. The row can be read off a program. It also comes about on the way from a grammar: the
expressions are gone through in order, what they mention is entered, and every operation is pushed
once its parts are.
-/

namespace Packrat

/-- An operation whose parts are given by their places. -/
inductive Cell where
  | blank
  | token (terminal kind : Nat) (immediate : Bool)
  | call (rule : Nat) (renamed : Option Nat)
  | seq (members : List Nat)
  | choice (members : List Nat)
  | repetition (body : Nat) (min : UInt32) (max : Option UInt32)
  | wrap (body kind : Nat)
  deriving Repr, DecidableEq

namespace Op

mutual

/-- The row of an operation whose first cell has the given place. Its own cell is the last. -/
def cells (first : Nat) : Step → List Cell
  | blank => [.blank]
  | token terminal kind immediate => [.token terminal kind immediate]
  | call rule renamed => [.call rule renamed]
  | seq members =>
    let row := cellsAmong first members
    row.1 ++ [.seq row.2]
  | choice members =>
    let row := cellsAmong first members
    row.1 ++ [.choice row.2]
  | repetition body min max =>
    let row := body.cells first
    row ++ [.repetition (first + row.length - 1) min max]
  | wrap body kind =>
    let row := body.cells first
    row ++ [.wrap (first + row.length - 1) kind]

/-- The rows of some operations one after another, and the places of these operations. -/
def cellsAmong (first : Nat) : List Step → List Cell × List Nat
  | [] => ([], [])
  | op :: ops =>
    let row := op.cells first
    let rest := cellsAmong (first + row.length) ops
    (row ++ rest.1, (first + row.length - 1) :: rest.2)

end

end Op

/-- A rule whose body is given by its place. -/
structure PlacedRule where
  name : String
  kind : Nat
  body : Nat
  nullable : Bool
  hidden : Bool
  lexical : Bool
  deriving Repr

/-- A program whose operations lie in one row. -/
structure PlacedProgram where
  name : String
  kinds : Array Kind
  rules : List PlacedRule
  cells : Array Cell
  terminals : Array Terminal
  extras : List (Nat × Nat)
  sync : List Nat
  start : Nat
  fingerprint : UInt32

/-- A rule with its body at some place. -/
def ProgramRule.placed (rule : ProgramRule) (body : Nat) : PlacedRule where
  name := rule.name
  kind := rule.kind
  body := body
  nullable := rule.nullable
  hidden := rule.hidden
  lexical := rule.lexical

namespace Program

/-- The cells of all rules, and the places of their bodies. -/
def arena (p : Program) : List Cell × List Nat :=
  Op.cellsAmong 0 (p.rules.toList.map (·.body))

/-- The program with its operations in one row. -/
def placed (p : Program) : PlacedProgram where
  name := p.name
  kinds := p.kinds
  rules := List.zipWith ProgramRule.placed p.rules.toList p.arena.2
  cells := p.arena.1.toArray
  terminals := p.terminals
  extras := p.extras
  sync := p.sync
  start := p.start
  fingerprint := p.fingerprint

end Program

/-! ## Pushing -/

/-- A program in the making: its tables, and the operations that were pushed. -/
structure Lowering where
  tables : Tables := {}
  cells : Array Cell := #[]

/-- A step on the way to a program. -/
abbrev Pushing (α : Type) : Type := StateT Lowering (Except GrammarError) α

namespace Pushing

/-- Enters a kind unless it is there, and gives its number. -/
def kind (kind : Kind) : Pushing Nat := fun s => do
  let tables ← s.tables.enter (.kind kind)
  return (tables.kindNumber kind, { s with tables })

/-- Enters a terminal unless it is there, and gives its number. -/
def terminal (use : TerminalUse) : Pushing Nat := fun s => do
  let tables ← s.tables.enter (.terminal use)
  return (tables.terminalNumber use, { s with tables })

/-- Pushes an operation and gives its place. -/
def push (cell : Cell) : Pushing Nat := fun s =>
  return (s.cells.size, { s with cells := s.cells.push cell })

end Pushing

namespace Analysed

variable (a : Analysed) (kinds : List Nat)

/-- Pushes a leaf for an expression that is a single terminal. -/
def pushLeaf (rule : String) (r : Rule) (kind : TerminalForm → Pushing Nat) : Pushing Nat :=
  match r.form? with
  | some form => do
    let terminal ← Pushing.terminal ⟨rule, form⟩
    Pushing.push (.token terminal (← kind form) r.isImmediate)
  | none => Pushing.push .blank

/-- Pushes a reference to a rule, possibly under another name. `kinds` are those of the rules. -/
def pushReference (name : String) (renamed : Option (String × Bool)) : Pushing Nat :=
  match a.grammar.number? name with
  | none => Pushing.push .blank
  | some i =>
    if a.isLexical i then
      pushLeaf name (a.grammar.body i) fun _ =>
        match renamed with
        | some (other, named) => Pushing.kind ⟨other, named, .token⟩
        | none => return kinds.getD i 0
    else
      match renamed with
      | some (other, named) => do
        Pushing.push (.call i (some (← Pushing.kind ⟨other, named, .node⟩)))
      | none => Pushing.push (.call i none)

mutual

/-- Pushes the operations of an expression in a rule, and gives the place of the last one. -/
def pushRule (rule : String) : Rule → Pushing Nat
  | .blank => Pushing.push .blank
  | .literal text => pushLeaf rule (.literal text) fun form => Pushing.kind form.kind
  | .pattern source flags => pushLeaf rule (.pattern source flags) fun form =>
    Pushing.kind form.kind
  | .token content immediate => pushLeaf rule (.token content immediate) fun form =>
    Pushing.kind form.kind
  | .symbol name => a.pushReference kinds name none
  | .seq members => do Pushing.push (.seq (← pushRules rule members))
  | .choice members => do Pushing.push (.choice (← pushRules rule members))
  | .repetition content min max => do
    Pushing.push (.repetition (← pushRule rule content) min max)
  | .field _ content => pushRule rule content
  | .renamed content name named =>
    match content.unwrapped with
    | .symbol target => a.pushReference kinds target (some (name, named))
    | inner =>
      if inner.isTerminal then pushLeaf rule inner fun _ => Pushing.kind ⟨name, named, .token⟩
      else do
        let body ← pushRule rule content
        Pushing.push (.wrap body (← Pushing.kind ⟨name, named, .node⟩))

/-- Pushes the operations of some expressions, and gives their places. -/
def pushRules (rule : String) : List Rule → Pushing (List Nat)
  | [] => return []
  | r :: rs => do
    let place ← pushRule rule r
    return place :: (← pushRules rule rs)

end

/-- Pushes the body of the rule of a number. -/
def pushBody (i : Nat) : Pushing Nat :=
  let name := a.grammar.ruleName i
  let body := a.grammar.body i
  if a.isLexical i then pushLeaf name body fun _ => return kinds.getD i 0
  else a.pushRule kinds name body

/-- The rule of a number with its body at some place. -/
def placedRule (i body : Nat) : PlacedRule where
  name := a.grammar.ruleName i
  kind := kinds.getD i 0
  body := body
  nullable := a.analysis.nullable[i]?.getD false
  hidden := a.grammar.isHidden (a.grammar.ruleName i)
  lexical := a.isLexical i

/-- Pushes the bodies of some rules and gives these rules. -/
def pushBodies : List Nat → Pushing (List PlacedRule)
  | [] => return []
  | i :: is => do
    let body ← a.pushBody kinds i
    return a.placedRule kinds i body :: (← pushBodies is)

/-- Enters the kinds of errors, of skipped text and of the rules, and gives the numbers of the
last. -/
def pushKinds (a : Analysed) : Pushing (List Nat) := do
  let _ ← Pushing.kind .error
  let _ ← Pushing.kind .skipped
  (List.range a.grammar.rules.length).mapM fun i => Pushing.kind (a.ruleKind i)

/-- Goes through the rules, the extras and the tokens to stop at. -/
def pushParts (sync : List String) :
    Pushing (List PlacedRule × List (Nat × Nat) × List Nat) := do
  let rules ← a.pushBodies kinds (List.range a.grammar.rules.length)
  let extras ← (a.grammar.extras.filterMap a.extra?).mapM fun e => do
    let terminal ← Pushing.terminal e.1
    return (terminal, ← Pushing.kind e.2)
  return (rules, extras, ← sync.mapM fun name => Pushing.terminal (a.syncUse name))

/-- The program of an analysed grammar with its operations pushed into one row. -/
def placedProgram (a : Analysed) (sync : List String) : Except GrammarError PlacedProgram := do
  let (kinds, s) ← a.pushKinds {}
  let ((rules, extras, sync), s) ← a.pushParts kinds sync s
  return {
    name := a.grammar.name
    kinds := s.tables.kinds.items
    rules := rules
    cells := s.cells
    terminals := s.tables.terminals
    extras := extras
    sync := sync
    start := a.analysis.start
    fingerprint := a.fingerprint }

end Analysed

/-- The program of a grammar with its operations pushed into one row, and what is odd about the
grammar. -/
def Compiler.compilePlaced (c : Compiler) (g : Grammar) :
    Except GrammarError (PlacedProgram × List GrammarWarning) := do
  let analysis ← g.analyze c.start
  let program ← Analysed.placedProgram ⟨g, analysis⟩ c.sync
  return (program, analysis.warnings)

end Packrat
