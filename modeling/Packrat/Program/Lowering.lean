import Packrat.Checksum
import Packrat.Grammar.Analysis
import Packrat.Grammar.Binary
import Packrat.Program.Lexical
import Packrat.Program.Numbering

/-!
# From grammars to programs

An analysed grammar is first turned into operations over the forms of terminals and over kinds as
such. The forms and kinds are then numbered in the order in which they are met: the kinds of
errors and of skipped text, those of the rules, and what the rules, the extras and the tokens to
stop at mention.
-/

namespace Packrat

/-- A mention of a terminal, with the rule in whose name a bad pattern is told. -/
structure TerminalUse where
  rule : String
  form : TerminalForm
  deriving Repr, DecidableEq

/-- An operation that mentions terminals and kinds as such. -/
abbrev Sketch := Op TerminalUse Kind

/-- What is mentioned in a sketch. -/
inductive Mention where
  | kind (kind : Kind)
  | terminal (use : TerminalUse)
  deriving Repr, DecidableEq

namespace Op

mutual

/-- What a sketch mentions, in order. -/
def mentions : Sketch → List Mention
  | blank => []
  | token use kind _ => [.terminal use, .kind kind]
  | call _ renamed => (renamed.map Mention.kind).toList
  | seq members => mentionsAmong members
  | choice members => mentionsAmong members
  | repetition body _ _ => body.mentions
  | wrap body kind => body.mentions ++ [.kind kind]

/-- What some sketches mention. -/
def mentionsAmong : List Sketch → List Mention
  | [] => []
  | op :: ops => op.mentions ++ mentionsAmong ops

end

end Op

/-- An analysed grammar. -/
structure Analysed where
  grammar : Grammar
  analysis : Analysis

namespace Analysed

variable (a : Analysed)

/-- Whether the rule of a number is a single terminal. -/
def isLexical (i : Nat) : Bool := a.analysis.lexical[i]?.getD false

/-- The kind of the nodes or leaves of a rule. -/
def ruleKind (i : Nat) : Kind :=
  ⟨a.grammar.ruleName i, true, if a.isLexical i then .token else .node⟩

/-- A leaf for an expression that is a single terminal. -/
def leaf (rule : String) (r : Rule) (kind : TerminalForm → Kind) : Sketch :=
  match r.form? with
  | some form => .token ⟨rule, form⟩ (kind form) r.isImmediate
  | none => .blank

/-- A reference to a rule, possibly under another name. A lexical rule is a leaf where it is
referred to. -/
def reference (name : String) (renamed : Option (String × Bool)) : Sketch :=
  match a.grammar.number? name with
  | none => .blank
  | some i =>
    if a.isLexical i then
      leaf name (a.grammar.body i) fun _ =>
        match renamed with
        | some (other, named) => ⟨other, named, .token⟩
        | none => a.ruleKind i
    else .call i (renamed.map fun r => ⟨r.1, r.2, .node⟩)

mutual

/-- The sketch of an expression in a rule. -/
def sketch (rule : String) : Rule → Sketch
  | .blank => .blank
  | .literal text => leaf rule (.literal text) TerminalForm.kind
  | .pattern source flags => leaf rule (.pattern source flags) TerminalForm.kind
  | .token content immediate => leaf rule (.token content immediate) TerminalForm.kind
  | .symbol name => a.reference name none
  | .seq members => .seq (sketchAll rule members)
  | .choice members => .choice (sketchAll rule members)
  | .repetition content min max => .repetition (sketch rule content) min max
  | .field _ content => sketch rule content
  | .renamed content name named =>
    match content.unwrapped with
    | .symbol target => a.reference target (some (name, named))
    | inner =>
      if inner.isTerminal then leaf rule inner fun _ => ⟨name, named, .token⟩
      else .wrap (sketch rule content) ⟨name, named, .node⟩

/-- The sketches of some expressions. -/
def sketchAll (rule : String) : List Rule → List Sketch
  | [] => []
  | r :: rs => sketch rule r :: sketchAll rule rs

end

/-- The sketch of the rule of a number. -/
def ruleSketch (i : Nat) : Sketch :=
  let name := a.grammar.ruleName i
  let body := a.grammar.body i
  if a.isLexical i then leaf name body fun _ => a.ruleKind i else a.sketch name body

/-- The terminal and the kind of an extra. -/
def extra? (r : Rule) : Option (TerminalUse × Kind) :=
  match r.unwrapped with
  | .symbol name => do
    let i ← a.grammar.number? name
    let form ← (a.grammar.body i).form?
    return (⟨name, form⟩, a.ruleKind i)
  | inner => do
    let form ← inner.form?
    return (⟨Grammar.extrasName, form⟩, form.kind)

/-- The terminal that a name of a token to stop at stands for: that of a lexical rule, or else the
name itself. -/
def syncUse (name : String) : TerminalUse :=
  let form := do
    let i ← a.grammar.number? name
    if a.isLexical i then (a.grammar.body i).form? else none
  ⟨name, form.getD (.literal name)⟩

end Analysed

/-- The tables of a program in the making. -/
structure Tables where
  kinds : Numbering Kind := .empty
  forms : Numbering TerminalForm := .empty
  /-- The terminals of the forms, in order. -/
  terminals : Array Terminal := #[]

namespace Tables

/-- Enters what is mentioned. -/
def enter : Tables → Mention → Except GrammarError Tables
  | ⟨kinds, forms, terminals⟩, .kind kind =>
    if (kinds.number? kind).isSome then .ok ⟨kinds, forms, terminals⟩
    else if kinds.size < kindLimit then .ok ⟨kinds.add kind, forms, terminals⟩
    else .error .tooManyKinds
  | ⟨kinds, forms, terminals⟩, .terminal use =>
    if (forms.number? use.form).isSome then .ok ⟨kinds, forms, terminals⟩
    else
      match use.form.terminal with
      | .ok terminal => .ok ⟨kinds, forms.add use.form, terminals.push terminal⟩
      | .error problem =>
        match use.form with
        | .pattern source _ => .error (.badPattern use.rule source problem)
        | .literal text => .error (.badPattern use.rule text problem)

/-- The number of a kind. -/
def kindNumber (t : Tables) (kind : Kind) : Nat := (t.kinds.number? kind).getD 0

/-- The number of a terminal. -/
def terminalNumber (t : Tables) (use : TerminalUse) : Nat := (t.forms.number? use.form).getD 0

end Tables

namespace Analysed

/-- Everything that the program of a grammar mentions, in order. -/
def mentions (a : Analysed) (sketches : List Sketch) (sync : List String) : List Mention :=
  let rules := List.range a.grammar.rules.length
  [.kind .error, .kind .skipped] ++ rules.map (fun i => .kind (a.ruleKind i)) ++
    sketches.flatMap Op.mentions ++
    (a.grammar.extras.filterMap a.extra?).flatMap (fun e => [.terminal e.1, .kind e.2]) ++
    sync.map fun name => .terminal (a.syncUse name)

/-- The checksum of the grammar and the name of its start rule. -/
def fingerprint (a : Analysed) : UInt32 :=
  crc32 (a.grammar.encode ++ (a.grammar.ruleName a.analysis.start).toUTF8.data.toList)

/-- The rule of a number with its operations over the tables. -/
def programRule (a : Analysed) (t : Tables) (sketch : Sketch × Nat) : ProgramRule where
  name := a.grammar.ruleName sketch.2
  kind := t.kindNumber (a.ruleKind sketch.2)
  body := sketch.1.map t.terminalNumber t.kindNumber
  nullable := a.analysis.nullable[sketch.2]?.getD false
  hidden := a.grammar.isHidden (a.grammar.ruleName sketch.2)
  lexical := a.isLexical sketch.2

/-- The program of an analysed grammar with tokens to stop at. -/
def program (a : Analysed) (sync : List String) : Except GrammarError Program := do
  let sketches := (List.range a.grammar.rules.length).map a.ruleSketch
  let t ← (a.mentions sketches sync).foldlM Tables.enter {}
  return {
    name := a.grammar.name
    kinds := t.kinds.items
    rules := (sketches.zipIdx.map (a.programRule t)).toArray
    terminals := t.terminals
    extras := (a.grammar.extras.filterMap a.extra?).map fun e =>
      (t.terminalNumber e.1, t.kindNumber e.2)
    sync := sync.map fun name => t.terminalNumber (a.syncUse name)
    start := a.analysis.start
    fingerprint := a.fingerprint }

end Analysed

/-- How grammars are compiled: from which rule on, and with which tokens to stop at when text is
skipped. -/
structure Compiler where
  start : Option String := none
  sync : List String := []
  deriving Repr, DecidableEq

namespace Compiler

/-- The program of a grammar, and what is odd about the grammar. -/
def compile (c : Compiler) (g : Grammar) : Except GrammarError (Program × List GrammarWarning) := do
  let analysis ← g.analyze c.start
  let program ← Analysed.program ⟨g, analysis⟩ c.sync
  return (program, analysis.warnings)

end Compiler

end Packrat
