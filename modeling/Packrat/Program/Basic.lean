import Packrat.Terminal

/-!
# Programs

A program is what a grammar becomes to be run: the operations of every rule, over tables of the
kinds of nodes and of the terminals. Operations are trees, so that running them is a recursion on
them apart from the calls of rules.
-/

namespace Packrat

/-- What nodes of a kind are: errors, text that was skipped, inner nodes, or leaves. -/
inductive Role where
  | error
  | skipped
  | node
  | token
  deriving Repr, DecidableEq, Hashable

/-- A kind of nodes. Kinds that are not named are shown in quotes. -/
structure Kind where
  name : String
  named : Bool
  role : Role
  deriving Repr, DecidableEq, Hashable

namespace Kind

/-- The kind of nodes around an error. -/
def error : Kind := ⟨"ERROR", true, .error⟩

/-- The kind of text that was skipped. -/
def skipped : Kind := ⟨"SKIPPED", true, .skipped⟩

/-- The kind as it is shown. -/
def label (k : Kind) : String := if k.named then k.name else quoted k.name

end Kind

/-- The number of the kind of errors. -/
def errorKind : Nat := 0

/-- The number of the kind of skipped text. -/
def skippedKind : Nat := 1

/-- An operation over terminals `τ` and kinds `κ`. -/
inductive Op (τ κ : Type) where
  /-- Succeeds without doing anything. -/
  | blank
  /-- Takes a terminal for a leaf. Unless it is immediate, extras may stand before it. -/
  | token (terminal : τ) (kind : κ) (immediate : Bool)
  /-- Runs a rule, whose node may get another kind. -/
  | call (rule : Nat) (renamed : Option κ)
  /-- Runs all members in order. -/
  | seq (members : List (Op τ κ))
  /-- Runs the members up to the first that succeeds. -/
  | choice (members : List (Op τ κ))
  /-- Runs the body as often as it succeeds, `min` to `max` times; an iteration that takes nothing
  is the last one. -/
  | repetition (body : Op τ κ) (min : UInt32) (max : Option UInt32)
  /-- Puts what the body produces into a node. -/
  | wrap (body : Op τ κ) (kind : κ)
  deriving Repr, Inhabited

namespace Op

variable {τ κ τ' κ' : Type}

mutual

/-- The same operation over other terminals and kinds. -/
def map (f : τ → τ') (g : κ → κ') : Op τ κ → Op τ' κ'
  | blank => .blank
  | token terminal kind immediate => .token (f terminal) (g kind) immediate
  | call rule renamed => .call rule (renamed.map g)
  | seq members => .seq (mapAll f g members)
  | choice members => .choice (mapAll f g members)
  | repetition body min max => .repetition (body.map f g) min max
  | wrap body kind => .wrap (body.map f g) (g kind)

/-- The same operations over other terminals and kinds. -/
def mapAll (f : τ → τ') (g : κ → κ') : List (Op τ κ) → List (Op τ' κ')
  | [] => []
  | op :: ops => op.map f g :: mapAll f g ops

end

end Op

/-- An operation over the tables of a program. -/
abbrev Step := Op Nat Nat

/-- A rule of a program. -/
structure ProgramRule where
  name : String
  /-- The number of the kind of its nodes, or of its leaves if it is lexical. -/
  kind : Nat
  body : Step
  nullable : Bool
  /-- Whether its children go to the parent. -/
  hidden : Bool
  /-- Whether it is a single terminal. -/
  lexical : Bool
  deriving Repr, Inhabited

/-- A program. -/
structure Program where
  name : String
  kinds : Array Kind
  rules : Array ProgramRule
  terminals : Array Terminal
  /-- The terminals and kinds of what may stand between tokens, in the order of trying. -/
  extras : List (Nat × Nat)
  /-- The terminals before which skipping stops. -/
  sync : List Nat
  /-- The number of the start rule. -/
  start : Nat
  /-- A checksum of the grammar and of the start rule, by which trees tell who made them. -/
  fingerprint : UInt32
  deriving Inhabited

namespace Program

/-- The terminal of a number. -/
def terminal (p : Program) (t : Nat) : Terminal := p.terminals[t]?.getD (.literal "")

/-- The rule of a number. -/
def rule (p : Program) (r : Nat) : ProgramRule := p.rules[r]?.getD default

/-- The name of a kind; a number beyond the table has none. -/
def kindName (p : Program) (k : Nat) : String := (p.kinds[k]?.map (·.name)).getD "?"

/-- The label of a kind. -/
def kindLabel (p : Program) (k : Nat) : String := (p.kinds[k]?.map (·.label)).getD "?"

/-- Whether a kind is named. -/
def isNamed (p : Program) (k : Nat) : Bool := (p.kinds[k]?.map (·.named)).getD false

/-- Whether a kind is that of some extra. -/
def isTrivia (p : Program) (k : Nat) : Bool := p.extras.any (·.2 == k)

/-- The number of the rule of a name. -/
def number? (p : Program) (name : String) : Option Nat :=
  p.rules.toList.findIdx? (·.name == name)

/-- The rule a parse starts with. -/
def startRule (p : Program) : ProgramRule := p.rule p.start

end Program

end Packrat
