import Packrat.Grammar.Basic
import Packrat.Json.Reader

/-!
# Grammar documents

A grammar document is a JSON text for a grammar. Its expressions are objects whose `type` names
their kind; the kinds that only rank alternatives stand for their content. A document is read from
its front to its end, and the first fault counts: a text that is no JSON, or a value that is not
what has to stand where it stands. An expression is looked into only when all of it was read.
-/

namespace Packrat

namespace Document

open Json

/-- The kinds of expressions in a document. -/
inductive Kind where
  | blank
  | literal
  | pattern
  | symbol
  | seq
  | choice
  | anyNumber
  | atLeastOne
  | field
  | renamed
  | token
  | immediate
  | ranked
  deriving Repr, DecidableEq

/-- The kinds by name. A kind may also be given by its place in this list. -/
def kinds : List (String × Kind) :=
  [("BLANK", .blank), ("STRING", .literal), ("PATTERN", .pattern), ("SYMBOL", .symbol),
    ("SEQ", .seq), ("CHOICE", .choice), ("REPEAT", .anyNumber), ("REPEAT1", .atLeastOne),
    ("FIELD", .field), ("ALIAS", .renamed), ("TOKEN", .token), ("IMMEDIATE_TOKEN", .immediate),
    ("PREC", .ranked), ("PREC_LEFT", .ranked), ("PREC_RIGHT", .ranked), ("PREC_DYNAMIC", .ranked),
    ("RESERVED", .ranked)]

/-- The names of what an expression of a kind holds, in order. -/
def Kind.parts : Kind → List String
  | blank => []
  | literal => ["value"]
  | pattern => ["value", "flags"]
  | symbol => ["name"]
  | seq => ["members"]
  | choice => ["members"]
  | field => ["name", "content"]
  | renamed => ["content", "value", "named"]
  | _ => ["content"]

/-- The kind that a value names. -/
def kind? : JsonValue → Option Kind
  | .string name => kinds.lookup name
  | .natural place => kinds[place]?.map (·.2)
  | _ => none

/-- The parts of an expression that is written as an array: all that its kind has, except that the
flags of a pattern may be left out. -/
def named? (kind : Kind) (items : List JsonValue) : Option (List (String × JsonValue)) :=
  if items.length = kind.parts.length ∨ (kind = .pattern ∧ items.length = 1) then
    some (kind.parts.zip items)
  else none

/-- The value of a part that there has to be once. -/
def part? (parts : List (String × JsonValue)) (name : String) : Option JsonValue :=
  match parts.filter (·.1 == name) with
  | [part] => some part.2
  | _ => none

/-- The text of a part. -/
def text? (parts : List (String × JsonValue)) (name : String) : Option String :=
  match part? parts name with
  | some (.string s) => some s
  | _ => none

/-- The truth value of a part. -/
def bool? (parts : List (String × JsonValue)) (name : String) : Option Bool :=
  match part? parts name with
  | some (.bool b) => some b
  | _ => none

/-- The text of a part that may be left out or null. -/
def optionalText? (parts : List (String × JsonValue)) (name : String) : Option (Option String) :=
  match parts.filter (·.1 == name) with
  | [] => some none
  | [(_, .null)] => some none
  | [(_, .string s)] => some (some s)
  | _ => none

/-- The items of a part. -/
def items? (parts : List (String × JsonValue)) (name : String) : Option (List JsonValue) :=
  match part? parts name with
  | some (.array items) => some items
  | _ => none

/-- The expression of a kind with some parts, by a reading of the expressions in them. -/
def assemble? (expression? : JsonValue → Option Rule) (kind : Kind)
    (parts : List (String × JsonValue)) : Option Rule := do
  let content := part? parts "content" >>= expression?
  let members := items? parts "members" >>= List.mapM expression?
  match kind with
  | .blank => return .blank
  | .literal => return .literal (← text? parts "value")
  | .pattern => return .pattern (← text? parts "value") (← optionalText? parts "flags")
  | .symbol => return .symbol (← text? parts "name")
  | .seq => return .seq (← members)
  | .choice => return .choice (← members)
  | .anyNumber => return .repetition (← content) 0 none
  | .atLeastOne => return .repetition (← content) 1 none
  | .field => return .field (← text? parts "name") (← content)
  | .renamed => return .renamed (← content) (← text? parts "value") (← bool? parts "named")
  | .token => return .token (← content) false
  | .immediate => return .token (← content) true
  | .ranked => content

/-- The expression that a value stands for, if it nests at most `levels` deep. -/
def expression? : (levels : Nat) → JsonValue → Option Rule
  | 0, _ => none
  | levels + 1, .object fields => do
    let kind ← part? fields "type" >>= kind?
    assemble? (expression? levels) kind (fields.filter (·.1 != "type"))
  | levels + 1, .array (type :: items) => do
    let kind ← kind? type
    assemble? (expression? levels) kind (← named? kind items)
  | _, _ => none

/-- Reads the name of a kind. -/
def readKind : Reader Kind := fun cs => do
  let (name, cs) ← readText cs
  match kinds.lookup name with
  | some kind => return (kind, cs)
  | none => .error .misshapen

/-- Reads the fields of an expression that is written as an object. `kind` is what its type was
found to be so far. -/
def readParts (depth : Nat) : (fuel : Nat) → (isFirst : Bool) → (kind : Option Kind) →
    Reader (Kind × List (String × JsonValue))
  | 0, _, _, _ => .error .unfinished
  | fuel + 1, isFirst, kind, cs => do
    match ← nextName isFirst cs with
    | (false, cs) =>
      match kind with
      | some kind => return ((kind, []), cs)
      | none => .error .misshapen
    | (true, cs) =>
      let (name, cs) ← readString cs
      if name = "type" then
        if kind.isSome then .error .misshapen
        let (kind, cs) ← readKind (← passColon cs)
        readParts depth fuel false (some kind) cs
      else
        let (value, cs) ← readValue depth (← passColon cs)
        let ((kind, parts), cs) ← readParts depth fuel false kind cs
        return ((kind, (name, value) :: parts), cs)

/-- Reads an expression whose arrays and objects nest at most `depth` deep. -/
def readExpression (depth : Nat) : Reader Rule := fun cs => do
  let (kind, parts, cs) ← match skipBlanks cs, depth with
    | '[' :: _, 0 => .error .malformed
    | '\x7b' :: _, 0 => .error .malformed
    | '\x7b' :: cs, depth + 1 => do
      let ((kind, parts), cs) ← readParts depth (cs.length + 1) true none cs
      pure (kind, some parts, cs)
    | '[' :: cs, depth + 1 => do
      match ← nextItem true cs with
      | (false, _) => .error .misshapen
      | (true, cs) =>
        let (kind, cs) ← readKind cs
        let (items, cs) ← readItems (readValue depth) (cs.length + 1) false cs
        pure (kind, named? kind items, cs)
    | cs, _ => .error (wrongKind cs)
  match parts >>= assemble? (expression? (depthLimit + 1)) kind with
  | some rule => return (rule, cs)
  | none => .error .misshapen

/-- Puts a rule among others. A rule of the same name keeps its place and gets the new
expression. -/
def define (rules : List (String × Rule)) (name : String) (rule : Rule) : List (String × Rule) :=
  if rules.any (·.1 == name) then rules.map fun r => if r.1 == name then (name, rule) else r
  else rules ++ [(name, rule)]

/-- Reads the rules of a grammar. -/
def readRules (depth : Nat) : Reader (List (String × Rule)) := fun cs =>
  match skipBlanks cs, depth with
  | '\x7b' :: _, 0 => .error .malformed
  | '\x7b' :: cs, depth + 1 => do
    let (rules, cs) ← readFields (readExpression depth) (cs.length + 1) true cs
    return (rules.foldl (fun rules r => define rules r.1 r.2) [], cs)
  | cs, _ => .error (wrongKind cs)

/-- The parts of a grammar document. -/
inductive Section where
  | name
  | rules
  | extras
  | externals
  | inlined
  | supertypes
  | word
  deriving Repr, DecidableEq

/-- The parts by name. In a document that is an array they stand in this order. -/
def sections : List (String × Section) :=
  [("name", .name), ("rules", .rules), ("extras", .extras), ("externals", .externals),
    ("inline", .inlined), ("supertypes", .supertypes), ("word", .word)]

/-- What was read of a grammar document. -/
structure Draft where
  name : Option String := none
  rules : Option (List (String × Rule)) := none
  extras : Option (List Rule) := none
  externals : Option (List Rule) := none
  inlined : Option (List String) := none
  supertypes : Option (List String) := none
  word : Option (Option String) := none

/-- Whether a part was read. -/
def Draft.has (d : Draft) : Section → Bool
  | .name => d.name.isSome
  | .rules => d.rules.isSome
  | .extras => d.extras.isSome
  | .externals => d.externals.isSome
  | .inlined => d.inlined.isSome
  | .supertypes => d.supertypes.isSome
  | .word => d.word.isSome

/-- How deeply the values in a grammar document may nest. -/
def innerDepth : Nat := depthLimit - 1

/-- Reads a part into a draft. -/
def Draft.read (d : Draft) (part : Section) : Reader Draft := fun cs => do
  match part with
  | .name =>
    let (name, cs) ← readText cs
    return ({ d with name := some name }, cs)
  | .rules =>
    let (rules, cs) ← readRules innerDepth cs
    return ({ d with rules := some rules }, cs)
  | .extras =>
    let (extras, cs) ← readArray innerDepth (readExpression (innerDepth - 1)) cs
    return ({ d with extras := some extras }, cs)
  | .externals =>
    let (externals, cs) ← readArray innerDepth (readExpression (innerDepth - 1)) cs
    return ({ d with externals := some externals }, cs)
  | .inlined =>
    let (inlined, cs) ← readArray innerDepth readText cs
    return ({ d with inlined := some inlined }, cs)
  | .supertypes =>
    let (supertypes, cs) ← readArray innerDepth readText cs
    return ({ d with supertypes := some supertypes }, cs)
  | .word =>
    let (word, cs) ← readText? cs
    return ({ d with word := some word }, cs)

/-- White space, which is extra in a document that does not tell what is. -/
def standardExtras : List Rule := [.pattern "\\s" none]

/-- The grammar that a draft describes: a name and rules there have to be. -/
def Draft.grammar? (d : Draft) : Option Grammar := do
  return {
    name := ← d.name
    start := none
    rules := ← d.rules
    extras := d.extras.getD standardExtras
    inlined := d.inlined.getD []
    supertypes := d.supertypes.getD []
    word := d.word.join
    externals := d.externals.getD [] }

/-- Reads the parts of a document that is an object. Parts of other names are passed over. -/
def readNamedSections : (fuel : Nat) → (isFirst : Bool) → Draft → Reader Draft
  | 0, _, _, _ => .error .unfinished
  | fuel + 1, isFirst, d, cs => do
    match ← nextName isFirst cs with
    | (false, cs) => return (d, cs)
    | (true, cs) =>
      let (name, cs) ← readString cs
      match sections.lookup name with
      | some part =>
        if d.has part then .error .misshapen
        let (d, cs) ← d.read part (← passColon cs)
        readNamedSections fuel false d cs
      | none => readNamedSections fuel false d (← skipValue (← passColon cs))

/-- Reads the parts of a document that is an array. Nothing may follow the last one. -/
def readListedSections : List Section → (isFirst : Bool) → Draft → Reader Draft
  | [], _, d, cs =>
    match skipBlanks cs with
    | [] => .error .unfinished
    | ']' :: cs => .ok (d, cs)
    | _ => .error .malformed
  | part :: parts, isFirst, d, cs => do
    match ← nextItem isFirst cs with
    | (false, cs) => return (d, cs)
    | (true, cs) =>
      let (d, cs) ← d.read part cs
      readListedSections parts false d cs

end Document

open Json Document in
/-- The grammar that a document describes. -/
def Grammar.ofDocument (text : String) : Except JsonFault Grammar := do
  let (draft, cs) ← match skipBlanks text.toList with
    | '\x7b' :: cs => readNamedSections (cs.length + 1) true {} cs
    | '[' :: cs => readListedSections (sections.map (·.2)) true {} cs
    | cs => .error (wrongKind cs)
  match draft.grammar? with
  | none => .error .misshapen
  | some grammar => if skipBlanks cs = [] then return grammar else .error .malformed

end Packrat
