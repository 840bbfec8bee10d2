import Mathlib
import Packrat.Grammar.Basic
import Packrat.Json.Basic

/-!
# What a document describes

The interchange format writes an expression as an object with its kind under `type` and its parts
under names of their own, in any order. Fields of other names may stand among them and say nothing,
and an object that only ranks its content describes what the content does. A grammar is an object
too. Nothing here knows of a reader; `Describes` and `DescribesGrammar` are the format itself.
-/

namespace Packrat

namespace Document

/-- The values under a name, in order. -/
def valuesOf (fields : List (String × JsonValue)) (name : String) : List JsonValue :=
  (fields.filter (·.1 == name)).map (·.2)

/-- An object has one field of a name, with this value. -/
def Has (fields : List (String × JsonValue)) (name : String) (value : JsonValue) : Prop :=
  valuesOf fields name = [value]

/-- An object has no field of a name. -/
def Lacks (fields : List (String × JsonValue)) (name : String) : Prop := valuesOf fields name = []

/-- An object has a text under a name. Where there is none, the field is left out or null. -/
def HasText? (fields : List (String × JsonValue)) (name : String) : Option String → Prop
  | none => Lacks fields name ∨ Has fields name .null
  | some text => Has fields name (.string text)

/-- The kinds whose objects describe what their content does. -/
def rankings : List String := ["PREC", "PREC_LEFT", "PREC_RIGHT", "PREC_DYNAMIC", "RESERVED"]

/-- A value describes an expression. -/
inductive Describes : JsonValue → Rule → Prop
  | blank {fields : List (String × JsonValue)} :
    Has fields "type" (.string "BLANK") → Describes (.object fields) .blank
  | literal {fields : List (String × JsonValue)} {text : String} :
    Has fields "type" (.string "STRING") → Has fields "value" (.string text) →
      Describes (.object fields) (.literal text)
  | pattern {fields : List (String × JsonValue)} {source : String} {flags : Option String} :
    Has fields "type" (.string "PATTERN") → Has fields "value" (.string source) →
      HasText? fields "flags" flags → Describes (.object fields) (.pattern source flags)
  | symbol {fields : List (String × JsonValue)} {name : String} :
    Has fields "type" (.string "SYMBOL") → Has fields "name" (.string name) →
      Describes (.object fields) (.symbol name)
  | seq {fields : List (String × JsonValue)} {items : List JsonValue} {members : List Rule} :
    Has fields "type" (.string "SEQ") → Has fields "members" (.array items) →
      List.Forall₂ Describes items members → Describes (.object fields) (.seq members)
  | choice {fields : List (String × JsonValue)} {items : List JsonValue} {members : List Rule} :
    Has fields "type" (.string "CHOICE") → Has fields "members" (.array items) →
      List.Forall₂ Describes items members → Describes (.object fields) (.choice members)
  | anyNumber {fields : List (String × JsonValue)} {value : JsonValue} {content : Rule} :
    Has fields "type" (.string "REPEAT") → Has fields "content" value →
      Describes value content → Describes (.object fields) (.repetition content 0 none)
  | atLeastOne {fields : List (String × JsonValue)} {value : JsonValue} {content : Rule} :
    Has fields "type" (.string "REPEAT1") → Has fields "content" value →
      Describes value content → Describes (.object fields) (.repetition content 1 none)
  | token {fields : List (String × JsonValue)} {value : JsonValue} {content : Rule} :
    Has fields "type" (.string "TOKEN") → Has fields "content" value →
      Describes value content → Describes (.object fields) (.token content false)
  | immediate {fields : List (String × JsonValue)} {value : JsonValue} {content : Rule} :
    Has fields "type" (.string "IMMEDIATE_TOKEN") → Has fields "content" value →
      Describes value content → Describes (.object fields) (.token content true)
  | renamed {fields : List (String × JsonValue)} {value : JsonValue} {content : Rule}
      {name : String} {named : Bool} :
    Has fields "type" (.string "ALIAS") → Has fields "content" value →
      Has fields "value" (.string name) → Has fields "named" (.bool named) →
        Describes value content → Describes (.object fields) (.renamed content name named)
  | field {fields : List (String × JsonValue)} {value : JsonValue} {content : Rule}
      {name : String} :
    Has fields "type" (.string "FIELD") → Has fields "name" (.string name) →
      Has fields "content" value → Describes value content →
        Describes (.object fields) (.field name content)
  | ranked {fields : List (String × JsonValue)} {kind : String} {value : JsonValue} {rule : Rule} :
    kind ∈ rankings → Has fields "type" (.string kind) → Has fields "content" value →
      Describes value rule → Describes (.object fields) rule

/-- An object has an array under a name, of what describes some things one by one. -/
def HasList {α : Type} (Part : JsonValue → α → Prop) (fields : List (String × JsonValue))
    (name : String) (as : List α) : Prop :=
  ∃ items, Has fields name (.array items) ∧ List.Forall₂ Part items as

/-- An object has an array under a name, or it has no such field and there are no such things. -/
def HasList? {α : Type} (Part : JsonValue → α → Prop) (fields : List (String × JsonValue))
    (name : String) (as : List α) : Prop :=
  HasList Part fields name as ∨ (Lacks fields name ∧ as = [])

/-- The object with some fields describes a grammar, but for its extras where these are left
out. -/
structure DescribesGrammar (fields : List (String × JsonValue)) (g : Grammar) : Prop where
  name : Has fields "name" (.string g.name)
  rules : ∃ definitions, Has fields "rules" (.object definitions) ∧
    List.Forall₂ (fun definition rule => definition.1 = rule.1 ∧ Describes definition.2 rule.2)
      definitions g.rules
  extras : HasList Describes fields "extras" g.extras ∨ Lacks fields "extras"
  externals : HasList? Describes fields "externals" g.externals
  inlined : HasList? (fun value name => value = .string name) fields "inline" g.inlined
  supertypes : HasList? (fun value name => value = .string name) fields "supertypes" g.supertypes
  word : HasText? fields "word" g.word

end Document

/-! ### Some description -/

namespace Rule

mutual

/-- Whether every repetition in an expression is one of any number from none or from one on. -/
def IsOpenEnded : Rule → Prop
  | repetition content min max => (min = 0 ∨ min = 1) ∧ max = none ∧ content.IsOpenEnded
  | seq members => AllOpenEnded members
  | choice members => AllOpenEnded members
  | token content _ => content.IsOpenEnded
  | renamed content _ _ => content.IsOpenEnded
  | field _ content => content.IsOpenEnded
  | _ => True

/-- The same for a list. -/
def AllOpenEnded : List Rule → Prop
  | [] => True
  | r :: rs => r.IsOpenEnded ∧ AllOpenEnded rs

end

mutual

/-- An object for an expression, without rankings and without fields that say nothing. -/
def toValue : Rule → JsonValue
  | blank => .object [("type", .string "BLANK")]
  | literal text => .object [("type", .string "STRING"), ("value", .string text)]
  | pattern source flags =>
    .object [("type", .string "PATTERN"), ("value", .string source),
      ("flags", flags.elim .null .string)]
  | symbol name => .object [("type", .string "SYMBOL"), ("name", .string name)]
  | seq members => .object [("type", .string "SEQ"), ("members", .array (toValues members))]
  | choice members => .object [("type", .string "CHOICE"), ("members", .array (toValues members))]
  | repetition content min _ =>
    .object [("type", .string (if min = 0 then "REPEAT" else "REPEAT1")),
      ("content", content.toValue)]
  | token content immediate =>
    .object [("type", .string (if immediate then "IMMEDIATE_TOKEN" else "TOKEN")),
      ("content", content.toValue)]
  | renamed content name named =>
    .object [("type", .string "ALIAS"), ("content", content.toValue), ("value", .string name),
      ("named", .bool named)]
  | field name content =>
    .object [("type", .string "FIELD"), ("name", .string name), ("content", content.toValue)]

/-- The same for a list. -/
def toValues : List Rule → List JsonValue
  | [] => []
  | r :: rs => r.toValue :: toValues rs

end

open Document

mutual

/-- The value that is written for an expression describes it. -/
theorem describes_toValue : (r : Rule) → r.IsOpenEnded → Describes r.toValue r
  | blank, _ => by exact .blank rfl
  | literal _, _ => by exact .literal rfl rfl
  | pattern _ none, _ => by exact .pattern rfl rfl (.inr rfl)
  | pattern _ (some _), _ => by exact .pattern rfl rfl rfl
  | symbol _, _ => by exact .symbol rfl rfl
  | seq members, h => by exact .seq rfl rfl (describes_toValues members h)
  | choice members, h => by exact .choice rfl rfl (describes_toValues members h)
  | repetition content min max, h => by
    obtain ⟨rfl | rfl, rfl, hcontent⟩ := h
    · exact .anyNumber rfl rfl (describes_toValue content hcontent)
    · exact .atLeastOne rfl rfl (describes_toValue content hcontent)
  | token content false, h => by exact .token rfl rfl (describes_toValue content h)
  | token content true, h => by exact .immediate rfl rfl (describes_toValue content h)
  | renamed content _ _, h => by exact .renamed rfl rfl rfl rfl (describes_toValue content h)
  | field _ content, h => by exact .field rfl rfl rfl (describes_toValue content h)

/-- The values that are written for expressions describe them one by one. -/
theorem describes_toValues : (rs : List Rule) → AllOpenEnded rs →
    List.Forall₂ Describes (toValues rs) rs
  | [], _ => .nil
  | r :: rs, h => .cons (describes_toValue r h.1) (describes_toValues rs h.2)

end

end Rule

namespace Grammar

open Document Rule

/-- Whether every repetition in a grammar is one of any number from none or from one on. -/
def IsOpenEnded (g : Grammar) : Prop :=
  (∀ r ∈ g.rules, r.2.IsOpenEnded) ∧ (∀ r ∈ g.extras, r.IsOpenEnded) ∧
    ∀ r ∈ g.externals, r.IsOpenEnded

/-- The fields of an object for a grammar, with all its sections. -/
def toFields (g : Grammar) : List (String × JsonValue) :=
  [("name", .string g.name), ("rules", .object (g.rules.map fun r => (r.1, r.2.toValue))),
    ("extras", .array (g.extras.map toValue)), ("externals", .array (g.externals.map toValue)),
    ("inline", .array (g.inlined.map .string)),
    ("supertypes", .array (g.supertypes.map .string)), ("word", g.word.elim .null .string)]

/-- Every grammar whose repetitions are open-ended has a description. -/
theorem describes_toFields {g : Grammar} (h : g.IsOpenEnded) : DescribesGrammar g.toFields g := by
  obtain ⟨hrules, hextras, hexternals⟩ := h
  have hlist : ∀ {rs : List Rule}, (∀ r ∈ rs, r.IsOpenEnded) →
      List.Forall₂ Describes (rs.map toValue) rs := fun hrs =>
    List.forall₂_map_left_iff.mpr (List.forall₂_same.mpr fun r hr => describes_toValue r (hrs r hr))
  have hnames : ∀ names : List String,
      List.Forall₂ (fun value name => value = .string name) (names.map JsonValue.string) names :=
    fun _ => List.forall₂_map_left_iff.mpr (List.forall₂_same.mpr fun _ _ => rfl)
  have hword : HasText? g.toFields "word" g.word := by
    cases h : g.word with
    | none => exact .inr (by rw [toFields, h]; rfl)
    | some word => exact (by rw [toFields, h]; rfl : Has g.toFields "word" (.string word))
  exact
    { name := rfl
      rules := ⟨_, rfl, List.forall₂_map_left_iff.mpr (List.forall₂_same.mpr fun r hr =>
        ⟨rfl, describes_toValue r.2 (hrules r hr)⟩)⟩
      extras := .inl ⟨_, rfl, hlist hextras⟩
      externals := .inl ⟨_, rfl, hlist hexternals⟩
      inlined := .inl ⟨_, rfl, hnames _⟩
      supertypes := .inl ⟨_, rfl, hnames _⟩
      word := hword }

end Grammar

end Packrat
