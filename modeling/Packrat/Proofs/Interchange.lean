import Packrat.Proofs.Grammar.Draft
import Packrat.Proofs.Json.Printing

/-!
# A document is read as the grammar that it describes

Every grammar without a start rule of its own and with open-ended repetitions only has documents,
and each of them is read as this grammar: with the sections in any order, with the types of
expressions in any place, with rankings around any expressions, with other fields among the known
ones, and written in any way that strings, numbers and blanks can be. A document that does not tell
the extras stands for the grammar with white space as its only extra.
-/

namespace Packrat

open Json Document

/-! ### Printed documents -/

mutual

/-- The value of an expression has no number that is out of range. -/
theorem Rule.fits_toValue : (r : Rule) → r.toValue.Fits
  | .blank | .literal _ | .pattern _ none | .pattern _ (some _) | .symbol _ => by
    simp [Rule.toValue, JsonValue.Fits, JsonValue.FieldsFit]
  | .seq members | .choice members => by
    simp [Rule.toValue, JsonValue.Fits, JsonValue.FieldsFit, Rule.fits_toValues members]
  | .repetition content _ _ | .token content _ | .renamed content _ _ | .field _ content => by
    simp [Rule.toValue, JsonValue.Fits, JsonValue.FieldsFit, content.fits_toValue]

/-- The values of expressions have no numbers that are out of range. -/
theorem Rule.fits_toValues : (rs : List Rule) → JsonValue.ItemsFit (Rule.toValues rs)
  | [] => trivial
  | r :: rs => ⟨r.fits_toValue, Rule.fits_toValues rs⟩

end

/-- The document of a grammar has no number that is out of range. -/
theorem Grammar.fits_toFields (g : Grammar) : (JsonValue.object g.toFields).Fits := by
  have hrules : JsonValue.FieldsFit (g.rules.map fun r => (r.1, r.2.toValue)) :=
    JsonValue.fieldsFit_iff.mpr (List.forall_mem_map.mpr fun r _ => r.2.fits_toValue)
  have hlist : ∀ rs : List Rule, JsonValue.ItemsFit (rs.map Rule.toValue) := fun _ =>
    JsonValue.itemsFit_iff.mpr (List.forall_mem_map.mpr fun r _ => r.fits_toValue)
  have hnames : ∀ names : List String, JsonValue.ItemsFit (names.map .string) := fun _ =>
    JsonValue.itemsFit_iff.mpr (List.forall_mem_map.mpr fun _ _ => trivial)
  have hword : (g.word.elim .null JsonValue.string).Fits := by
    cases g.word <;> exact trivial
  exact ⟨trivial, hrules, hlist _, hlist _, hnames _, hnames _, hword, trivial⟩

/-- The printed form of a value is a text of it, with no blanks around it. -/
theorem Json.isTextOf_compact {v : JsonValue} (h : v.Fits) : IsTextOf v.compact v :=
  ⟨[], _, [], blank_nil, writes_compact v h, blank_nil, (List.append_nil _).symm⟩

namespace Grammar

/-- A text of fields that describe a grammar is read as this grammar, with the standard extras if it
tells none. -/
theorem ofDocument_of_describes {g : Grammar} {fields : List (String × JsonValue)} {text : String}
    (hstart : g.start = none) (hnames : (g.rules.map (·.1)).Nodup)
    (h : DescribesGrammar fields g) (htext : IsTextOf text (.object fields))
    (hdepth : (JsonValue.object fields).depth ≤ depthLimit) :
    ofDocument text = .ok
      (if isBehind fields .extras then { g with extras := standardExtras } else g) := by
  obtain ⟨b, w, b', hb, hw, hb', htext⟩ := htext
  have hdepths := JsonValue.depthOfFields_le.mp (Nat.le_of_succ_le_succ hdepth)
  cases hw with
  | @object _ ws hws =>
    have hread : readNamedSections ((ws ++ b').length + 1) true {} (ws ++ b') =
        .ok (draftOf fields g, b') := by
      rw [← only_isBehind h]
      exact readNamedSections_of_reads (reads_section h hnames hdepths) h.once hws hws.length_lt
    have hend : skipBlanks b' = [] := by
      rw [← List.append_nil b', skipBlanks_append hb']
      rfl
    simp only [ofDocument, htext, skipBlanks_append hb, List.cons_append,
      skipBlanks_cons (by decide : isBlank '\x7b' = false), hread, bind, Except.bind,
      grammar?_draftOf h hstart, hend, if_true]
    rfl

/-- A grammar without a start rule of its own, with rules of different names and with open-ended
repetitions has documents, and every document that describes it and nests at most 127 levels deep is
read as it. Where the document leaves out the extras, white space is the only one. -/
theorem ofDocument_described {g : Grammar} (hstart : g.start = none)
    (hnames : (g.rules.map (·.1)).Nodup) (hrepeats : g.IsOpenEnded) :
    (∃ fields text, DescribesGrammar fields g ∧ ¬Lacks fields "extras" ∧
      IsTextOf text (.object fields)) ∧
    ∀ fields text, DescribesGrammar fields g → IsTextOf text (.object fields) →
      (JsonValue.object fields).depth ≤ 127 →
        (¬Lacks fields "extras" → ofDocument text = .ok g) ∧
        (Lacks fields "extras" →
          ofDocument text = .ok { g with extras := [.pattern "\\s" none] }) := by
  constructor
  · exact ⟨g.toFields, _, describes_toFields hrepeats, List.cons_ne_nil _ _,
      isTextOf_compact g.fits_toFields⟩
  · intro fields text hdescribes htext hdepth
    have hread := ofDocument_of_describes hstart hnames hdescribes htext hdepth
    refine ⟨fun hgiven => ?_, fun hlacks => ?_⟩
    · rwa [if_neg fun hbehind => hgiven (isBehind_iff_lacks.mp hbehind)] at hread
    · rwa [if_pos (isBehind_iff_lacks.mpr hlacks)] at hread

/-- A grammar whose first rule comes last in the alphabet. -/
def quoted : Grammar where
  name := "quoted"
  rules := [
    ("text", .seq [.literal "\"", .repetition (.token (.pattern "[^\"]" none) true) 1 none]),
    ("line", .field "part" (.symbol "text"))]
  extras := [.literal "\n"]

/-- Objects for its rules: the types stand last, and the first rule is ranked. -/
def quotedDefinitions : List (String × JsonValue) :=
  [("text", .object [("value", .natural 1), ("content", .object [
      ("members", .array [
        .object [("value", .string "\""), ("type", .string "STRING")],
        .object [("content", .object [
          ("content", .object [("value", .string "[^\"]"), ("type", .string "PATTERN")]),
          ("type", .string "IMMEDIATE_TOKEN")]), ("type", .string "REPEAT1")]]),
      ("type", .string "SEQ")]), ("type", .string "PREC_LEFT")]),
    ("line", .object [("content", .object [("name", .string "text"), ("type", .string "SYMBOL")]),
      ("name", .string "part"), ("type", .string "FIELD")])]

/-- The fields of an object for it, but for the extras, with a field that says nothing. -/
def quotedFields : List (String × JsonValue) :=
  [("conflicts", .array [.array [.string "text"]]), ("rules", .object quotedDefinitions),
    ("name", .string "quoted")]

/-- The field for the extras. -/
def quotedExtras : String × JsonValue :=
  ("extras", .array [.object [("value", .string "\n"), ("type", .string "STRING")]])

/-- A document with extras is read as the grammar, and without them as the grammar with white space
as its extra. -/
theorem ofDocument_described_quoted :
    quoted.start = none ∧ (quoted.rules.map (·.1)).Nodup ∧ quoted.IsOpenEnded ∧
      ofDocument (JsonValue.object (quotedExtras :: quotedFields)).compact = .ok quoted ∧
      ofDocument (JsonValue.object quotedFields).compact =
        .ok { quoted with extras := [.pattern "\\s" none] } := by
  have hrepeats : quoted.IsOpenEnded := by
    simp [IsOpenEnded, quoted, Rule.IsOpenEnded, Rule.AllOpenEnded]
  have hrules : List.Forall₂ (fun definition rule => definition.1 = rule.1 ∧
      Describes definition.2 rule.2) quotedDefinitions quoted.rules :=
    .cons ⟨rfl, .ranked (by decide) rfl rfl (.seq rfl rfl (.cons (.literal rfl rfl) (.cons
        (.atLeastOne rfl rfl (.immediate rfl rfl (.pattern rfl rfl (Or.inl rfl)))) .nil)))⟩
      (.cons ⟨rfl, .field rfl rfl rfl (.symbol rfl rfl)⟩ .nil)
  have hwith : DescribesGrammar (quotedExtras :: quotedFields) quoted :=
    ⟨rfl, ⟨_, rfl, hrules⟩, .inl ⟨_, rfl, .cons (.literal rfl rfl) .nil⟩, .inr ⟨rfl, rfl⟩,
      .inr ⟨rfl, rfl⟩, .inr ⟨rfl, rfl⟩, Or.inl rfl⟩
  have hwithout : DescribesGrammar quotedFields quoted :=
    ⟨rfl, ⟨_, rfl, hrules⟩, .inr rfl, .inr ⟨rfl, rfl⟩, .inr ⟨rfl, rfl⟩, .inr ⟨rfl, rfl⟩, Or.inl rfl⟩
  have hfits : (JsonValue.object (quotedExtras :: quotedFields)).Fits := by
    simp [quotedExtras, quotedFields, quotedDefinitions, JsonValue.Fits, JsonValue.ItemsFit,
      JsonValue.FieldsFit]
  have hread := (ofDocument_described (g := quoted) rfl (by decide) hrepeats).2
  refine ⟨rfl, by decide, hrepeats, ?_, ?_⟩
  · exact (hread _ _ hwith (isTextOf_compact hfits) (by decide)).1 (List.cons_ne_nil _ _)
  · exact (hread _ _ hwithout (isTextOf_compact hfits.2) (by decide)).2 rfl

end Grammar

end Packrat
