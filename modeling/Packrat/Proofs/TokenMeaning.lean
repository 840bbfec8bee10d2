import Mathlib.Data.Option.Basic
import Packrat.Proofs.Grammar.Lexical
import Packrat.Proofs.Regex.Spans

/-!
# What tokens match

The content of a token has a meaning of its own, put together of what its parts match. The regular
expression that the content becomes matches the same: from every offset of every text it reaches the
offsets that the parts reach.
-/

namespace Packrat

/-- Whether a pattern is one on its own and ignores blanks nowhere. -/
def Pattern.IsPlain (source : String) (flags : Option String) : Prop :=
  (∃ regex, parse source flags = .ok regex) ∧
    ∀ written, Regex.Written.read? source = some written → written.isVerbose = false

namespace Rule

mutual

/-- Whether the expression in a token matches a text between two offsets. -/
def Spans (text : Text) : Rule → Nat → Nat → Prop
  | blank, p, q => text.isBoundary p = true ∧ q = p
  | literal s, p, q => ∃ xs ys, text.Parts p q xs s.toList ys
  | pattern source flags, p, q =>
    ∃ regex, Pattern.parse source flags = .ok regex ∧ regex.Spans text p q
  | symbol _, _, _ => False
  | seq members, p, q => SpanInTurn text members p q
  | choice members, p, q => SomeSpans text members p q
  | repetition content min max, p, q =>
    ∃ n, min.toNat ≤ n ∧ (∀ m ∈ max, n ≤ m.toNat) ∧ text.Steps (Spans text content) n p q
  | token content _, p, q => content.Spans text p q
  | renamed content _ _, p, q => content.Spans text p q
  | field _ content, p, q => content.Spans text p q

/-- The same for expressions one after another. -/
def SpanInTurn (text : Text) : List Rule → Nat → Nat → Prop
  | [], p, q => text.isBoundary p = true ∧ q = p
  | r :: rs, p, q => ∃ m, r.Spans text p m ∧ SpanInTurn text rs m q

/-- The same for one of some expressions. -/
def SomeSpans (text : Text) : List Rule → Nat → Nat → Prop
  | [], _, _ => False
  | r :: rs, p, q => r.Spans text p q ∨ SomeSpans text rs p q

end

open Regex

variable {text : Text} {p q : Nat}

mutual

/-- What an expression in a token is read as matches what the expression does. -/
theorem spans_regexes : (r : Rule) → r.IsBuiltOf IsGroupable → r.InOrder → ∀ p q,
    (Regex.sequence r.regexes).Spans text p q ↔ r.Spans text p q
  | blank, _, _, _, _ => spans_empty
  | literal _, _, _, _, _ => spans_literal
  | pattern source flags, ⟨⟨regex, hparse⟩, _⟩, _, p, q => by
    simp [regexes, Spans, hparse, sequence_singleton]
  | symbol _, h, _, _, _ => h.elim
  | seq members, h, horder, p, q => spans_sequences members h horder p q
  | choice members, h, horder, p, q => by
    rw [regexes, sequence_singleton, spans_alternation, Spans]
    exact exists_spans_sequences members h.2 horder p q
  | repetition content min max, h, horder, p, q => by
    have hbounds : ∀ m ∈ max.map (·.toNat), min.toNat ≤ m :=
      Option.forall_mem_map.mpr fun m hm => UInt32.le_iff_toNat_le.mp (horder.1 m hm)
    rw [regexes, sequence_singleton, spans_repeated hbounds, Spans]
    simp only [Text.steps_congr (spans_regexes content h horder.2), Option.forall_mem_map]
  | token content _, h, horder, p, q => spans_regexes content h horder p q
  | renamed content _ _, h, horder, p, q => spans_regexes content h horder p q
  | field _ content, h, horder, p, q => spans_regexes content h horder p q

/-- The same for expressions one after another. -/
theorem spans_sequences : (rs : List Rule) → AreBuiltOf IsGroupable rs → AllInOrder rs → ∀ p q,
    (Regex.sequence (sequences rs)).Spans text p q ↔ SpanInTurn text rs p q
  | [], _, _, _, _ => spans_empty
  | r :: rs, h, horder, p, q => by
    rw [sequences, spans_sequence_cons, SpanInTurn]
    simp only [spans_regexes r h.1 horder.1, spans_sequences rs h.2 horder.2]

/-- The same for one of some expressions. -/
theorem exists_spans_sequences : (rs : List Rule) → AreBuiltOf IsGroupable rs → AllInOrder rs →
    ∀ p q, (∃ x ∈ sequences rs, x.Spans text p q) ↔ SomeSpans text rs p q
  | [], _, _, _, _ => by simp [sequences, SomeSpans]
  | r :: rs, h, horder, p, q => by
    rw [sequences, List.exists_mem_cons_iff, SomeSpans, spans_regexes r h.1 horder.1,
      exists_spans_sequences rs h.2 horder.2]

end

/-- The regular expression of a token whose content is built of literals and plain patterns, without
references and empty choices, matches what the content does. -/
theorem spans_regexSource {r : Rule} {regex : Regex} (hr : r.IsBuiltOf Pattern.IsPlain)
    (hparse : Pattern.parse r.regexSource none = .ok regex) (text : Text) (p q : Nat) :
    regex.Spans text p q ↔ r.Spans text p q := by
  have hgroup : r.IsBuiltOf IsGroupable :=
    hr.mono fun source flags h => ⟨h.1, standsInGroup_of_not_isVerbose h.2⟩
  obtain ⟨horder, rfl⟩ := parse_regexSource hgroup hparse
  exact spans_regexes r hgroup horder p q

/-- A choice that stands in a sequence, with a literal that has to be escaped, and a repetition of a
pattern with alternatives and a flag. -/
def grouped : Rule :=
  seq [choice [literal "a+", literal "b"], repetition (pattern "xy|z" (some "s")) 1 none]

/-- The regular expression of it. -/
def groupedRegex : Regex :=
  .seq (.alt (.seq (.chars (.singleton 'a')) (.chars (.singleton '+'))) (.chars (.singleton 'b')))
    (.rep (.alt (.seq (.chars (.singleton 'x')) (.chars (.singleton 'y')))
      (.chars (.singleton 'z'))) 1 none)

/-- A token with a choice, a special character and a flag: its source matches just what the token
does. -/
theorem spans_regexSource_grouped :
    grouped.IsBuiltOf Pattern.IsPlain ∧
      Pattern.parse grouped.regexSource none = .ok groupedRegex ∧
      (groupedRegex.Spans (.ofString "a+xyz") 0 5 ↔ grouped.Spans (.ofString "a+xyz") 0 5) := by
  have hplain : Pattern.IsPlain "xy|z" (some "s") := ⟨⟨_, rfl⟩, by rintro _ ⟨⟩; rfl⟩
  have hbuilt : grouped.IsBuiltOf Pattern.IsPlain :=
    ⟨⟨by simp, trivial, trivial, trivial⟩, hplain, trivial⟩
  have hparse : Pattern.parse grouped.regexSource none = .ok groupedRegex := rfl
  exact ⟨hbuilt, hparse, spans_regexSource hbuilt hparse _ 0 5⟩

end Rule

end Packrat
