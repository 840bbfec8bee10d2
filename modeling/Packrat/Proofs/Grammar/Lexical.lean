import Packrat.Proofs.Regex.Composition

/-!
# What tokens are read as

The content of a token becomes the source of one regular expression. Without references and empty
choices, and with patterns that can stand in a group, this source is read part by part: sequences as
expressions one after another, choices as alternatives, and repetitions with the bounds that they
have, which then are in order.
-/

namespace Packrat.Rule

open Regex

mutual

/-- Whether an expression is built of literals and of patterns of which `p` holds, without
references and without empty choices. -/
def IsBuiltOf (p : String → Option String → Prop) : Rule → Prop
  | blank => True
  | literal _ => True
  | pattern source flags => p source flags
  | symbol _ => False
  | seq members => AreBuiltOf p members
  | choice members => members ≠ [] ∧ AreBuiltOf p members
  | repetition content _ _ => content.IsBuiltOf p
  | token content _ => content.IsBuiltOf p
  | renamed content _ _ => content.IsBuiltOf p
  | field _ content => content.IsBuiltOf p

/-- The same for a list. -/
def AreBuiltOf (p : String → Option String → Prop) : List Rule → Prop
  | [] => True
  | r :: rs => r.IsBuiltOf p ∧ AreBuiltOf p rs

end

/-- Whether a pattern is one on its own and can stand in a group. -/
def IsGroupable (source : String) (flags : Option String) : Prop :=
  (∃ regex, Pattern.parse source flags = .ok regex) ∧ StandsInGroup source

mutual

/-- Whether the bounds of all repetitions in an expression are in order. -/
def InOrder : Rule → Prop
  | seq members => AllInOrder members
  | choice members => AllInOrder members
  | repetition content min max => (∀ m ∈ max, min ≤ m) ∧ content.InOrder
  | token content _ => content.InOrder
  | renamed content _ _ => content.InOrder
  | field _ content => content.InOrder
  | _ => True

/-- The same for a list. -/
def AllInOrder : List Rule → Prop
  | [] => True
  | r :: rs => r.InOrder ∧ AllInOrder rs

end

mutual

/-- What an expression in a token is read as, one expression after another. -/
def regexes : Rule → List Regex
  | blank => []
  | literal text => text.toList.map fun c => .chars (.singleton c)
  | pattern source flags =>
    match Pattern.parse source flags with
    | .ok regex => [regex]
    | .error _ => []
  | symbol _ => []
  | seq members => sequences members
  | choice members => [alternation (sequences members)]
  | repetition content min max =>
    [(Regex.sequence content.regexes).repeated min.toNat (max.map (·.toNat))]
  | token content _ => content.regexes
  | renamed content _ _ => content.regexes
  | field _ content => content.regexes

/-- The same for each of some expressions. -/
def sequences : List Rule → List Regex
  | [] => []
  | r :: rs => Regex.sequence r.regexes :: sequences rs

end

variable {p q : String → Option String → Prop}

mutual

/-- An expression built of patterns of one sort is built of those of a wider sort. -/
theorem IsBuiltOf.mono (hpq : ∀ source flags, p source flags → q source flags) :
    (r : Rule) → r.IsBuiltOf p → r.IsBuiltOf q
  | blank, _ => trivial
  | literal _, _ => trivial
  | pattern source flags, h => hpq source flags h
  | symbol _, h => h
  | seq members, h => AreBuiltOf.mono hpq members h
  | choice members, h => ⟨h.1, AreBuiltOf.mono hpq members h.2⟩
  | repetition content _ _, h => IsBuiltOf.mono hpq content h
  | token content _, h => IsBuiltOf.mono hpq content h
  | renamed content _ _, h => IsBuiltOf.mono hpq content h
  | field _ content, h => IsBuiltOf.mono hpq content h

/-- The same for a list. -/
theorem AreBuiltOf.mono (hpq : ∀ source flags, p source flags → q source flags) :
    (rs : List Rule) → AreBuiltOf p rs → AreBuiltOf q rs
  | [], _ => trivial
  | r :: rs, h => ⟨IsBuiltOf.mono hpq r h.1, AreBuiltOf.mono hpq rs h.2⟩

end

/-- Bounds are in order in a list when they are in each expression. -/
theorem allInOrder_iff {rs : List Rule} : AllInOrder rs ↔ ∀ r ∈ rs, r.InOrder := by
  induction rs with
  | nil => simp [AllInOrder]
  | cons r rs ih => rw [AllInOrder, ih, List.forall_mem_cons]

/-- Each of some expressions is read as the sequence of what it is read as. -/
theorem sequences_eq_map (rs : List Rule) :
    sequences rs = rs.map fun r => Regex.sequence r.regexes := by
  induction rs with
  | nil => rfl
  | cons r rs ih => rw [sequences, ih, List.map_cons]

/-- Each of some expressions has a source of its own. -/
theorem sources_eq_map (rs : List Rule) : sources rs = rs.map regexSource := by
  induction rs with
  | nil => rfl
  | cons r rs ih => rw [sources, ih, List.map_cons]

/-- What a sequence becomes begins with a group. -/
theorem head?_seqSource (rs : List Rule) : (seqSource rs).toList.head? ≠ some '?' := by
  cases rs with
  | nil => simp [seqSource]
  | cons r rs =>
    cases r <;> simp [seqSource, isChoice, regexSource, regexGroup]

mutual

/-- What an expression in a token becomes is read apart from what follows it. -/
theorem readsAs : (r : Rule) → r.IsBuiltOf IsGroupable →
    ReadsAs r.InOrder r.regexes r.regexSource.toList
  | blank, _ => ReadsAs.nil
  | literal text, _ => ReadsAs.literal text
  | pattern source flags, h => by
    obtain ⟨⟨regex, hparse⟩, hgroup⟩ := h
    rw [regexes, hparse]
    exact .pattern hparse hgroup
  | symbol _, h => h.elim
  | seq members, h => seqReadsAs members h
  | choice members, h => by
    have henclosed := EnclosedAs.alternatives (membersReadAs members h.2) h.1
    have hsource : (String.intercalate "|" (sources members)).toList =
        ['|'].intercalate (members.map fun r => r.regexSource.toList) := by
      rw [String.toList_intercalate, sources_eq_map, List.map_map]
      rfl
    rw [← hsource, ← sequences_eq_map] at henclosed
    exact henclosed.group.mono allInOrder_iff.mpr
  | repetition content min max, h => (content.readsAs h).enclosed.repetition
  | token content _, h => content.readsAs h
  | renamed content _ _, h => content.readsAs h
  | field _ content, h => content.readsAs h

/-- The same for members in order. -/
theorem seqReadsAs : (rs : List Rule) → AreBuiltOf IsGroupable rs →
    ReadsAs (AllInOrder rs) (sequences rs) (seqSource rs).toList
  | [], _ => ReadsAs.nil
  | r :: rs, h => by
    have hhead := r.readsAs h.1
    have htail := seqReadsAs rs h.2
    have hfirst : ReadsAs r.InOrder [Regex.sequence r.regexes]
        (if r.isChoice then r.regexSource else regexGroup r.regexSource).toList := by
      split
      · -- a choice is read as one expression already
        cases r with
        | choice members => simpa [regexes, sequence_singleton] using hhead
        | _ => contradiction
      · exact hhead.enclosed.group
    rw [seqSource, String.toList_append]
    exact hfirst.append htail (head?_seqSource rs)

/-- The same for alternatives. -/
theorem membersReadAs : (rs : List Rule) → AreBuiltOf IsGroupable rs →
    ∀ r ∈ rs, ReadsAs r.InOrder r.regexes r.regexSource.toList
  | [], _ => nofun
  | r :: rs, h => List.forall_mem_cons.mpr ⟨r.readsAs h.1, membersReadAs rs h.2⟩

end

/-- The expression that the content of a token denotes. -/
theorem parse_regexSource {r : Rule} {regex : Regex} (hr : r.IsBuiltOf IsGroupable)
    (hparse : Pattern.parse r.regexSource none = .ok regex) :
    r.InOrder ∧ regex = Regex.sequence r.regexes :=
  (r.readsAs hr).of_parse hparse

end Packrat.Rule
