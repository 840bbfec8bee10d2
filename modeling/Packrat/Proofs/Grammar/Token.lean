import Packrat.Proofs.Grammar.Lexical

/-!
# Tokens that match nothing

The content of a token becomes one pattern, which is read part by part if every pattern in it can
stand in a group. A choice in it must not be empty either, as a group around nothing matches the
empty text, where a choice among nothing matches none. Then a token that matches nothing somewhere
is judged so, as long as the patterns in it are.
-/

namespace Packrat

/-- Whether the pattern of a source text is judged to match nothing if it does anywhere. -/
def Pattern.JudgesEmpty (source : String) (flags : Option String) : Prop :=
  ∀ regex, Pattern.parse source flags = .ok regex → ∀ before after,
    regex.matchesEmpty before after = true → Pattern.isNullable source flags = true

/-- A pattern whose least length is known is judged rightly. -/
theorem Pattern.judgesEmpty_of_minLength {source : String} {flags : Option String} {n : Nat}
    {regex : Regex} (hparse : Pattern.parse source flags = .ok regex)
    (hn : regex.minLength? = some n) : JudgesEmpty source flags := by
  intro regex' hparse' before after hempty
  obtain rfl : regex = regex' := Except.ok.inj (hparse.symm.trans hparse')
  obtain rfl := Regex.minLength?_eq_zero hempty hn
  simp [isNullable, hparse, Regex.isNullable, hn]

/-- A pattern that matches nothing somewhere does so between some neighbours. -/
theorem TerminalForm.exists_matchesEmpty {source : String} {flags : Option String} {t : Terminal}
    (ht : (pattern source flags).terminal = .ok t) (hempty : t.MayBeEmpty) :
    ∃ regex before after, Pattern.parse source flags = .ok regex ∧
      regex.matchesEmpty before after = true := by
  cases hread : Pattern.read source flags with
  | error e =>
    rw [terminal, hread] at ht
    cases ht
  | ok p =>
    rw [terminal, hread] at ht
    cases ht
    obtain ⟨regex, hparse, h⟩ := Except.of_bind_ok hread
    split at h
    · cases h
    · cases h
      obtain ⟨before, after, hmatches⟩ := Terminal.exists_matchesEmpty hempty
      exact ⟨regex, before, after, hparse, hmatches⟩

namespace Rule

mutual

/-- The patterns in an expression, with their flags; those in the content of tokens too. -/
def patterns : Rule → List (String × Option String)
  | pattern source flags => [(source, flags)]
  | seq members => patternsAmong members
  | choice members => patternsAmong members
  | repetition content _ _ => content.patterns
  | token content _ => content.patterns
  | renamed content _ _ => content.patterns
  | field _ content => content.patterns
  | _ => []

/-- The same for a list. -/
def patternsAmong : List Rule → List (String × Option String)
  | [] => []
  | r :: rs => r.patterns ++ patternsAmong rs

end

mutual

/-- Whether an expression in a token is read there as it is on its own: every pattern in it can
stand in a group, and no choice in it is empty. -/
def isComposable : Rule → Bool
  | pattern source _ => (Regex.Written.read? (regexGroup source)).isSome
  | seq members => areComposable members
  | choice members => !members.isEmpty && areComposable members
  | repetition content _ _ => content.isComposable
  | token content _ => content.isComposable
  | renamed content _ _ => content.isComposable
  | field _ content => content.isComposable
  | _ => true

/-- The same for a list. -/
def areComposable : List Rule → Bool
  | [] => true
  | r :: rs => r.isComposable && areComposable rs

end

open Regex

variable {defined f : String → Bool}

mutual

/-- A composable expression is built of patterns that can stand in a group. -/
theorem isBuiltOf_of_isComposable : (r : Rule) → r.flaw? defined true = none →
    r.isComposable = true → r.IsBuiltOf IsGroupable
  | blank, _, _ => trivial
  | literal _, _, _ => trivial
  | pattern source flags, hflaw, hcomposable => by
    rw [flaw?] at hflaw
    split at hflaw
    · rename_i regex hparse
      exact ⟨⟨regex, hparse⟩, standsInGroup_of_regexGroup hcomposable⟩
    · cases hflaw
  | symbol name, hflaw, _ => by
    rw [flaw?] at hflaw
    split at hflaw <;> cases hflaw
  | seq members, hflaw, hcomposable => areBuiltOf_of_areComposable members hflaw hcomposable
  | choice members, hflaw, hcomposable => by
    obtain ⟨hne, hcomposable⟩ := Bool.and_eq_true_iff.mp hcomposable
    exact ⟨by simpa using hne, areBuiltOf_of_areComposable members hflaw hcomposable⟩
  | repetition content _ _, hflaw, hcomposable =>
    content.isBuiltOf_of_isComposable hflaw hcomposable
  | token content _, hflaw, hcomposable => content.isBuiltOf_of_isComposable hflaw hcomposable
  | renamed content _ _, hflaw, hcomposable => content.isBuiltOf_of_isComposable hflaw hcomposable
  | field _ content, hflaw, hcomposable => content.isBuiltOf_of_isComposable hflaw hcomposable

/-- The same for a list. -/
theorem areBuiltOf_of_areComposable : (rs : List Rule) → flawAmong? defined true rs = none →
    areComposable rs = true → AreBuiltOf IsGroupable rs
  | [], _, _ => trivial
  | r :: rs, hflaw, hcomposable => by
    obtain ⟨hflaw, hflaws⟩ := Option.or_eq_none_iff.mp hflaw
    obtain ⟨hr, hrs⟩ := Bool.and_eq_true_iff.mp hcomposable
    exact ⟨r.isBuiltOf_of_isComposable hflaw hr, areBuiltOf_of_areComposable rs hflaws hrs⟩

end

section Empty

variable {before after : Neighbour}

mutual

/-- An expression that is read as one that matches nothing somewhere is judged so. -/
theorem isNullable_of_matchesEmpty : (r : Rule) → r.IsBuiltOf IsGroupable → r.InOrder →
    (∀ x ∈ r.patterns, Pattern.JudgesEmpty x.1 x.2) →
    (Regex.sequence r.regexes).matchesEmpty before after = true → r.isNullable f = true
  | blank, _, _, _, _ => rfl
  | literal text, _, _, _, hempty => by
    rw [regexes, matchesEmpty_sequence, List.all_map, List.all_eq_true] at hempty
    have hnil : text.toList = [] := List.eq_nil_iff_forall_not_mem.mpr fun c hc => by
      cases hempty c hc
    simp [isNullable, String.toList_eq_nil_iff.mp hnil]
  | pattern source flags, ⟨⟨regex, hparse⟩, _⟩, _, hjudges, hempty => by
    rw [regexes, hparse, sequence_singleton] at hempty
    exact hjudges (source, flags) List.mem_cons_self regex hparse before after hempty
  | symbol _, h, _, _, _ => h.elim
  | seq members, h, horder, hjudges, hempty => by
    have hmembers := isNullable_of_matchesEmpty_among members h horder hjudges
    rw [regexes, matchesEmpty_sequence, sequences_eq_map, List.all_map, List.all_eq_true] at hempty
    exact allNullable_iff.mpr fun r hr => hmembers r hr (hempty r hr)
  | choice members, h, horder, hjudges, hempty => by
    have hmembers := isNullable_of_matchesEmpty_among members h.2 horder hjudges
    rw [regexes, sequence_singleton, sequences_eq_map] at hempty
    obtain ⟨_, hread, hempty⟩ := matchesEmpty_alternation hempty
    obtain ⟨r, hr, rfl⟩ := List.mem_map.mp hread
    exact someNullable_iff.mpr ⟨r, hr, hmembers r hr hempty⟩
  | repetition content min max, h, horder, hjudges, hempty => by
    rw [regexes, sequence_singleton] at hempty
    refine Bool.or_eq_true_iff.mpr ?_
    rcases matchesEmpty_repeated hempty with hmax | hmin | hempty
    · -- bounds in order leave no iteration here
      obtain ⟨m, rfl, hm⟩ := Option.map_eq_some_iff.mp hmax
      have hle := UInt32.le_iff_toNat_le.mp (horder.1 m rfl)
      exact .inl (beq_iff_eq.mpr (UInt32.toNat_inj.mp (by simp; omega)))
    · exact .inl (beq_iff_eq.mpr (UInt32.toNat_inj.mp hmin))
    · exact .inr (isNullable_of_matchesEmpty content h horder.2 hjudges hempty)
  | token content _, h, horder, hjudges, hempty =>
    isNullable_of_matchesEmpty content h horder hjudges hempty
  | renamed content _ _, h, horder, hjudges, hempty =>
    isNullable_of_matchesEmpty content h horder hjudges hempty
  | field _ content, h, horder, hjudges, hempty =>
    isNullable_of_matchesEmpty content h horder hjudges hempty

/-- The same for a list. -/
theorem isNullable_of_matchesEmpty_among : (rs : List Rule) → AreBuiltOf IsGroupable rs →
    AllInOrder rs → (∀ x ∈ patternsAmong rs, Pattern.JudgesEmpty x.1 x.2) →
    ∀ r ∈ rs, (Regex.sequence r.regexes).matchesEmpty before after = true → r.isNullable f = true
  | [], _, _, _ => nofun
  | r :: rs, h, horder, hjudges => by
    obtain ⟨hjudge, hjudges⟩ := List.forall_mem_append.mp hjudges
    exact List.forall_mem_cons.mpr ⟨isNullable_of_matchesEmpty r h.1 horder.1 hjudge,
      isNullable_of_matchesEmpty_among rs h.2 horder.2 hjudges⟩

end

end Empty

/-- Whether a single terminal matches what is judged of it: a token that is more than a literal or a
pattern has to be composable. -/
def isSound : Rule → Bool
  | token content _ => content.simpleForm?.isSome || content.isComposable
  | _ => true

/-- Wrappers add nothing to the source of a token. -/
theorem regexSource_unwrapped (r : Rule) : r.unwrapped.regexSource = r.regexSource := by
  fun_induction unwrapped r with
  | case1 _ _ ih => simpa only [regexSource] using ih
  | case2 r hr => rfl

/-- Wrappers have no patterns of their own. -/
theorem patterns_unwrapped (r : Rule) : r.unwrapped.patterns = r.patterns := by
  fun_induction unwrapped r with
  | case1 _ _ ih => simpa only [patterns] using ih
  | case2 r hr => rfl

/-- Of a single terminal, the form from which its terminal was made. -/
theorem exists_form {r : Rule} {t : Terminal} (ht : r.terminal? = some t) :
    ∃ form, r.form? = some form ∧ form.terminal = .ok t := by
  obtain ⟨form, hform, ht⟩ := Option.bind_eq_some_iff.mp ht
  refine ⟨form, hform, ?_⟩
  cases h : form.terminal with
  | error e => rw [h] at ht; cases ht
  | ok t' => rw [h] at ht; cases ht; rfl

/-- A simple form that matches nothing somewhere is judged so. -/
theorem isNullable_of_simpleForm? {r : Rule} {form : TerminalForm}
    (hform : r.simpleForm? = some form)
    (hjudges : ∀ x ∈ r.patterns, Pattern.JudgesEmpty x.1 x.2) {t : Terminal}
    (ht : form.terminal = .ok t) (hempty : t.MayBeEmpty) : r.isNullable f = true := by
  rw [← patterns_unwrapped] at hjudges
  rw [← isNullable_unwrapped]
  unfold simpleForm? at hform
  split at hform
  · rename_i text hunwrapped
    cases hform
    cases ht
    rw [hunwrapped, isNullable, Terminal.eq_empty_of_mayBeEmpty hempty]
    rfl
  · rename_i source flags hunwrapped
    cases hform
    rw [hunwrapped] at hjudges ⊢
    obtain ⟨regex, before, after, hparse, hmatches⟩ := TerminalForm.exists_matchesEmpty ht hempty
    exact hjudges (source, flags) List.mem_cons_self regex hparse before after hmatches
  · cases hform

/-- A single terminal that matches nothing somewhere is judged so. -/
theorem isNullable_of_mayBeEmpty {r : Rule} (hleaf : r.isLeaf = true)
    (hflaw : r.flaw? defined false = none) (hsound : r.isSound = true)
    (hjudges : ∀ x ∈ r.patterns, Pattern.JudgesEmpty x.1 x.2) {t : Terminal}
    (ht : r.terminal? = some t) (hempty : t.MayBeEmpty) : r.isNullable f = true := by
  obtain ⟨form, hform, hterminal⟩ := exists_form ht
  cases r with
  | literal text =>
    exact isNullable_of_simpleForm? (r := .literal text) hform hjudges hterminal hempty
  | pattern source flags =>
    exact isNullable_of_simpleForm? (r := .pattern source flags) hform hjudges hterminal hempty
  | token content immediate =>
    rw [isNullable]
    have hform : (content.simpleForm?).getD (.pattern content.unwrapped.regexSource none) = form :=
      Option.some.inj hform
    cases hsimple : content.simpleForm? with
    | some simple =>
      rw [hsimple, Option.getD_some] at hform
      exact isNullable_of_simpleForm? hsimple hjudges (hform ▸ hterminal) hempty
    | none =>
      rw [hsimple, Option.getD_none, regexSource_unwrapped] at hform
      rw [isSound, hsimple] at hsound
      obtain ⟨regex, before, after, hparse, hmatches⟩ :=
        TerminalForm.exists_matchesEmpty (hform ▸ hterminal) hempty
      have hbuilt := content.isBuiltOf_of_isComposable hflaw hsound
      obtain ⟨horder, rfl⟩ := parse_regexSource hbuilt hparse
      exact content.isNullable_of_matchesEmpty hbuilt horder hjudges hmatches
  | _ => cases hleaf

mutual

/-- What is known of an expression is known of the single terminals in it. -/
theorem of_mem_leaves : (r : Rule) → r.flaw? defined false = none → ∀ leaf ∈ r.leaves,
    leaf.isLeaf = true ∧ leaf.flaw? defined false = none ∧ leaf.patterns ⊆ r.patterns
  | blank, _ => nofun
  | symbol _, _ => nofun
  | literal text, hflaw => by
    simpa [leaves] using ⟨rfl, hflaw⟩
  | pattern source flags, hflaw => by
    simpa [leaves] using ⟨rfl, hflaw⟩
  | token content immediate, hflaw => by
    simpa [leaves] using ⟨rfl, hflaw⟩
  | seq members, hflaw => of_mem_leavesAmong members hflaw
  | choice members, hflaw => of_mem_leavesAmong members hflaw
  | repetition content _ _, hflaw => of_mem_leaves content hflaw
  | renamed content _ _, hflaw => of_mem_leaves content hflaw
  | field _ content, hflaw => of_mem_leaves content hflaw

/-- The same for a list. -/
theorem of_mem_leavesAmong : (rs : List Rule) → flawAmong? defined false rs = none →
    ∀ leaf ∈ leavesAmong rs, leaf.isLeaf = true ∧ leaf.flaw? defined false = none ∧
      leaf.patterns ⊆ patternsAmong rs
  | [], _ => nofun
  | r :: rs, hflaw => by
    obtain ⟨hr, hrs⟩ := Option.or_eq_none_iff.mp hflaw
    intro leaf hleaf
    rcases List.mem_append.mp hleaf with hleaf | hleaf
    · obtain ⟨hsingle, hflaw, hpatterns⟩ := of_mem_leaves r hr leaf hleaf
      exact ⟨hsingle, hflaw, List.subset_append_of_subset_left _ hpatterns⟩
    · obtain ⟨hsingle, hflaw, hpatterns⟩ := of_mem_leavesAmong rs hrs leaf hleaf
      exact ⟨hsingle, hflaw, List.subset_append_of_subset_right _ hpatterns⟩

end

/-- Sound terminals are judged to match nothing where they do, if their patterns are. -/
theorem judgesEmpty_of_isSound {r : Rule} (hflaw : r.flaw? defined false = none)
    (hsound : ∀ leaf ∈ r.leaves, leaf.isSound = true)
    (hjudges : ∀ x ∈ r.patterns, Pattern.JudgesEmpty x.1 x.2) : r.JudgesEmpty := by
  intro leaf hleaf t ht hempty
  obtain ⟨hsingle, hflaw, hpatterns⟩ := r.of_mem_leaves hflaw leaf hleaf
  exact isNullable_of_mayBeEmpty hsingle hflaw (hsound leaf hleaf)
    (fun x hx => hjudges x (hpatterns hx)) ht hempty

end Rule

end Packrat
