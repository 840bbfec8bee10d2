import Packrat.Proofs.Grammar.Checked

/-!
# Roles that have names

A role tells what a part is for and takes nothing. A grammar without the roles that stand outside of
tokens has the same names, references and terminals, its expressions can match nothing in the same
cases and have the same ways out, so that its analysis is the same apart from the warnings about
alternatives: of these, one with a role is never an equal of the blank expression.
-/

namespace Packrat

namespace Rule

mutual

/-- The expression without the roles that have names, except for those inside of tokens. -/
def bare : Rule → Rule
  | seq members => seq (bareAll members)
  | choice members => choice (bareAll members)
  | repetition content min max => repetition content.bare min max
  | renamed content name named => renamed content.bare name named
  | field _ content => content.bare
  | rule => rule

/-- The expressions without the roles that have names. -/
def bareAll : List Rule → List Rule
  | [] => []
  | r :: rs => r.bare :: bareAll rs

end

/-- What an expression is without its outer wrappers has the roles removed that stand further
inside. -/
theorem unwrapped_bare (r : Rule) : r.bare.unwrapped = r.unwrapped.bare := by
  fun_induction unwrapped r with
  | case1 _ _ ih => exact ih
  | case2 r hr =>
    cases r with
    | field name content => exact absurd rfl (hr name content)
    | _ => rfl

/-- A role is a wrapper, so a terminal is one with or without its roles. -/
theorem isTerminal_bare (r : Rule) : r.bare.isTerminal = r.isTerminal := by
  rw [← isTerminal_unwrapped r.bare, unwrapped_bare, ← isTerminal_unwrapped r]
  cases h : r.unwrapped with
  | field name content => exact absurd h (unwrapped_ne_field _ _ _)
  | _ => rfl

/-- Roles do not decide whether trivia may come before a token. -/
theorem isImmediate_bare (r : Rule) : r.bare.isImmediate = r.isImmediate := by
  rw [← isImmediate_unwrapped r.bare, unwrapped_bare, ← isImmediate_unwrapped r]
  cases h : r.unwrapped with
  | field name content => exact absurd h (unwrapped_ne_field _ _ _)
  | _ => rfl

/-- The form of a terminal, and thus what it matches, does not depend on roles. -/
theorem form?_bare (r : Rule) : r.bare.form? = r.form? := by
  rw [← form?_unwrapped r.bare, unwrapped_bare, ← form?_unwrapped r]
  cases h : r.unwrapped with
  | field name content => exact absurd h (unwrapped_ne_field _ _ _)
  | _ => rfl

mutual

/-- What is wrong with an expression, if anything, is the same without its roles. -/
theorem flaw?_bare (defined : String → Bool) (inToken : Bool) :
    (r : Rule) → r.bare.flaw? defined inToken = r.flaw? defined inToken
  | blank | literal _ | pattern _ _ | symbol _ | token _ _ => rfl
  | seq members => by simp only [bare, flaw?, flawAmong?_bareAll defined inToken members]
  | choice members => by simp only [bare, flaw?, flawAmong?_bareAll defined inToken members]
  | repetition content _ _ => by simp only [bare, flaw?, flaw?_bare defined inToken content]
  | renamed content _ _ => by simp only [bare, flaw?, flaw?_bare defined inToken content]
  | field _ content => by simp only [bare, flaw?, flaw?_bare defined inToken content]

/-- The first flaw in a list of expressions is the same without their roles. -/
theorem flawAmong?_bareAll (defined : String → Bool) (inToken : Bool) :
    (rs : List Rule) → flawAmong? defined inToken (bareAll rs) = flawAmong? defined inToken rs
  | [] => rfl
  | r :: rs => by
    simp only [bareAll, flawAmong?, flaw?_bare defined inToken r,
      flawAmong?_bareAll defined inToken rs]

end

mutual

/-- An expression refers to the same rules without its roles. -/
theorem references_bare : (r : Rule) → r.bare.references = r.references
  | blank | literal _ | pattern _ _ | symbol _ | token _ _ => rfl
  | seq members => by simp only [bare, references, referencesAmong_bareAll members]
  | choice members => by simp only [bare, references, referencesAmong_bareAll members]
  | repetition content _ _ => by simp only [bare, references, references_bare content]
  | renamed content _ _ => by simp only [bare, references, references_bare content]
  | field _ content => by simp only [bare, references, references_bare content]

/-- The expressions of a list refer to the same rules without their roles. -/
theorem referencesAmong_bareAll :
    (rs : List Rule) → referencesAmong (bareAll rs) = referencesAmong rs
  | [] => rfl
  | r :: rs => by
    simp only [bareAll, referencesAmong, references_bare r, referencesAmong_bareAll rs]

end

mutual

/-- Roles match no text: an expression can match nothing just when it can without them. -/
theorem isNullable_bare (f : String → Bool) : (r : Rule) → r.bare.isNullable f = r.isNullable f
  | blank | literal _ | pattern _ _ | symbol _ | token _ _ => rfl
  | seq members => by simp only [bare, isNullable, allNullable_bareAll f members]
  | choice members => by simp only [bare, isNullable, someNullable_bareAll f members]
  | repetition content _ _ => by simp only [bare, isNullable, isNullable_bare f content]
  | renamed content _ _ => by simp only [bare, isNullable, isNullable_bare f content]
  | field _ content => by simp only [bare, isNullable, isNullable_bare f content]

/-- All of some expressions can match nothing just when they can without roles. -/
theorem allNullable_bareAll (f : String → Bool) :
    (rs : List Rule) → allNullable f (bareAll rs) = allNullable f rs
  | [] => rfl
  | r :: rs => by simp only [bareAll, allNullable, isNullable_bare f r, allNullable_bareAll f rs]

/-- One of some expressions can match nothing just when one can without roles. -/
theorem someNullable_bareAll (f : String → Bool) :
    (rs : List Rule) → someNullable f (bareAll rs) = someNullable f rs
  | [] => rfl
  | r :: rs => by simp only [bareAll, someNullable, isNullable_bare f r, someNullable_bareAll f rs]

end

mutual

/-- What an expression can begin with is the same without its roles. -/
theorem leftReferences_bare (f : String → Bool) :
    (r : Rule) → r.bare.leftReferences f = r.leftReferences f
  | blank | literal _ | pattern _ _ | symbol _ | token _ _ => rfl
  | seq members => by simp only [bare, leftReferences, leftReferencesOfSeq_bareAll f members]
  | choice members => by simp only [bare, leftReferences, leftReferencesAmong_bareAll f members]
  | repetition content _ _ => by simp only [bare, leftReferences, leftReferences_bare f content]
  | renamed content _ _ => by simp only [bare, leftReferences, leftReferences_bare f content]
  | field _ content => by simp only [bare, leftReferences, leftReferences_bare f content]

/-- What a sequence can begin with is the same without the roles of its parts. -/
theorem leftReferencesOfSeq_bareAll (f : String → Bool) :
    (rs : List Rule) → leftReferencesOfSeq f (bareAll rs) = leftReferencesOfSeq f rs
  | [] => rfl
  | r :: rs => by
    simp only [bareAll, leftReferencesOfSeq, leftReferences_bare f r, isNullable_bare f r,
      leftReferencesOfSeq_bareAll f rs]

/-- What alternatives can begin with is the same without their roles. -/
theorem leftReferencesAmong_bareAll (f : String → Bool) :
    (rs : List Rule) → leftReferencesAmong f (bareAll rs) = leftReferencesAmong f rs
  | [] => rfl
  | r :: rs => by
    simp only [bareAll, leftReferencesAmong, leftReferences_bare f r,
      leftReferencesAmong_bareAll f rs]

end

mutual

/-- An expression has a way out of the recursion just when it has one without its roles. -/
theorem escapes_bare (f : String → Bool) : (r : Rule) → r.bare.escapes f = r.escapes f
  | blank | literal _ | pattern _ _ | symbol _ | token _ _ => rfl
  | seq members => by simp only [bare, escapes, allEscape_bareAll f members]
  | choice members => by simp only [bare, escapes, someEscape_bareAll f members]
  | repetition content _ _ => by simp only [bare, escapes, escapes_bare f content]
  | renamed content _ _ => by simp only [bare, escapes, escapes_bare f content]
  | field _ content => by simp only [bare, escapes, escapes_bare f content]

/-- All of some expressions have a way out just when they have one without roles. -/
theorem allEscape_bareAll (f : String → Bool) :
    (rs : List Rule) → allEscape f (bareAll rs) = allEscape f rs
  | [] => rfl
  | r :: rs => by simp only [bareAll, allEscape, escapes_bare f r, allEscape_bareAll f rs]

/-- One of some expressions has a way out just when one has without roles. -/
theorem someEscape_bareAll (f : String → Bool) :
    (rs : List Rule) → someEscape f (bareAll rs) = someEscape f rs
  | [] => rfl
  | r :: rs => by simp only [bareAll, someEscape, escapes_bare f r, someEscape_bareAll f rs]

end

mutual

/-- Whether something that can match nothing is repeated does not depend on roles. -/
theorem repeatsNullable_bare (f : String → Bool) :
    (r : Rule) → r.bare.repeatsNullable f = r.repeatsNullable f
  | blank | literal _ | pattern _ _ | symbol _ | token _ _ => rfl
  | seq members => by simp only [bare, repeatsNullable, someRepeatsNullable_bareAll f members]
  | choice members => by simp only [bare, repeatsNullable, someRepeatsNullable_bareAll f members]
  | repetition content _ _ => by
    simp only [bare, repeatsNullable, isNullable_bare f content, repeatsNullable_bare f content]
  | renamed content _ _ => by simp only [bare, repeatsNullable, repeatsNullable_bare f content]
  | field _ content => by simp only [bare, repeatsNullable, repeatsNullable_bare f content]

/-- The same for a list: roles do not decide whether a part repeats something nullable. -/
theorem someRepeatsNullable_bareAll (f : String → Bool) :
    (rs : List Rule) → someRepeatsNullable f (bareAll rs) = someRepeatsNullable f rs
  | [] => rfl
  | r :: rs => by
    simp only [bareAll, someRepeatsNullable, repeatsNullable_bare f r,
      someRepeatsNullable_bareAll f rs]

end

end Rule

/-- Whether a warning is about an alternative that cannot be taken. -/
def GrammarWarning.isShadowing : GrammarWarning → Bool
  | shadowedAlternative _ _ _ => true
  | _ => false

/-- The warnings that are not about alternatives. -/
def unshadowed (warnings : List GrammarWarning) : List GrammarWarning :=
  warnings.filter (!·.isShadowing)

/-- The warnings that are not about alternatives can be picked out of each of two lists. -/
theorem unshadowed_append (before after : List GrammarWarning) :
    unshadowed (before ++ after) = unshadowed before ++ unshadowed after := List.filter_append ..

/-- Facts about the rules of a grammar, with the warnings that are not about alternatives. -/
def Analysis.unshadowed (a : Analysis) : Analysis :=
  { a with warnings := Packrat.unshadowed a.warnings }

namespace Grammar

/-- The grammar without the roles that have names in the expressions of its rules and extras, except
for those inside of tokens. -/
def bare (g : Grammar) : Grammar :=
  { g with
    rules := g.rules.map fun rule => (rule.1, rule.2.bare)
    extras := g.extras.map Rule.bare }

variable (g : Grammar)

/-- A grammar without roles has the same rules in the same order, each body without its roles. -/
theorem rules_bare : g.bare.rules = g.rules.map fun rule => (rule.1, rule.2.bare) := rfl

/-- The extras lose their roles as the rules do. -/
theorem extras_bare : g.bare.extras = g.extras.map Rule.bare := rfl

/-- There are as many rules as before, so that the numbers of rules stay what they are. -/
theorem length_rules_bare : g.bare.rules.length = g.rules.length := List.length_map ..

/-- The rules keep their names. -/
theorem names_bare : g.bare.rules.map (·.1) = g.rules.map (·.1) := by
  simp [rules_bare]

/-- A name stands for the rule of the same number. -/
theorem number?_bare : g.bare.number? = g.number? := by
  funext name
  simp [number?, rules_bare, List.findIdx?_map, Function.comp_def]

/-- The same names are defined. -/
theorem defines_bare : g.bare.defines = g.defines := by
  funext name
  simp only [defines, number?_bare]

/-- A number stands for the rule of the same name. -/
theorem ruleName_bare : g.bare.ruleName = g.ruleName := by
  funext i
  simp [ruleName, rules_bare, Function.comp_def]

/-- The body of a rule is its former body without roles. -/
theorem body_bare (i : Nat) : g.bare.body i = (g.body i).bare := by
  unfold body
  rw [rules_bare, List.getElem?_map]
  cases g.rules[i]? with
  | none => rfl
  | some rule => rfl

/-- The grammar has the same start rule. -/
theorem startRule?_bare : g.bare.startRule? = g.startRule? := by
  simp only [startRule?, rules_bare, List.head?_map, Option.map_map]
  rfl

/-- The same names are those of hidden rules. -/
theorem isHidden_bare : g.bare.isHidden = g.isHidden := rfl

/-- What may be an extra may be one without its roles. -/
theorem isExtra_bare (extra : Rule) : g.bare.isExtra extra.bare = g.isExtra extra := by
  have hfind : ∀ name,
      (g.bare.find? name).map (·.isTerminal) = (g.find? name).map (·.isTerminal) := by
    intro name
    rw [find?_eq, find?_eq, number?_bare]
    simp [body_bare, Rule.isTerminal_bare, Function.comp_def]
  unfold isExtra
  rw [Rule.unwrapped_bare]
  cases hr : extra.unwrapped with
  | field role content => exact absurd hr (Rule.unwrapped_ne_field _ _ _)
  | symbol name => exact congrArg (·.getD false) (hfind name)
  | _ => exact Rule.isTerminal_bare _

/-- The check of the names passes or fails in the same way. -/
theorem checkNames_bare : g.bare.checkNames = g.checkNames := by
  have hempty : g.bare.rules.isEmpty = g.rules.isEmpty := by simp [rules_bare]
  simp only [checkNames, names_bare, hempty]

/-- The check of a rule passes, or finds the same fault, without the roles in its body. -/
theorem checkRule_bare (name : String) (r : Rule) :
    g.bare.checkRule name r.bare = g.checkRule name r := by
  simp only [checkRule, defines_bare, Rule.flaw?_bare]

/-- The check of all rules and extras comes to the same result. -/
theorem checkReferences_bare : g.bare.checkReferences = g.checkReferences := by
  have hrules : (g.bare.rules.forM fun rule => g.bare.checkRule rule.1 rule.2) =
      g.rules.forM fun rule => g.checkRule rule.1 rule.2 := by
    rw [rules_bare, List.forM_eq_forM, List.forM_map]
    simp only [checkRule_bare]
  have hextras :
      g.bare.extras.zipIdx.forM g.bare.checkExtra = g.extras.zipIdx.forM g.checkExtra := by
    have hextra : ∀ extra i, g.bare.checkExtra (extra.bare, i) = g.checkExtra (extra, i) := by
      intro extra i
      simp only [checkExtra, checkRule_bare, isExtra_bare]
    rw [extras_bare, List.zipIdx_map, List.forM_eq_forM, List.forM_map]
    exact congrArg _ (funext fun extra => hextra extra.1 extra.2)
  simp only [checkReferences, hrules, hextras]

/-- A rule is found to match nothing from the same knowledge about the others. -/
theorem nullableRule_bare (known : Nullability) :
    g.bare.nullableRule known = g.nullableRule known := by
  funext name
  simp only [nullableRule, number?_bare]

/-- One pass over the rules learns the same about what can match nothing. -/
theorem widen_bare (known : Nullability) : g.bare.widen known = g.widen known := by
  simp [widen, nullableRule_bare, rules_bare, Rule.isNullable_bare, Function.comp_def]

/-- The same rules can match nothing. -/
theorem nullability_bare : g.bare.nullability = g.nullability := by
  have hsaturate : ∀ rounds known, g.bare.saturate rounds known = g.saturate rounds known := by
    intro rounds
    induction rounds with
    | zero => exact fun _ => rfl
    | succ rounds ih =>
      intro known
      simp only [saturate, widen_bare, ih]
  simp [nullability, hsaturate, rules_bare, Function.comp_def]

/-- The rules begin with the same rules. -/
theorem leftGraph_bare (known : Nullability) : g.bare.leftGraph known = g.leftGraph known := by
  simp [leftGraph, nullableRule_bare, number?_bare, rules_bare, Rule.leftReferences_bare,
    Function.comp_def]

/-- The rules refer to the same rules. -/
theorem referenceGraph_bare : g.bare.referenceGraph = g.referenceGraph := by
  simp [referenceGraph, number?_bare, rules_bare, Rule.references_bare, Function.comp_def]

/-- A cycle of rules that begin with each other is found in both or in neither. -/
theorem checkLeftRecursion_bare (known : Nullability) :
    g.bare.checkLeftRecursion known = g.checkLeftRecursion known := by
  simp only [checkLeftRecursion, leftGraph_bare, ruleName_bare]

/-- A rule without a way out of the recursion is found in both or in neither. -/
theorem checkEscape_bare : g.bare.checkEscape = g.checkEscape := by
  have hamong : g.bare.isAmong = g.isAmong := by
    funext members name
    simp only [isAmong, number?_bare]
  have hescape : g.bare.hasEscape = g.hasEscape := by
    funext members
    simp only [hasEscape, hamong, body_bare, Rule.escapes_bare]
  have hcomponent : g.bare.checkComponent = g.checkComponent := by
    funext graph members
    simp only [checkComponent, hescape, ruleName_bare]
  simp only [checkEscape, referenceGraph_bare, hcomponent]

/-- The same rules can be reached from the start rule. -/
theorem reachability_bare (start : Nat) : g.bare.reachability start = g.reachability start := by
  simp only [reachability, number?_bare, extras_bare, List.flatMap_map, Rule.references_bare,
    referenceGraph_bare, length_rules_bare]

/-- The same rules are tokens of their own. -/
theorem lexicality_bare (start : Nat) : g.bare.lexicality start = g.lexicality start := by
  simp [lexicality, rules_bare, List.zipIdx_map, Rule.isTerminal_bare, Function.comp_def]

/-- The warnings about alternatives come last, and apart from them nothing tells whether an
expression has a role. -/
theorem unshadowed_warnings_bare (reached : List Bool) (known : Nullability) :
    unshadowed (g.bare.warnings reached known) = unshadowed (g.warnings reached known) := by
  have hshadows : ∀ g : Grammar,
      unshadowed (g.rules.flatMap (shadowWarnings (g.nullableRule known))) = [] := by
    intro g
    refine List.filter_eq_nil_iff.mpr fun w hw => ?_
    obtain ⟨rule, -, hw⟩ := List.mem_flatMap.mp hw
    obtain ⟨members, -, hw⟩ := List.mem_flatMap.mp hw
    obtain ⟨pair, -, rfl⟩ := List.mem_map.mp hw
    simp [GrammarWarning.isShadowing]
  simp only [warnings, unshadowed_append, hshadows, List.append_nil]
  congr 2
  · simp only [rules_bare, List.zip_map_left, List.filterMap_map]
    rfl
  · simp only [rules_bare, List.filterMap_map, nullableRule_bare]
    simp only [Function.comp_def, Rule.repeatsNullable_bare]

/-- The analyses of a grammar with its roles and without them come to the same. -/
theorem analyzeFrom_bare (name : String) :
    (g.bare.analyzeFrom name).map Analysis.unshadowed =
      (g.analyzeFrom name).map Analysis.unshadowed := by
  unfold analyzeFrom
  simp only [checkNames_bare, number?_bare, checkReferences_bare, nullability_bare,
    checkLeftRecursion_bare, checkEscape_bare]
  cases g.checkNames with
  | error e => rfl
  | ok =>
    cases g.number? name with
    | none => rfl
    | some start =>
      cases g.checkReferences with
      | error e => rfl
      | ok =>
        cases g.checkLeftRecursion g.nullability with
        | error e => rfl
        | ok =>
          cases g.checkEscape with
          | error e => rfl
          | ok =>
            refine congrArg Except.ok ?_
            simp only [Analysis.unshadowed, reachability_bare, lexicality_bare,
              unshadowed_warnings_bare]

/-- The analysis of a grammar without roles comes to the same result, or fails in the same way, up
to the warnings about alternatives. -/
theorem analyze_bare (start : Option String) :
    (g.bare.analyze start).map Analysis.unshadowed = (g.analyze start).map Analysis.unshadowed := by
  unfold analyze
  rw [startRule?_bare]
  cases start.or g.startRule? with
  | none => rfl
  | some name => exact analyzeFrom_bare g name

end Grammar

end Packrat
