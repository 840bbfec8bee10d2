import Packrat.Proofs.Grammar.Roles
import Packrat.Program.Lowering

/-!
# Roles leave nothing in programs

Sketches look through the roles that have names wherever they ask what an expression is. A grammar
therefore has the same analysis and becomes the same program as the grammar without these roles,
apart from what the checksum and the warnings about alternatives tell of the expressions as they
were written.
-/

namespace Packrat

namespace Analysed

/-- Whether an analysed grammar is another one without its roles. -/
structure IsBareOf (b a : Analysed) : Prop where
  grammar : b.grammar = a.grammar.bare
  analysis : b.analysis.unshadowed = a.analysis.unshadowed

/-- The leaf of a terminal depends on its form, which has no roles. -/
theorem leaf_bare (rule : String) (r : Rule) (kind : TerminalForm → Kind) :
    leaf rule r.bare kind = leaf rule r kind := by
  simp only [leaf, Rule.form?_bare, Rule.isImmediate_bare]

namespace IsBareOf

variable {a b : Analysed}

/-- The grammar without roles starts with the same rule. -/
theorem start (h : b.IsBareOf a) : b.analysis.start = a.analysis.start := by
  have hsame := congrArg Analysis.start h.analysis
  exact hsame

/-- The same rules can match nothing. -/
theorem nullable (h : b.IsBareOf a) : b.analysis.nullable = a.analysis.nullable := by
  have hsame := congrArg Analysis.nullable h.analysis
  exact hsame

/-- The same rules are tokens of their own. -/
theorem isLexical (h : b.IsBareOf a) : b.isLexical = a.isLexical := by
  have hlexical : b.analysis.lexical = a.analysis.lexical := by
    have hsame := congrArg Analysis.lexical h.analysis
    exact hsame
  funext i
  simp only [Analysed.isLexical, hlexical]

/-- The rules have the same names. -/
theorem ruleName (h : b.IsBareOf a) : b.grammar.ruleName = a.grammar.ruleName := by
  rw [h.grammar, Grammar.ruleName_bare]

/-- The names stand for the same numbers. -/
theorem number? (h : b.IsBareOf a) : b.grammar.number? = a.grammar.number? := by
  rw [h.grammar, Grammar.number?_bare]

/-- The bodies of the rules are the former ones without roles. -/
theorem body (h : b.IsBareOf a) (i : Nat) : b.grammar.body i = (a.grammar.body i).bare := by
  rw [h.grammar, Grammar.body_bare]

/-- There are as many rules. -/
theorem length_rules (h : b.IsBareOf a) : b.grammar.rules.length = a.grammar.rules.length := by
  rw [h.grammar, Grammar.length_rules_bare]

/-- The rules have the same kinds. -/
theorem ruleKind (h : b.IsBareOf a) : b.ruleKind = a.ruleKind := by
  funext i
  simp only [Analysed.ruleKind, h.ruleName, h.isLexical]

/-- A reference is lowered to the same operation. -/
theorem reference (h : b.IsBareOf a) (name : String) (renamed : Option (String × Bool)) :
    b.reference name renamed = a.reference name renamed := by
  simp only [Analysed.reference, h.number?, h.isLexical, h.body, leaf_bare, h.ruleKind]

mutual

/-- An expression is lowered to the same operation without its roles. -/
theorem sketch (h : b.IsBareOf a) (rule : String) :
    (r : Rule) → b.sketch rule r.bare = a.sketch rule r
  | .blank | .literal _ | .pattern _ _ | .token _ _ => rfl
  | .symbol name => h.reference name none
  | .seq members => congrArg Op.seq (h.sketchAll rule members)
  | .choice members => congrArg Op.choice (h.sketchAll rule members)
  | .repetition content min max =>
    congrArg (Op.repetition · min max) (h.sketch rule content)
  | .field _ content => h.sketch rule content
  | .renamed content name named => by
    have hleaf : ∀ r : Rule, ∀ kind wrapped, (if r.bare.isTerminal then leaf rule r.bare kind
        else wrapped) = if r.isTerminal then leaf rule r kind else wrapped := by
      intro r kind wrapped
      rw [Rule.isTerminal_bare, leaf_bare]
    have hinner := hleaf content.unwrapped (fun _ => ⟨name, named, .token⟩)
    simp only [Rule.bare, Analysed.sketch, Rule.unwrapped_bare, h.sketch rule content]
    cases hr : content.unwrapped with
    | field role inner => exact absurd hr (Rule.unwrapped_ne_field _ _ _)
    | symbol target => exact h.reference target (some (name, named))
    | _ =>
      rw [hr] at hinner
      exact hinner _

/-- The parts of a rule are lowered to the same operations without their roles. -/
theorem sketchAll (h : b.IsBareOf a) (rule : String) :
    (rs : List Rule) → b.sketchAll rule (Rule.bareAll rs) = a.sketchAll rule rs
  | [] => rfl
  | r :: rs => by
    simp only [Rule.bareAll, Analysed.sketchAll, h.sketch rule r, h.sketchAll rule rs]

end

/-- The bodies of the rules are lowered to the same operations. -/
theorem ruleSketch (h : b.IsBareOf a) : b.ruleSketch = a.ruleSketch := by
  funext i
  simp only [Analysed.ruleSketch, h.isLexical, h.ruleName, h.body, leaf_bare, h.ruleKind, h.sketch]

/-- An extra has the same terminal and the same kind without its roles. -/
theorem extra? (h : b.IsBareOf a) (r : Rule) : b.extra? r.bare = a.extra? r := by
  have hform := Rule.form?_bare r.unwrapped
  unfold Analysed.extra?
  rw [Rule.unwrapped_bare]
  cases hr : r.unwrapped with
  | field role content => exact absurd hr (Rule.unwrapped_ne_field _ _ _)
  | symbol name => simp only [Rule.bare, h.number?, h.body, Rule.form?_bare, h.ruleKind]
  | _ =>
    rw [hr] at hform
    exact congrArg (Option.bind · _) hform

/-- The extras have the same terminals and kinds, in the same order. -/
theorem extras (h : b.IsBareOf a) :
    b.grammar.extras.filterMap b.extra? = a.grammar.extras.filterMap a.extra? := by
  rw [h.grammar, Grammar.extras_bare, List.filterMap_map]
  exact congrArg (List.filterMap · _) (funext h.extra?)

/-- The tokens to stop at are the same terminals. -/
theorem syncUse (h : b.IsBareOf a) : b.syncUse = a.syncUse := by
  funext name
  simp only [Analysed.syncUse, h.number?, h.isLexical, h.body, Rule.form?_bare]

/-- The same is mentioned in the same order, so that all numbers are the same. -/
theorem mentions (h : b.IsBareOf a) : b.mentions = a.mentions := by
  funext sketches sync
  simp only [Analysed.mentions, h.length_rules, h.ruleKind, h.extras, h.syncUse]

/-- Over the same tables, the rules of the program are the same. -/
theorem programRule (h : b.IsBareOf a) : b.programRule = a.programRule := by
  funext t sketch
  have hhidden : b.grammar.isHidden = a.grammar.isHidden := by
    rw [h.grammar, Grammar.isHidden_bare]
  simp only [Analysed.programRule, h.ruleName, h.ruleKind, h.nullable, hhidden, h.isLexical]

end IsBareOf

end Analysed

/-- A program without the checksum of the grammar that it was made from. -/
def Program.unmarked (p : Program) : Program := { p with fingerprint := 0 }

/-- Nothing in a program but its checksum tells the roles of its grammar. -/
theorem Analysed.IsBareOf.program {a b : Analysed} (h : b.IsBareOf a) (sync : List String) :
    (b.program sync).map Program.unmarked = (a.program sync).map Program.unmarked := by
  have hname : b.grammar.name = a.grammar.name := by rw [h.grammar]; rfl
  simp only [Analysed.program, h.length_rules, h.ruleSketch, h.mentions]
  cases (a.mentions ((List.range a.grammar.rules.length).map a.ruleSketch) sync).foldlM
      Tables.enter {} with
  | error e => rfl
  | ok t =>
    refine congrArg Except.ok ?_
    simp only [Program.unmarked, hname, h.programRule, h.extras, h.syncUse, h.start]

/-- The analysis and the compilation of a grammar come to the same as those of the grammar without
the roles that have names outside of tokens: to the same error, or to the same facts about the same
rules and to the same program, apart from its checksum and the warnings about alternatives. -/
theorem Grammar.compile_bare (g : Grammar) :
    g.bare.number? = g.number? ∧
    (∀ start, (g.bare.analyze start).map Analysis.unshadowed =
      (g.analyze start).map Analysis.unshadowed) ∧
    ∀ c : Compiler, (c.compile g.bare).map (fun r => (r.1.unmarked, unshadowed r.2)) =
      (c.compile g).map fun r => (r.1.unmarked, unshadowed r.2) := by
  refine ⟨number?_bare g, analyze_bare g, fun c => ?_⟩
  have hanalysis := analyze_bare g c.start
  unfold Compiler.compile
  cases hg : g.analyze c.start with
  | error e =>
    rw [hg] at hanalysis
    rw [Except.of_map_error hanalysis]
    rfl
  | ok a =>
    rw [hg] at hanalysis
    obtain ⟨b, hbare, hsame⟩ := Except.of_map_ok hanalysis
    have hwarnings : unshadowed b.warnings = unshadowed a.warnings := by
      have hsame' := congrArg Analysis.warnings hsame
      exact hsame'
    -- the program is the same and the warnings go with it
    have hprogram := Analysed.IsBareOf.program (b := ⟨g.bare, b⟩) (a := ⟨g, a⟩) ⟨rfl, hsame⟩ c.sync
    rw [hbare]
    cases hp : Analysed.program ⟨g, a⟩ c.sync with
    | error e =>
      rw [hp] at hprogram
      simp only [Except.of_map_error hprogram, hp, bind, Except.bind, Except.map]
    | ok p =>
      rw [hp] at hprogram
      obtain ⟨q, hq, hunmarked⟩ := Except.of_map_ok hprogram
      simp only [hp, hq, bind, Except.bind, Except.map, pure, Except.pure, hunmarked, hwarnings]

end Packrat
