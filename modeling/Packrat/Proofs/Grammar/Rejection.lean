import Packrat.Proofs.Grammar.Checked

/-!
# Rejected grammars

Only the last two checks of an analysis tell of recursion, so a grammar that is rejected for it has
passed the checks of its names and references. The error tells what the search for a cycle has
found: in the graph of what rules refer to first, or among rules that need each other.
-/

namespace Packrat

/-- Whether an error tells of recursion. -/
def GrammarError.isRecursion : GrammarError → Bool
  | leftRecursion _ => true
  | endlessRecursion _ => true
  | _ => false

/-- No flaw of an expression is about recursion. -/
theorem Flaw.isRecursion_error (rule : String) (flaw : Flaw) :
    (flaw.error rule).isRecursion = false := by
  cases flaw <;> rfl

namespace Grammar

variable {g : Grammar} {start : Option String} {known : Nullability} {e : GrammarError}

/-- The check of the names does not tell of recursion. -/
theorem isRecursion_of_checkNames (h : g.checkNames = .error e) : e.isRecursion = false := by
  unfold checkNames at h
  split at h
  · cases h
    rfl
  · split at h
    · cases h
      rfl
    · cases h

/-- The check of a rule does not tell of recursion. -/
theorem isRecursion_of_checkRule {rule : String} {r : Rule} (h : g.checkRule rule r = .error e) :
    e.isRecursion = false := by
  unfold checkRule at h
  split at h
  · cases h
    exact Flaw.isRecursion_error ..
  · cases h

/-- The check of an extra does not tell of recursion. -/
theorem isRecursion_of_checkExtra {extra : Rule × Nat} (h : g.checkExtra extra = .error e) :
    e.isRecursion = false := by
  rcases Except.of_bind_error h with hrule | ⟨_, -, hextra⟩
  · exact isRecursion_of_checkRule hrule
  · split at hextra
    · cases hextra
    · cases hextra
      rfl

/-- The check of all rules and extras does not tell of recursion. -/
theorem isRecursion_of_checkReferences (h : g.checkReferences = .error e) :
    e.isRecursion = false := by
  rcases Except.of_bind_error h with hrules | ⟨_, -, hextras⟩
  · obtain ⟨_, -, hrule⟩ := Except.of_forM_error hrules
    exact isRecursion_of_checkRule hrule
  · obtain ⟨_, -, hextra⟩ := Except.of_forM_error hextras
    exact isRecursion_of_checkExtra hextra

/-- What the check for left recursion tells is what the search for a cycle has found. -/
theorem of_checkLeftRecursion (h : g.checkLeftRecursion known = .error e) :
    ∃ cycle, (g.leftGraph known).cycle? (g.leftGraph known).vertices = some cycle ∧
      e = .leftRecursion (cycle.map g.ruleName) := by
  unfold checkLeftRecursion at h
  simp only at h
  split at h
  · rename_i cycle hfound
    cases h
    exact ⟨cycle, hfound, rfl⟩
  · cases h

/-- What the check for a way out tells is what the search for a cycle has found among rules that
need each other and have none. -/
theorem of_checkEscape (h : g.checkEscape = .error e) :
    ∃ group ∈ g.referenceGraph.components, g.referenceGraph.isRecursive group = true ∧
      g.hasEscape group = false ∧ e = .endlessRecursion
        ((((g.referenceGraph.within group).cycle? group.mergeSort).getD
          (group.mergeSort.take 1)).map g.ruleName) := by
  obtain ⟨group, hgroup, hcheck⟩ := Except.of_forM_error h
  unfold checkComponent at hcheck
  split at hcheck
  · cases hcheck
  · rename_i hnone
    cases hcheck
    simp only [Bool.or_eq_true, Bool.not_eq_true', not_or, Bool.not_eq_false,
      Bool.not_eq_true] at hnone
    exact ⟨group, hgroup, hnone.1, hnone.2, rfl⟩

/-- A grammar that is rejected for recursion has passed the checks before. -/
theorem of_analyze_error (h : g.analyze start = .error e) (he : e.isRecursion = true) :
    g.checkNames = .ok () ∧ g.checkReferences = .ok () ∧
      (g.checkLeftRecursion g.nullability = .error e ∨
        g.checkLeftRecursion g.nullability = .ok () ∧ g.checkEscape = .error e) := by
  unfold analyze at h
  split at h
  · rcases Except.of_bind_error h with hnames | ⟨⟨⟩, hnames, h⟩
    · rw [isRecursion_of_checkNames hnames] at he
      cases he
    · refine ⟨hnames, ?_⟩
      split at h
      · cases h
        cases he
      · rcases Except.of_bind_error h with hreferences | ⟨⟨⟩, hreferences, h⟩
        · rw [isRecursion_of_checkReferences hreferences] at he
          cases he
        · refine ⟨hreferences, ?_⟩
          rcases Except.of_bind_error h with hleft | ⟨⟨⟩, hleft, h⟩
          · exact .inl hleft
          · rcases Except.of_bind_error h with hescape | ⟨⟨⟩, -, h⟩
            · exact .inr ⟨hleft, hescape⟩
            · cases h
  · cases h
    cases he

/-- What is left of an analysis behind the checks of names and references. -/
theorem analyze_of_checks {name : String} {i : Nat} (hnames : g.checkNames = .ok ())
    (hstart : start.or g.startRule? = some name) (hi : g.number? name = some i)
    (hreferences : g.checkReferences = .ok ()) :
    g.analyze start = do
      g.checkLeftRecursion g.nullability
      g.checkEscape
      return {
        start := i
        nullable := g.nullability
        lexical := g.lexicality i
        reachable := g.reachability i
        warnings := g.warnings (g.reachability i) g.nullability } := by
  simp only [analyze, hstart, analyzeFrom, hnames, hi, hreferences]
  rfl

end Grammar

end Packrat
