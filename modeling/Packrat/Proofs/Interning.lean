import Mathlib
import Packrat.Proofs.Program.Kinds

/-!
# Kinds and terminals are interned

Wherever a program names a kind or a terminal it has the number of it. Equal kinds have one number
and distinct ones have distinct numbers, so do the forms of terminals, and no number is left out.
The program of an analysed grammar whose terminals can all be made is refused only if it needs more
kinds than there may be.
-/

namespace Packrat

namespace Op

variable {τ κ : Type}

mutual

/-- The kinds in an operation, place by place. -/
def kinds : Op τ κ → List κ
  | blank => []
  | token _ kind _ => [kind]
  | call _ renamed => renamed.toList
  | seq members => kindsAmong members
  | choice members => kindsAmong members
  | repetition body _ _ => body.kinds
  | wrap body kind => body.kinds ++ [kind]

/-- The kinds in some operations. -/
def kindsAmong : List (Op τ κ) → List κ
  | [] => []
  | op :: ops => op.kinds ++ kindsAmong ops

end

mutual

/-- The terminals in an operation, place by place. -/
def terminals : Op τ κ → List τ
  | blank => []
  | token terminal _ _ => [terminal]
  | call _ _ => []
  | seq members => terminalsAmong members
  | choice members => terminalsAmong members
  | repetition body _ _ => body.terminals
  | wrap body _ => body.terminals

/-- The terminals in some operations. -/
def terminalsAmong : List (Op τ κ) → List τ
  | [] => []
  | op :: ops => op.terminals ++ terminalsAmong ops

end

mutual

/-- A sketch mentions what stands in it. -/
theorem mem_mentions : (op : Sketch) →
    (∀ kind, .kind kind ∈ op.mentions ↔ kind ∈ op.kinds) ∧
      ∀ use, .terminal use ∈ op.mentions ↔ use ∈ op.terminals
  | blank => by simp [mentions, kinds, terminals]
  | token _ _ _ => by simp [mentions, kinds, terminals]
  | call _ none => by simp [mentions, kinds, terminals]
  | call _ (some _) => by simp [mentions, kinds, terminals]
  | seq members => mem_mentionsAmong members
  | choice members => mem_mentionsAmong members
  | repetition body _ _ => mem_mentions body
  | wrap body _ => by simp [mentions, kinds, terminals, mem_mentions body]

/-- The same for some sketches. -/
theorem mem_mentionsAmong : (ops : List Sketch) →
    (∀ kind, .kind kind ∈ mentionsAmong ops ↔ kind ∈ kindsAmong ops) ∧
      ∀ use, .terminal use ∈ mentionsAmong ops ↔ use ∈ terminalsAmong ops
  | [] => by simp [mentionsAmong, kindsAmong, terminalsAmong]
  | op :: ops => by
    simp [mentionsAmong, kindsAmong, terminalsAmong, mem_mentions op, mem_mentionsAmong ops]

end

end Op

namespace Analysed

variable {a : Analysed} {sync : List String} {t : Tables}

/-- The kinds that the program of a grammar needs, place by place: those of errors and of skipped
text, of the rules, in their operations, and of the extras. -/
def neededKinds (a : Analysed) : List Kind :=
  [.error, .skipped] ++ a.ruleKinds ++ a.sketches.flatMap Op.kinds ++
    (a.grammar.extras.filterMap a.extra?).map (·.2)

/-- The forms of the terminals that it needs: those in the operations of rules, of the extras, and
of the tokens to stop at. -/
def neededForms (a : Analysed) (sync : List String) : List TerminalForm :=
  (a.sketches.flatMap Op.terminals).map (·.form) ++
    (a.grammar.extras.filterMap a.extra?).map (·.1.form) ++
      sync.map fun name => (a.syncUse name).form

/-- A kind is mentioned just when the program needs it. -/
theorem kind_mem_mentions {kind : Kind} :
    .kind kind ∈ a.mentions a.sketches sync ↔ kind ∈ a.neededKinds := by
  simp [mentions, neededKinds, ruleKinds, Op.mem_mentions, eq_comm]

/-- The form of a terminal is mentioned just when the program needs it. -/
theorem terminal_mem_mentions {form : TerminalForm} :
    (∃ use, .terminal use ∈ a.mentions a.sketches sync ∧ use.form = form) ↔
      form ∈ a.neededForms sync := by
  simp [mentions, neededForms, Op.mem_mentions, or_and_right, exists_or]

end Analysed

/-- Whether a program names the kinds and terminals of an analysed grammar by these numbers, which
are one for each that is needed, and are their places in its tables. -/
structure Program.Interns (p : Program) (a : Analysed) (sync : List String)
    (kindNumber : Kind → Nat) (formNumber : TerminalForm → Nat) : Prop where
  ruleCount : p.rules.size = a.grammar.rules.length
  ruleKind : ∀ i < a.grammar.rules.length, (p.rule i).kind =
    kindNumber ⟨a.grammar.ruleName i, true, if a.isLexical i then .token else .node⟩
  ruleBody : ∀ i < a.grammar.rules.length, (p.rule i).body =
    (a.ruleSketch i).map (fun use => formNumber use.form) kindNumber
  extras : p.extras = (a.grammar.extras.filterMap a.extra?).map fun e =>
    (formNumber e.1.form, kindNumber e.2)
  stops : p.sync = sync.map fun name => formNumber (a.syncUse name).form
  error : kindNumber .error = errorKind
  skipped : kindNumber .skipped = skippedKind
  kinds : Set.BijOn kindNumber {kind | kind ∈ a.neededKinds} (Set.Iio p.kinds.size)
  kind : ∀ kind ∈ a.neededKinds, p.kinds[kindNumber kind]? = some kind
  terminals : Set.BijOn formNumber {form | form ∈ a.neededForms sync} (Set.Iio p.terminals.size)
  terminal : ∀ form ∈ a.neededForms sync,
    form.terminal = .ok (p.terminal (formNumber form))
  size_kinds : p.kinds.size ≤ 2 ^ 16

namespace Analysed

variable {a : Analysed} {sync : List String} {t : Tables}

/-- The program over the tables in which all that is mentioned was entered names it by its place
there. -/
theorem interns_programOver (h : (a.mentions a.sketches sync).foldlM Tables.enter {} = .ok t) :
    (a.programOver sync t).Interns a sync t.kindNumber
      fun form => (t.forms.number? form).getD 0 := by
  obtain ⟨-, hknows, heven⟩ := Tables.of_foldlM_enter h rfl
  obtain ⟨hkinds, hforms⟩ := Tables.mem_items_foldlM h
  have hempty : ({} : Tables).Faithful := ⟨by simp [Numbering.number?_eq_some, Numbering.empty]⟩
  have hreads : Reads t (a.programOver sync t) := reads_of_tables rfl rfl (hempty.foldlM rfl h)
  obtain ⟨herror, hskipped⟩ := of_mentions h
  have hneeded : {kind | kind ∈ a.neededKinds} = {kind | kind ∈ t.kinds.items} := by
    ext kind
    simp [hkinds, kind_mem_mentions, Numbering.empty]
  have hneeded' : {form | form ∈ a.neededForms sync} = {form | form ∈ t.forms.items} := by
    ext form
    simp [hforms, terminal_mem_mentions, Numbering.empty]
  constructor
  · simp [programOver, sketches]
  · intro i hi
    rw [rule_eq rfl hi]
    rfl
  · intro i hi
    rw [rule_eq rfl hi]
    rfl
  · rfl
  · rfl
  · rw [Tables.kindNumber, Numbering.number?_eq_some.mpr herror, Option.getD_some]
  · rw [Tables.kindNumber, Numbering.number?_eq_some.mpr hskipped, Option.getD_some]
  · rw [hneeded]
    exact t.kinds.bijOn_number
  · exact fun kind hkind => hreads.kind kind (hknows _ (kind_mem_mentions.mpr hkind))
  · have hsize : (a.programOver sync t).terminals.size = t.forms.size := heven
    rw [hneeded', hsize]
    exact t.forms.bijOn_number
  · intro form hform
    obtain ⟨use, huse, rfl⟩ := terminal_mem_mentions.mpr hform
    exact hreads.terminal use (hknows _ huse)
  · exact Tables.size_kinds_of_foldlM h (by decide)

/-- The program of an analysed grammar whose terminals can be made is refused if more kinds are
needed than there may be, and only then. -/
theorem program_cases (hbuild : ∀ form ∈ a.neededForms sync, ∃ x, form.terminal = .ok x) :
    (a.neededKinds.toFinset.card ≤ kindLimit ∧ ∃ t,
      (a.mentions a.sketches sync).foldlM Tables.enter {} = .ok t ∧
        a.program sync = .ok (a.programOver sync t)) ∨
      kindLimit < a.neededKinds.toFinset.card ∧ a.program sync = .error .tooManyKinds := by
  rw [program_eq_bind]
  have hmentioned : ∀ use, .terminal use ∈ a.mentions a.sketches sync →
      ∃ x, use.form.terminal = .ok x := fun use huse =>
    hbuild use.form (terminal_mem_mentions.mp ⟨use, huse, rfl⟩)
  rcases Tables.foldlM_enter_cases (t := {}) hmentioned with
    ⟨t, ht⟩ | ⟨hfull, kinds, hnodup, hmany, hkinds⟩
  · refine .inl ⟨?_, t, ht, by rw [ht]; rfl⟩
    have hsubset : a.neededKinds.toFinset ⊆ t.kinds.items.toList.toFinset := by
      intro kind hkind
      rw [List.mem_toFinset] at hkind ⊢
      exact Array.mem_toList_iff.mpr
        (((Tables.mem_items_foldlM ht).1 kind).mpr (.inr (kind_mem_mentions.mpr hkind)))
    calc a.neededKinds.toFinset.card
      _ ≤ t.kinds.items.toList.toFinset.card := Finset.card_le_card hsubset
      _ ≤ t.kinds.size := List.toFinset_card_le _
      _ ≤ kindLimit := Tables.size_kinds_of_foldlM ht (by decide)
  · refine .inr ⟨?_, by rw [hfull]; rfl⟩
    have hsubset : kinds.toFinset ⊆ a.neededKinds.toFinset := by
      intro kind hkind
      rw [List.mem_toFinset] at hkind ⊢
      refine kind_mem_mentions.mp ((hkinds kind hkind).resolve_left ?_)
      simp [Numbering.empty]
    calc kindLimit
      _ < kinds.length := hmany
      _ = kinds.toFinset.card := (List.toFinset_card_of_nodup hnodup).symm
      _ ≤ a.neededKinds.toFinset.card := Finset.card_le_card hsubset

end Analysed

namespace Compiler

variable {c : Compiler} {g : Grammar} {analysis : Analysis}

/-- A grammar that is accepted and whose terminals can be made is refused if it needs more than
65,536 kinds, and only then. Otherwise its program interns the kinds and terminals. -/
theorem compile_interns (h : g.analyze c.start = .ok analysis)
    (hbuild : ∀ form ∈ Analysed.neededForms ⟨g, analysis⟩ c.sync, ∃ x, form.terminal = .ok x) :
    (c.compile g = .error .tooManyKinds ↔
        2 ^ 16 < (Analysed.neededKinds ⟨g, analysis⟩).toFinset.card) ∧
      ((Analysed.neededKinds ⟨g, analysis⟩).toFinset.card ≤ 2 ^ 16 → ∃ p kindNumber formNumber,
        c.compile g = .ok (p, analysis.warnings) ∧
          p.Interns ⟨g, analysis⟩ c.sync kindNumber formNumber) := by
  have hlimit : kindLimit = 2 ^ 16 := rfl
  rcases Analysed.program_cases hbuild with ⟨hfew, t, ht, hprogram⟩ | ⟨hmany, hprogram⟩
  · have hcompile : c.compile g = .ok (Analysed.programOver ⟨g, analysis⟩ c.sync t,
        analysis.warnings) := by
      simp only [compile, h, hprogram, bind, Except.bind, pure, Except.pure]
    rw [hcompile]
    exact ⟨iff_of_false (by simp) (Nat.not_lt.mpr hfew),
      fun _ => ⟨_, _, _, rfl, Analysed.interns_programOver ht⟩⟩
  · have hcompile : c.compile g = .error .tooManyKinds := by
      simp only [compile, h, hprogram, bind, Except.bind]
    exact ⟨iff_of_true hcompile hmany, fun hfew => absurd hmany (Nat.not_lt.mpr hfew)⟩

/-- One literal in three places, of which one is renamed as the rule. The leaf under this name and
the node of the rule are of distinct kinds. -/
def sharing : Analysed where
  grammar :=
    { name := "sharing"
      rules := [("s", .seq [.literal "a", .literal "a", .renamed (.literal "a") "s" true])] }
  analysis :=
    { start := 0, nullable := [false], lexical := [false], reachable := [true], warnings := [] }

/-- A literal in three places has one number, and its kinds have one each. -/
theorem compile_interns_sharing : ∃ p kindNumber formNumber,
    compile {} sharing.grammar = .ok (p, []) ∧
      p.Interns sharing [] kindNumber formNumber := by
  have hanalysis : sharing.grammar.analyze none = .ok sharing.analysis := rfl
  have hforms : sharing.neededForms [] = [.literal "a", .literal "a", .literal "a"] := rfl
  have hbuild : ∀ form ∈ sharing.neededForms [], ∃ x, form.terminal = .ok x := by
    intro form hform
    rw [hforms] at hform
    have hliteral : form = .literal "a" := by simpa using hform
    exact ⟨.literal "a", by rw [hliteral]; rfl⟩
  exact (compile_interns (c := {}) hanalysis hbuild).2 (by decide)

end Compiler

end Packrat
