import Packrat.Proofs.Program.Compiled

/-!
# Programs computed with lists

The tables of a program hold hash maps, which do not compute in proofs. `Contents` is what stands in
them, in order, and entering something, the numbers of kinds and terminals and the program itself
can be computed from it. So that some program is compiled from a grammar is a matter of computation.
-/

namespace Packrat

/-- What stands in tables, in order. -/
structure Contents where
  kinds : List Kind := []
  forms : List TerminalForm := []
  terminals : List Terminal := []

namespace Contents

/-- Enters what is mentioned. -/
def enter (l : Contents) : Mention → Option Contents
  | .kind kind =>
    if kind ∈ l.kinds then some l
    else if l.kinds.length < kindLimit then some { l with kinds := l.kinds ++ [kind] }
    else none
  | .terminal use =>
    if use.form ∈ l.forms then some l
    else use.form.terminal.toOption.map fun terminal =>
      { l with forms := l.forms ++ [use.form], terminals := l.terminals ++ [terminal] }

/-- The number of a kind. -/
def kindNumber (l : Contents) (kind : Kind) : Nat := (l.kinds.idxOf? kind).getD 0

/-- The number of a terminal. -/
def terminalNumber (l : Contents) (use : TerminalUse) : Nat := (l.forms.idxOf? use.form).getD 0

/-- The program of an analysed grammar over these contents. -/
def program (l : Contents) (a : Analysed) (sync : List String) : Program where
  name := a.grammar.name
  kinds := l.kinds.toArray
  rules := (a.sketches.zipIdx.map fun sketch => {
    name := a.grammar.ruleName sketch.2
    kind := l.kindNumber (a.ruleKind sketch.2)
    body := sketch.1.map l.terminalNumber l.kindNumber
    nullable := a.analysis.nullable[sketch.2]?.getD false
    hidden := a.grammar.isHidden (a.grammar.ruleName sketch.2)
    lexical := a.isLexical sketch.2 : ProgramRule }).toArray
  terminals := l.terminals.toArray
  extras := (a.grammar.extras.filterMap a.extra?).map fun e =>
    (l.terminalNumber e.1, l.kindNumber e.2)
  sync := sync.map fun name => l.terminalNumber (a.syncUse name)
  start := a.analysis.start
  fingerprint := a.fingerprint

end Contents

namespace Numbering

variable {α : Type} [BEq α] [LawfulBEq α] [Hashable α] {n : Numbering α} {l : List α}

/-- The number of an item is its place in the list of all. -/
theorem number?_eq_idxOf? (h : n.items = l.toArray) (a : α) : n.number? a = l.idxOf? a := by
  have hplace : ∀ i, n.number? a = some i ↔ l[i]? = some a := by
    intro i
    rw [number?_eq_some, h, List.getElem?_toArray]
  cases hl : l.idxOf? a with
  | none =>
    rw [Option.eq_none_iff_forall_ne_some]
    intro i hi
    exact List.idxOf?_eq_none_iff.mp hl (List.mem_of_getElem? ((hplace i).mp hi))
  | some i =>
    obtain ⟨hi, ha, -⟩ := List.findIdx?_eq_some_iff_getElem.mp hl
    exact (hplace i).mpr (by simpa [List.getElem?_eq_getElem hi] using ha)

end Numbering

namespace Tables.Holds

variable {t : Tables} {l l' : Contents}

/-- Entering computes with lists. -/
theorem enter (h : t.Holds l.kinds l.forms l.terminals) {m : Mention} (hm : l.enter m = some l') :
    ∃ t', t.enter m = .ok t' ∧ t'.Holds l'.kinds l'.forms l'.terminals := by
  cases m with
  | kind kind =>
    simp only [Contents.enter] at hm
    split at hm
    · rename_i hknown
      cases hm
      have hsome : (t.kinds.number? kind).isSome = true := by
        rw [Numbering.number?_eq_idxOf? h.kinds, List.isSome_idxOf?]
        exact hknown
      exact ⟨t, by simp only [Tables.enter, hsome, if_true], h⟩
    · rename_i hnew
      split at hm
      · rename_i hroom
        cases hm
        exact h.enter_kind kind hnew hroom
      · cases hm
  | terminal use =>
    simp only [Contents.enter] at hm
    split at hm
    · rename_i hknown
      cases hm
      have hsome : (t.forms.number? use.form).isSome = true := by
        rw [Numbering.number?_eq_idxOf? h.forms, List.isSome_idxOf?]
        exact hknown
      exact ⟨t, by simp only [Tables.enter, hsome, if_true], h⟩
    · rename_i hnew
      cases hterminal : use.form.terminal with
      | error problem => simp [hterminal, Except.toOption] at hm
      | ok terminal =>
        simp only [hterminal, Except.toOption, Option.map_some, Option.some.injEq] at hm
        subst hm
        have hnone : t.forms.number? use.form = none := by
          rw [Numbering.number?_eq_idxOf? h.forms, List.idxOf?_eq_none_iff]
          exact hnew
        refine ⟨{ t with
          forms := t.forms.add use.form
          terminals := t.terminals.push terminal }, ?_, h.kinds, ?_, ?_⟩
        · simp only [Tables.enter, hnone, Option.isSome_none, Bool.false_eq_true, if_false,
            hterminal]
        · simp only [Numbering.items_add hnone, h.forms, List.push_toArray]
        · simp only [h.terminals, List.push_toArray]

/-- What is entered into the contents one by one is entered into the tables. -/
theorem foldlM_enter {ms : List Mention} (h : t.Holds l.kinds l.forms l.terminals)
    (hms : ms.foldlM Contents.enter l = some l') :
    ∃ t', ms.foldlM Tables.enter t = .ok t' ∧ t'.Holds l'.kinds l'.forms l'.terminals := by
  induction ms generalizing t l with
  | nil =>
    cases hms
    exact ⟨t, rfl, h⟩
  | cons m ms ih =>
    rw [List.foldlM_cons] at hms
    obtain ⟨l₁, hl₁, hrest⟩ := Option.bind_eq_some_iff.mp hms
    obtain ⟨t₁, ht₁, hholds⟩ := h.enter hl₁
    obtain ⟨t', ht', hholds'⟩ := ih hholds hrest
    refine ⟨t', ?_, hholds'⟩
    rw [List.foldlM_cons, ht₁]
    exact ht'

end Tables.Holds

/-- The program of an analysed grammar is the one over the contents that come of entering all that
is mentioned. -/
theorem Analysed.program_eq {a : Analysed} {sync : List String} {l : Contents}
    (h : (a.mentions a.sketches sync).foldlM Contents.enter {} = some l) :
    a.program sync = .ok (l.program a sync) := by
  obtain ⟨t, ht, hholds⟩ := Tables.holds_empty.foldlM_enter (l := {}) h
  have hkind : t.kindNumber = l.kindNumber := by
    funext kind
    rw [Tables.kindNumber, Numbering.number?_eq_idxOf? hholds.kinds, Contents.kindNumber]
  have hterminal : t.terminalNumber = l.terminalNumber := by
    funext use
    rw [Tables.terminalNumber, Numbering.number?_eq_idxOf? hholds.forms, Contents.terminalNumber]
  unfold program
  rw [show (List.range a.grammar.rules.length).map a.ruleSketch = a.sketches from rfl]
  simp only [ht, bind, Except.bind, pure, Except.pure, hkind, hterminal, hholds.kinds,
    hholds.terminals]
  unfold programRule Contents.program
  rw [hkind, hterminal]

/-- A grammar compiles to the program over the contents that come of entering all that is
mentioned. -/
theorem Program.compiledFrom_of_contents {g : Grammar} {p : Program} (analysis : Analysis)
    (l : Contents) (hanalysis : g.analyze none = .ok analysis)
    (h : (Analysed.mentions ⟨g, analysis⟩ (Analysed.sketches ⟨g, analysis⟩) []).foldlM
      Contents.enter {} = some l) (hp : l.program ⟨g, analysis⟩ [] = p) :
    p.CompiledFrom g analysis.start := by
  refine ⟨{}, analysis.warnings, ?_, by rw [← hp]; rfl⟩
  have hprogram := Analysed.program_eq h
  rw [hp] at hprogram
  simp only [Compiler.compile, hanalysis, bind, Except.bind]
  rw [hprogram]
  rfl

/-- A grammar in which the leaf of a token has the kind of an extra, because of another name. -/
def Grammar.hoisting : Grammar where
  name := "hoisting"
  rules := [("s", .seq [.symbol "a", .literal "c"]),
    ("a", .seq [.renamed (.literal "y") "k" true, .literal "x"]), ("k", .literal "#")]
  extras := [.symbol "k"]

/-- What its analysis tells. -/
def Analysis.hoisting : Analysis where
  start := 0
  nullable := [false, false, false]
  lexical := [false, false, true]
  reachable := [true, true, true]
  warnings := []

/-- The program of this grammar. -/
def Program.hoisting : Program where
  name := "hoisting"
  kinds := #[.error, .skipped, ⟨"s", true, .node⟩, ⟨"a", true, .node⟩, ⟨"k", true, .token⟩,
    ⟨"c", false, .token⟩, ⟨"x", false, .token⟩]
  rules := #[⟨"s", 2, .seq [.call 1 none, .token 0 5 false], false, false, false⟩,
    ⟨"a", 3, .seq [.token 1 4 false, .token 2 6 false], false, false, false⟩,
    ⟨"k", 4, .token 3 4 false, false, false, true⟩]
  terminals := #[.literal "c", .literal "y", .literal "x", .literal "#"]
  extras := [(3, 4)]
  sync := []
  start := 0
  fingerprint := Analysed.fingerprint ⟨.hoisting, .hoisting⟩

/-- The program is compiled from the grammar in which a leaf has the kind of an extra. -/
theorem Program.hoisting_compiledFrom : hoisting.CompiledFrom .hoisting 0 :=
  compiledFrom_of_contents .hoisting
    { kinds := [.error, .skipped, ⟨"s", true, .node⟩, ⟨"a", true, .node⟩, ⟨"k", true, .token⟩,
        ⟨"c", false, .token⟩, ⟨"x", false, .token⟩]
      forms := [.literal "c", .literal "y", .literal "x", .literal "#"]
      terminals := [.literal "c", .literal "y", .literal "x", .literal "#"] } rfl rfl rfl

/-- A grammar for any number of items, each of them a letter under another name. -/
def Grammar.items : Grammar where
  name := "items"
  rules := [("items", .repetition (.symbol "item") 0 none),
    ("item", .renamed (.literal "a") "x" false)]

/-- What its analysis tells. -/
def Analysis.items : Analysis where
  start := 0
  nullable := [true, false]
  lexical := [false, false]
  reachable := [true, true]
  warnings := []

/-- The program of this grammar. -/
def Program.items : Program where
  name := "items"
  kinds := #[.error, .skipped, ⟨"items", true, .node⟩, ⟨"item", true, .node⟩, ⟨"x", false, .token⟩]
  rules := #[⟨"items", 2, .repetition (.call 1 none) 0 none, true, false, false⟩,
    ⟨"item", 3, .token 0 4 false, false, false, false⟩]
  terminals := #[.literal "a"]
  extras := []
  sync := []
  start := 0
  fingerprint := Analysed.fingerprint ⟨.items, .items⟩

/-- The program of items is compiled from their grammar. -/
theorem Program.items_compiledFrom : items.CompiledFrom .items 0 :=
  compiledFrom_of_contents .items
    { kinds := [.error, .skipped, ⟨"items", true, .node⟩, ⟨"item", true, .node⟩,
        ⟨"x", false, .token⟩]
      forms := [.literal "a"]
      terminals := [.literal "a"] } rfl rfl rfl

/-- A grammar whose start rule tries another rule at one place again and again. -/
def Grammar.retrying : Grammar where
  name := "retrying"
  rules := [("s", .choice [.seq [.symbol "x", .literal "b"], .seq [.symbol "x", .literal "c"],
      .seq [.symbol "x", .literal "b"]]),
    ("x", .repetition (.literal "a") 0 none)]

/-- What its analysis tells. -/
def Analysis.retrying : Analysis where
  start := 0
  nullable := [false, true]
  lexical := [false, false]
  reachable := [true, true]
  warnings := []

/-- The program of this grammar. -/
def Program.retrying : Program where
  name := "retrying"
  kinds := #[.error, .skipped, ⟨"s", true, .node⟩, ⟨"x", true, .node⟩, ⟨"b", false, .token⟩,
    ⟨"c", false, .token⟩, ⟨"a", false, .token⟩]
  rules := #[⟨"s", 2, .choice [.seq [.call 1 none, .token 0 4 false],
      .seq [.call 1 none, .token 1 5 false], .seq [.call 1 none, .token 0 4 false]],
      false, false, false⟩,
    ⟨"x", 3, .repetition (.token 2 6 false) 0 none, true, false, false⟩]
  terminals := #[.literal "b", .literal "c", .literal "a"]
  extras := []
  sync := []
  start := 0
  fingerprint := Analysed.fingerprint ⟨.retrying, .retrying⟩

/-- The program that tries a rule twice is compiled from its grammar. -/
theorem Program.retrying_compiledFrom : retrying.CompiledFrom .retrying 0 :=
  compiledFrom_of_contents .retrying
    { kinds := [.error, .skipped, ⟨"s", true, .node⟩, ⟨"x", true, .node⟩, ⟨"b", false, .token⟩,
        ⟨"c", false, .token⟩, ⟨"a", false, .token⟩]
      forms := [.literal "b", .literal "c", .literal "a"]
      terminals := [.literal "b", .literal "c", .literal "a"] } rfl rfl rfl

end Packrat
