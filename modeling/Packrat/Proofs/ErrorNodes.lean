import Packrat.Proofs.Lossless
import Packrat.Proofs.Parse.ErrorNodes
import Packrat.Proofs.Program.Lowered

/-!
# Errors and error nodes

A parse reports one error for every error node of its tree, in document order and with the range
of the node, however it ends and whatever the results are that it starts from. Programs that were
compiled leave the kinds of errors and of skipped text to the parser, as these come first in the
table and no kind has two numbers.
-/

namespace Packrat

section

variable {g : Grammar} {start : Nat} {p : Program}

/-- Kinds of leaves and nodes are ordinary. -/
theorem Program.Implements.ordinary (h : p.Implements g start) {number : Nat} {kind : Kind}
    (hkind : p.kinds[number]? = some kind) (hrole : kind.role = .node ∨ kind.role = .token) :
    Ordinary number := by
  constructor
  · rintro rfl
    cases h.error.symm.trans hkind
    simp [Kind.error] at hrole
  · rintro rfl
    cases h.skipped.symm.trans hkind
    simp [Kind.skipped] at hrole

/-- The kind of a rule is that of a node or of a token. -/
theorem Grammar.role_kindOf (g : Grammar) (start i : Nat) :
    (g.kindOf start i).role = .node ∨ (g.kindOf start i).role = .token := by
  simp only [kindOf]
  split
  · exact .inr rfl
  · exact .inl rfl

/-- The kind of a leaf is that of a token. -/
theorem Rule.role_leafKind {r : Rule} {kind : Kind} (h : r.leafKind? = some kind) :
    kind.role = .token := by
  obtain ⟨form, -, rfl⟩ := Option.map_eq_some_iff.mp h
  cases form <;> rfl

/-- A leaf of the grammar is no error and no skipped text. -/
theorem Program.Implements.spares_leaf (h : p.Implements g start) {r : Rule} {kind : Kind}
    {step : Step} (hleaf : p.TakesLeaf r kind step)
    (hrole : kind.role = .node ∨ kind.role = .token) : p.Spares step := by
  obtain ⟨terminal, number, rfl, -, hkind⟩ := hleaf
  exact h.ordinary hkind hrole

/-- The kind of a rule is neither that of errors nor that of skipped text. -/
theorem Program.Implements.ordinary_rule (h : p.Implements g start) {i : Nat}
    (hi : i < g.rules.length) : Ordinary (p.rule i).kind :=
  h.ordinary (h.kind i hi) (g.role_kindOf start i)

mutual

/-- What stands for an expression makes ordinary leaves and nodes. -/
theorem Lowers.spares (h : p.Implements g start) {r : Rule} {step : Step} :
    Lowers g start p r step → p.Spares step
  | .blank => trivial
  | .leaf _ own leaf => h.spares_leaf leaf (.inr (Rule.role_leafKind own))
  | .lexical _ _ leaf => h.spares_leaf leaf (g.role_kindOf start _)
  | .symbol number _ => h.ordinary_rule (Grammar.of_number? number).1
  | .seq members => members.spares h
  | .choice members => members.spares h
  | .repetition content => content.spares h
  | .field content => content.spares h
  | .renamedLexical _ _ _ leaf => h.spares_leaf leaf (.inr rfl)
  | .renamedSymbol _ _ _ kinds => h.ordinary kinds (.inl rfl)
  | .renamedLeaf _ leaf => h.spares_leaf leaf (.inr rfl)
  | .renamedNode _ _ content kinds => ⟨content.spares h, h.ordinary kinds (.inl rfl)⟩

/-- The operations that stand for some expressions make ordinary leaves and nodes only. -/
theorem LowersAll.spares (h : p.Implements g start) {rs : List Rule} {steps : List Step} :
    LowersAll g start p rs steps → p.SparesAll steps
  | .nil => trivial
  | .cons head tail => ⟨head.spares h, tail.spares h⟩

end

/-- Extras make ordinary leaves. -/
theorem Grammar.role_trivia {e : Terminal × Kind} (h : e ∈ g.trivia start) :
    e.2.role = .node ∨ e.2.role = .token := by
  obtain ⟨r, -, hr⟩ := List.mem_filterMap.mp h
  unfold Grammar.extra? at hr
  split at hr
  · simp only [bind, Option.bind_eq_some_iff, pure, Option.some.injEq] at hr
    obtain ⟨i, -, terminal, -, rfl⟩ := hr
    exact g.role_kindOf start i
  · simp only [bind, Option.bind_eq_some_iff, pure, Option.some.injEq] at hr
    obtain ⟨terminal, -, kind, hkind, rfl⟩ := hr
    exact .inr (Rule.role_leafKind hkind)

/-- A program that implements a grammar leaves the kinds of errors and of skipped text to the
parser. -/
theorem Program.Implements.reserves (h : p.Implements g start) : p.Reserves where
  bodies i := by
    by_cases hi : i < g.rules.length
    · cases hlexical : g.isLexical start i with
      | true => exact h.spares_leaf (h.leaf i hi hlexical) (g.role_kindOf start i)
      | false => exact (h.body i hi hlexical).spares h
    · rw [Program.rule, Array.getElem?_eq_none (by have := h.size; omega)]
      trivial
  extras extra hextra := by
    obtain ⟨i, hi, rfl⟩ := List.getElem_of_mem hextra
    have hi' : i < (g.trivia start).length := h.extras.length_eq ▸ hi
    exact h.ordinary (h.extras.get hi hi').2 (Grammar.role_trivia (List.getElem_mem hi'))
  start := by
    rw [Program.startRule, h.start_eq]
    exact h.ordinary_rule h.checked.start_lt

end

/-- A round takes an error for every error node. -/
theorem runRound_reported {c : Setting} {depth : Nat} {s s' : State} {a : Answer}
    (h : runRound c depth s = (a, s')) (hprogram : c.program.Reserves)
    (hfits : s.memo.Fits c.text c.points) (hmemo : s.memo.Reported) :
    a.Reported 0 ∧ s'.memo.Reported := by
  obtain ⟨a₀, hrun, rfl⟩ := runRound_eq.mp h
  have hzero : c.text.isBoundary 0 = true := c.text.isBoundary_zero
  obtain ⟨ha, hmemo'⟩ := hrun.reported hzero hfits hprogram trivial hmemo
  refine ⟨fun t ht => ?_, hmemo'⟩
  obtain ⟨t₀, ht₀, rfl⟩ := Option.map_eq_some_iff.mp ht
  exact (ha t₀ ht₀).andThen ((hrun.fits hzero hfits).1.tiles t₀ ht₀)
    (.of_sane (c.trivia_sane hprogram t₀.stop) rfl)

/-- What is left of a table when results are dropped reports its errors. -/
theorem Memo.Reported.settle {m : Memo} (h : m.Reported) : m.settle.Reported :=
  ⟨h.strict, by simp [Results.Reported]⟩

section

variable {p : Program} {o : ParseOptions} {text : Text}

/-- The rounds of a parse report an error for every error node, and so do the results that are
kept. -/
theorem Rounds.reported {left number : Nat} {points points' : List Nat} {s s' : State}
    {a : Answer} (h : Rounds p o text left number points s a points' s') (hprogram : p.Reserves)
    (hfits : s.memo.Fits text (roundSetting p o text points).points) (hmemo : s.memo.Reported) :
    a.Reported 0 ∧ s'.memo.strict.Reported := by
  induction h with
  | last round final =>
    exact (runRound_reported round hprogram hfits hmemo).imp_right Memo.Reported.strict
  | next round more rest ih =>
    obtain ⟨-, hfits'⟩ := runRound_fits round hfits
    exact ih (hfits'.settle _) (runRound_reported round hprogram hfits hmemo).2.settle

/-- What the last round leaves over comes with its error. -/
theorem takenInFull_reported {c : Setting} {a : Answer} (s : State)
    (htiles : ∀ t, a.taken = some t → Tree.TilesAll c.text t.trees 0 t.stop)
    (h : a.Reported 0) : (takenInFull c a s).1.Reported 0 := by
  have htaken : Tree.TilesAll c.text (a.taken.getD { stop := 0 }).trees 0
      (a.taken.getD { stop := 0 }).stop ∧ (a.taken.getD { stop := 0 }).Reported 0 := by
    cases htaken : a.taken with
    | none => exact ⟨Tree.tilesAll_nil _ _, .idle 0⟩
    | some t => exact ⟨htiles t htaken, h t htaken⟩
  have hstop := Tree.TilesAll.isBoundary c.text.isBoundary_zero _ htaken.1
  unfold takenInFull
  simp only
  split
  · exact htaken.2.andThen htaken.1 (c.takenError_reported _ (Text.le_size_of_isBoundary hstop)
      hstop c.text.isBoundary_size)
  · exact htaken.2

/-- What a parse reports about errors: one for every error node, in document order and with its
range, and without a stretch of text exactly where something is missing. -/
structure Parsed.Faithful (r : Parsed) : Prop where
  spans : r.tree.spansOf errorKind 0 = r.errors.map SyntaxError.span
  missing : ∀ e ∈ r.errors, e.isMissing = true ↔ e.start = e.stop
  marked : r.tree.Marked

/-- A parse has errors just when there is an error node in its tree. -/
theorem Parsed.Faithful.hasErrors_iff {r : Parsed} (h : r.Faithful) :
    r.hasErrors = true ↔ r.tree.spansOf errorKind 0 ≠ [] := by
  rw [h.spans, ne_eq, List.map_eq_nil_iff, hasErrors]
  simp

/-- A parse that starts from results with an error for every error node reports errors
faithfully, and leaves such results. -/
theorem Program.parseWith_faithful {known : Results} {traced : Bool} (hprogram : p.Reserves)
    (hfit : Results.Fit text known) (hknown : known.Reported) :
    (p.parseWith o known traced text).Faithful ∧
      (p.parseWith o known traced text).results.Reported := by
  obtain ⟨a, points, s, hrounds, heq⟩ := p.exists_rounds o known traced text
  have hfits : (o.startState known traced).memo.Fits text (roundSetting p o text []).points :=
    ⟨hfit, by simp [ParseOptions.startState]⟩
  obtain ⟨htiles, -⟩ := hrounds.fits hfits
  obtain ⟨hanswer, hresults⟩ := hrounds.reported hprogram hfits
    ⟨hknown, by simp [ParseOptions.startState, Results.Reported]⟩
  obtain ⟨hmarked, hspans, hapt⟩ :=
    takenInFull_reported (c := roundSetting p o text points) s htiles hanswer
  generalize (takenInFull (roundSetting p o text points) a s).1 = taken at hmarked hspans hapt heq
  have hspan : ∀ e ∈ taken.errors, e.span ∈ Tree.spansAmong errorKind 0 taken.trees := fun e he =>
    hspans ▸ List.mem_map_of_mem he
  -- errors come in the order of the nodes, so sorting them by their starts changes nothing
  have hsorted : taken.errors.Pairwise fun a b => decide (a.start ≤ b.start) = true := by
    have hpairs : (Tree.spansAmong errorKind 0 taken.trees).Pairwise fun a b => a.1 ≤ b.1 :=
      Tree.pairwise_spansAmong taken.trees
    rw [hspans, List.pairwise_map] at hpairs
    simpa [SyntaxError.span] using hpairs
  have herrors : (p.parseWith o known traced text).errors = taken.errors := by
    rw [heq]
    exact List.mergeSort_of_pairwise hsorted
  have htree : (p.parseWith o known traced text).tree = .node p.startRule.kind taken.trees := by
    rw [heq]
  refine ⟨⟨?_, fun e he => ?_, ?_⟩, ?_⟩
  · rw [htree, herrors, Tree.spansOf, if_neg hprogram.start.1, hspans]
  · rw [herrors] at he
    have hle := (Tree.start_mem_spansAmong taken.trees _ (hspan e he)).2.2
    exact (hapt e he).isMissing_iff hle
  · rw [htree, Tree.Marked, if_neg hprogram.start.1]
    exact hmarked
  · rw [heq]
    exact hresults

end

/-- Results that are carried over an edit have no errors, and no error nodes either. -/
theorem Results.Reported.carryOver {edit : Edit} {old : Text} {results : Results}
    (h : results.Reported) (hfit : Results.Fit old results) :
    (edit.carryOver results).Reported := by
  intro key entry hentry t ht
  obtain ⟨key₀, entry₀, hold, hcarry⟩ := Edit.of_getElem?_carryOver hentry
  rcases Edit.carry?_eq_some hcarry with ⟨-, rfl, rfl⟩ | ⟨-, rfl, rfl⟩
  · exact h _ _ hold t ht
  · obtain ⟨t₀, ht₀, rfl⟩ := Option.map_eq_some_iff.mp ht
    have herrors := ((hfit key₀ entry₀ hold).within t₀ ht₀).2
    exact .of_sane ((h key₀ entry₀ hold t₀ ht₀).sane herrors) (by simp [herrors])

namespace Produced

variable {r : Parsed} {text : String}

/-- Errors are reported faithfully, however the parse started. -/
theorem faithful (h : Produced Program.Reserves r text) : r.Faithful ∧ r.results.Reported := by
  induction h with
  | parse o hp =>
    exact Program.parseWith_faithful hp (by simp [Results.Fit]) (by simp [Results.Reported])
  | traced o hp =>
    exact Program.parseWith_faithful hp (by simp [Results.Fit]) (by simp [Results.Reported])
  | @reparse p o old new before after edit hp hold happly hsize hnew ih =>
    obtain ⟨text, htext, rfl⟩ := Program.reparse_eq_ok.mp hnew
    rw [text_eq_of_tiles hold.fits.1, happly] at htext
    cases htext
    split
    · exact Program.parseWith_faithful hp (hold.fits.2.carryOver happly hold.size_lt)
        (ih.2.carryOver hold.fits.2)
    · exact Program.parseWith_faithful hp (by simp [Results.Fit]) (by simp [Results.Reported])

/-- What is produced with some programs is produced with more of them. -/
theorem mono {among among' : Program → Prop} (hamong : ∀ p, among p → among' p)
    (h : Produced among r text) : Produced among' r text := by
  induction h with
  | parse o hp hsize => exact .parse o (hamong _ hp) hsize
  | traced o hp hsize => exact .traced o (hamong _ hp) hsize
  | reparse o hp hold happly hsize hnew ih => exact .reparse o (hamong _ hp) ih happly hsize hnew

/-- Whatever a compiled program makes of a text or of an edited one, within limits or not: the
errors are those of the error nodes, in document order and with their ranges, something is missing
exactly where such a range is empty, error nodes are empty or have skipped text as their only
child, which is nowhere else, and there are errors exactly if there are error nodes. -/
theorem errors_eq_errorNodes
    (h : Produced (fun p => ∃ g start, p.CompiledFrom g start) r text) :
    r.errors.map (fun e => (e.start, e.stop)) = r.tree.spansOf errorKind 0 ∧
      (∀ e ∈ r.errors, e.isMissing = true ↔ e.start = e.stop) ∧ r.tree.Marked ∧
      (r.hasErrors = true ↔ r.tree.spansOf errorKind 0 ≠ []) := by
  obtain ⟨hfaithful, -⟩ := faithful (h.mono fun p ⟨g, start, hp⟩ => hp.implements.reserves)
  exact ⟨hfaithful.spans.symm, hfaithful.missing, hfaithful.marked, hfaithful.hasErrors_iff⟩

/-- Parsing again when an item was put in between others, with an error behind them. -/
theorem errors_eq_errorNodes_items : ∃ r,
    Program.items.reparse {} Program.itemsBefore (.insertion 1 "a") = .ok r ∧
      r.errors.map (fun e => (e.start, e.stop)) = r.tree.spansOf errorKind 0 ∧
      (∀ e ∈ r.errors, e.isMissing = true ↔ e.start = e.stop) ∧ r.tree.Marked ∧
      (r.hasErrors = true ↔ r.tree.spansOf errorKind 0 ≠ []) ∧
      [.hit 1 0 (some 1), .hit 1 3 (some 4), .hit 1 4 none] ⊆
        (Program.items.parseWith {} Program.itemsKnown true (.ofString "aaaaé")).log := by
  have hcompiled : ∃ g start, Program.items.CompiledFrom g start :=
    ⟨_, _, Program.items_compiledFrom⟩
  have hold : Produced (fun p => ∃ g start, p.CompiledFrom g start) Program.itemsBefore "aaaé" :=
    .parse { maxRounds := some 1 } hcompiled (by decide)
  have happly : (Edit.insertion 1 "a").apply (Text.ofString "aaaé") = .ok "aaaaé" := rfl
  obtain ⟨r, hr⟩ : ∃ r,
      Program.items.reparse {} Program.itemsBefore (.insertion 1 "a") = .ok r :=
    ⟨_, Program.reparse_eq_ok.mpr ⟨"aaaaé", by rw [hold.text_eq, happly], rfl⟩⟩
  have hnew : Produced (fun p => ∃ g start, p.CompiledFrom g start) r "aaaaé" :=
    .reparse {} hcompiled hold happly (by decide) hr
  obtain ⟨hspans, hmissing, hmarked, hhas⟩ := hnew.errors_eq_errorNodes
  exact ⟨r, hr, hspans, hmissing, hmarked, hhas, Program.itemsKnown_hits⟩

end Produced

end Packrat
