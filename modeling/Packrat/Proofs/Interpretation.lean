import Packrat.Proofs.Acceptance
import Packrat.Proofs.Program.Computed
import Packrat.Proofs.Program.Reading

/-!
# Compiled programs mean what their grammars say

What a program of a grammar derives without recovery is what the expressions of the grammar match,
with the kinds of trees read in the table of the program. So a parse of one round comes to the tree
that the grammar gives to the text.
-/

namespace Packrat

variable {g : Grammar} {start : Nat} {p : Program}

/-- Roles that have names mean nothing. -/
theorem Grammar.Interprets.of_unwrapped {text : Text} {r : Rule} {q : Nat} {m : Option Matched}
    (h : g.Interprets start text (.expression r.unwrapped) q m) :
    g.Interprets start text (.expression r) q m := by
  fun_induction Rule.unwrapped r with
  | case1 _ _ ih => exact .field (ih h)
  | case2 => exact h

/-- What an expression means it means without its wrappers. -/
theorem Grammar.Interprets.unwrapped {text : Text} {r : Rule} {q : Nat} {m : Option Matched}
    (h : g.Interprets start text (.expression r) q m) :
    g.Interprets start text (.expression r.unwrapped) q m := by
  fun_induction Rule.unwrapped r with
  | case1 _ _ ih =>
    cases h with
    | terminal leaf => cases leaf with | own single => cases single
    | reference refers => cases refers
    | field content => exact ih content
  | case2 => exact h

/-- What a program derives is what the grammar matches. -/
theorem Derives.interpreted (h : p.Implements g start) {text : Text} {allowed : MemoKey → Prop}
    {task : Task} {q : Nat} {a : Answer} (hderives : Derives p text allowed task q a)
    {part : Part} (hstands : Stands g start p part task) :
    ∃ m, g.Interprets start text part q m ∧ Option.Rel p.Reads a.taken m := by
  induction hderives generalizing part with
  | blank =>
    obtain ⟨hlowers⟩ := hstands
    have hblank : _ = Rule.blank := hlowers.standsFor h
    exact ⟨some { stop := _ }, .of_unwrapped (by rw [hblank]; exact .blank), .some ⟨rfl, rfl⟩⟩
  | @token terminal kind immediate q =>
    obtain ⟨hlowers⟩ := hstands
    obtain ⟨source, kind, htaken, hleaf⟩ := hlowers.standsFor h
    obtain ⟨m, htakes, hreads⟩ := h.token_takes hleaf text q
    exact ⟨m, .of_unwrapped (.terminal htaken htakes), hreads⟩
  | call _ ih =>
    obtain ⟨hlowers⟩ := hstands
    have hcall := hlowers.standsFor h
    obtain ⟨kind, hrefers, -⟩ := id hcall
    obtain ⟨m, hbody, hreads⟩ := ih (.rule hrefers.inner.1 hrefers.inner.2)
    obtain ⟨kind, hrefers, hreads'⟩ := h.called_reads (c := p.plain text) rfl hcall hreads
    exact ⟨_, .of_unwrapped (.reference hrefers hbody), hreads'⟩
  | members _ ih =>
    obtain ⟨hlowers⟩ := hstands
    obtain ⟨rs, hrs, hmembers⟩ := hlowers.standsFor h
    obtain ⟨m, hseq, hreads⟩ := ih (.seq hmembers)
    exact ⟨m, .of_unwrapped (by rw [hrs]; exact .members hseq), hreads⟩
  | alternatives _ ih =>
    obtain ⟨hlowers⟩ := hstands
    obtain ⟨rs, hrs, hmembers⟩ := hlowers.standsFor h
    obtain ⟨m, hchoice, hreads⟩ := ih (.choice hmembers)
    exact ⟨m, .of_unwrapped (by rw [hrs]; exact .alternatives hchoice), hreads⟩
  | repetition _ ih =>
    obtain ⟨hlowers⟩ := hstands
    obtain ⟨content, hcontent, hlowers'⟩ := hlowers.standsFor h
    obtain ⟨m, hiterations, hreads⟩ := ih (.iterations hlowers')
    exact ⟨m, .of_unwrapped (by rw [hcontent]; exact .repetition hiterations), hreads⟩
  | @wrap body kind q a _ ih =>
    obtain ⟨hlowers⟩ := hstands
    obtain ⟨content, name, named, hr, hsymbol, hcompound, hlowers', hkind⟩ := hlowers.standsFor h
    obtain ⟨m, hcontent, hreads⟩ := ih (.step hlowers')
    refine ⟨_, .of_unwrapped (by rw [hr]; exact .renamed hsymbol hcompound hcontent), ?_⟩
    exact h.wrapped_reads (c := p.plain text) rfl hkind hreads
  | rule _ _ ih =>
    cases hstands with
    | rule hi hinner => exact ih (.step (h.body _ hi hinner))
  | seqNil =>
    cases hstands with
    | seq members =>
      cases members
      exact ⟨_, .seqNil, .some ⟨rfl, rfl⟩⟩
  | seqTook _ _ ihhead ihtail =>
    cases hstands with
    | seq members =>
      cases members with
      | cons head tail =>
        obtain ⟨m, hhead, hread⟩ := ihhead (.step head)
        obtain ⟨rest, htail, hreads⟩ := ihtail (.seq tail)
        cases hread with
        | some ht => exact ⟨_, .seqTook hhead (ht.1 ▸ htail), ht.behind hreads⟩
  | seqFailed _ ih =>
    cases hstands with
    | seq members =>
      cases members with
      | cons head tail =>
        obtain ⟨m, hhead, hread⟩ := ih (.step head)
        cases hread
        exact ⟨_, .seqFailed hhead, .none⟩
  | choiceNil =>
    cases hstands with
    | choice members =>
      cases members
      exact ⟨_, .choiceNil, .none⟩
  | choiceTook _ ih =>
    cases hstands with
    | choice members =>
      cases members with
      | cons head tail =>
        obtain ⟨m, hhead, hread⟩ := ih (.step head)
        cases hread with
        | some ht => exact ⟨_, .choiceTook hhead, .some ht⟩
  | choiceNext _ _ ihhead ihtail =>
    cases hstands with
    | choice members =>
      cases members with
      | cons head tail =>
        obtain ⟨m, hhead, hread⟩ := ihhead (.step head)
        obtain ⟨rest, htail, hreads⟩ := ihtail (.choice tail)
        cases hread
        exact ⟨_, .choiceNext hhead htail, hreads⟩
  | enough full =>
    cases hstands with
    | iterations => exact ⟨_, .enough full, Program.Reads.endRepetition ..⟩
  | idleIteration room _ still ih =>
    cases hstands with
    | iterations content =>
      obtain ⟨m, hhead, hread⟩ := ih (.step content)
      cases hread with
      | some ht =>
        exact ⟨_, .idleIteration room hhead (ht.1 ▸ still), Program.Reads.endRepetition ..⟩
  | nextIteration room _ moved _ ihhead ihtail =>
    cases hstands with
    | iterations content =>
      obtain ⟨m, hhead, hread⟩ := ihhead (.step content)
      obtain ⟨rest, htail, hreads⟩ := ihtail (.iterations content)
      cases hread with
      | some ht =>
        exact ⟨_, .nextIteration room hhead (ht.1 ▸ moved) (ht.1 ▸ htail), ht.behind hreads⟩
  | lastIteration room _ ih =>
    cases hstands with
    | iterations content =>
      obtain ⟨m, hhead, hread⟩ := ih (.step content)
      cases hread
      exact ⟨_, .lastIteration room hhead, Program.Reads.endRepetition ..⟩

/-- What the start rule takes in the first round of a parse, in which nothing is recovered from. -/
def Program.strictly (p : Program) (o : ParseOptions) (text : Text) : Option Taken :=
  (runRule (evaluate o.recursionLimit) (roundSetting p o text []) p.start 0
    ((o.startState {} false).record (.round 1 []))).1.taken

section

variable {c : Setting}

/-- An error over some text reads as one in the grammar. -/
theorem Program.Implements.errorNode_named (h : p.Implements g start) (q stop : Nat) :
    p.named? (c.errorNode q stop) =
      some (.node .error (if q < stop then [.leaf .skipped (c.text.slice q stop)] else [])) := by
  refine named?_node h.error ?_
  split
  · exact namedAll?_singleton (named?_leaf h.skipped _)
  · rfl

/-- What the start rule takes, the trivia behind it and an error over the rest are the tree of the
grammar. -/
theorem Program.Implements.exists_parsesTo (h : p.Implements g start) (hc : c.program = p)
    {a : Answer} {m : Option Matched} (s : State)
    (hm : g.Interprets start c.text (.expression (g.body start)) 0 m)
    (hreads : Option.Rel p.Reads a.taken m)
    (hcovers : ∀ t, a.taken = some t → (c.trivia t.stop).stop ≤ c.text.size) :
    ∃ tree, g.ParsesTo start c.text tree ∧
      p.named? (.node p.startRule.kind (takenInFull c ⟨a.taken.map fun t => t.andThen
        { stop := (c.trivia t.stop).stop, trees := (c.trivia t.stop).leaves }, a.notes⟩
        s).1.trees) = some tree := by
  have hroot : p.kinds[p.startRule.kind]? = some (g.kindOf start start) := by
    rw [Program.startRule, h.start_eq]
    exact h.kind start h.checked.start_lt
  rcases a with ⟨taken, notes⟩
  cases hreads with
  | none =>
    refine ⟨_, .failed hm, named?_node hroot ?_⟩
    simp only [takenInFull, Option.map_none, Option.isNone_none, Bool.true_or, if_true,
      Option.getD_none, Taken.andThen, Setting.takenError, List.nil_append]
    rw [namedAll?_singleton (h.errorNode_named 0 c.text.size)]
    by_cases hempty : c.text.size = 0
    · simp [hempty]
    · simp [hempty, Nat.pos_of_ne_zero hempty]
  | @some t m ht =>
    obtain ⟨rest, hskips, hrest⟩ := h.trivia_skips hc m.stop
    have hle := hcovers t rfl
    rw [← ht.1] at hrest hskips
    have htrees := namedAll?_append ht.2 hrest.2
    have hstop : (c.trivia t.stop).stop = rest.stop := hrest.1
    rw [ht.1] at hskips
    by_cases hmore : rest.stop < c.text.size
    · refine ⟨_, .partly hm hskips hmore, named?_node hroot ?_⟩
      simp only [takenInFull, Option.map_some, Option.getD_some, Taken.andThen, hstop, hmore,
        decide_true, Bool.or_true, if_true, Setting.takenError]
      refine namedAll?_append htrees (namedAll?_singleton ?_)
      rw [h.errorNode_named, if_pos hmore]
    · have hfull : rest.stop = c.text.size := by omega
      refine ⟨_, .matched hm hskips hfull, named?_node hroot ?_⟩
      simpa [takenInFull, Taken.andThen, hstop, hmore] using htrees

end

/-- A parse of one round that goes on to its end comes to what the grammar matches. -/
theorem Program.Implements.exists_matched (h : p.Implements g start) {o : ParseOptions}
    (hone : o.maxRounds = some 1) {text : String} (hlive : (p.parse o text).halted = none) :
    ∃ m tree, g.Interprets start (.ofString text) (.expression (g.body start)) 0 m ∧
      g.ParsesTo start (.ofString text) tree ∧
      Option.Rel p.Reads (p.strictly o (.ofString text)) m ∧
      p.named? (p.parse o text).tree = some tree := by
  obtain ⟨a, points, s, hrounds, hparse⟩ := p.exists_rounds o {} false (.ofString text)
  obtain ⟨hcovers, -⟩ := hrounds.fits
    ⟨by simp [Results.Fit, ParseOptions.startState], by simp [ParseOptions.startState]⟩
  rw [Program.parse, hparse] at hlive ⊢
  simp only at hlive ⊢
  cases hrounds with
  | next round more rest => simp [nextPoint?, hone] at more
  | last round final =>
    obtain ⟨a₀, hrun, rfl⟩ := runRound_eq.mp round
    have hderives := derives_of_startRule hrun hlive rfl
    obtain ⟨m, hm, hreads⟩ := hderives.interpreted h
      (by rw [h.start_eq]; exact .rule h.checked.start_lt (by simp [Grammar.isLexical]))
    have hle : ∀ t, a₀.taken = some t →
        ((roundSetting p o (.ofString text) []).trivia t.stop).stop ≤
          (Text.ofString text).size := by
      intro t ht
      exact Text.le_size_of_isBoundary
        (Tree.TilesAll.isBoundary (Text.isBoundary_zero _) _ (hcovers _ (by rw [ht]; rfl)))
    obtain ⟨tree, htree, hnamed⟩ := h.exists_parsesTo
      (c := roundSetting p o (.ofString text) []) rfl s hm hreads hle
    have hstrictly : p.strictly o (.ofString text) = a₀.taken := by
      rw [run_iff, runJob_rule_eq] at hrun
      exact congrArg (fun r => r.1.taken) hrun
    exact ⟨m, tree, hm, htree, hstrictly ▸ hreads, hnamed⟩

/-- A program means what its grammar says. In a parse of one round that goes on to its end the
start rule takes what its expression matches at the start of the text, or fails where that fails,
and the tree is the one that the grammar gives to the text. -/
theorem Program.CompiledFrom.interprets_iff (h : p.CompiledFrom g start) {o : ParseOptions}
    (hone : o.maxRounds = some 1) {text : String} (hlive : (p.parse o text).halted = none) :
    ∃ m tree, Option.Rel p.Reads (p.strictly o (.ofString text)) m ∧
      p.named? (p.parse o text).tree = some tree ∧
      (∀ m', g.Interprets start (.ofString text) (.expression (g.body start)) 0 m' ↔ m' = m) ∧
      ∀ tree', g.ParsesTo start (.ofString text) tree' ↔ tree' = tree := by
  obtain ⟨m, tree, hm, htree, hreads, hnamed⟩ := h.implements.exists_matched hone hlive
  refine ⟨m, tree, hreads, hnamed, fun m' => ⟨fun hm' => hm'.unique hm, ?_⟩,
    fun tree' => ⟨fun htree' => htree'.unique htree, ?_⟩⟩
  · rintro rfl
    exact hm
  · rintro rfl
    exact htree

/-- A text with trivia in front: the grammar gives it one meaning and one tree, those of the
parse. -/
theorem Program.CompiledFrom.interprets_iff_hoisting :
    (Program.hoisting.parse { maxRounds := some 1, memoize := false } "#yxc").halted = none ∧
    ∃ m tree,
      Option.Rel Program.hoisting.Reads
        (Program.hoisting.strictly { maxRounds := some 1, memoize := false } (.ofString "#yxc")) m ∧
      Program.hoisting.named?
        (Program.hoisting.parse { maxRounds := some 1, memoize := false } "#yxc").tree =
          some tree ∧
      (∀ m', Grammar.hoisting.Interprets 0 (.ofString "#yxc")
        (.expression (Grammar.hoisting.body 0)) 0 m' ↔ m' = m) ∧
      ∀ tree', Grammar.hoisting.ParsesTo 0 (.ofString "#yxc") tree' ↔ tree' = tree := by
  have hlive :
      (Program.hoisting.parse { maxRounds := some 1, memoize := false } "#yxc").halted = none := by
    decide +kernel
  exact ⟨hlive, Program.hoisting_compiledFrom.interprets_iff rfl hlive⟩

end Packrat
