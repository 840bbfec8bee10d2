import Packrat.Proofs.Acceptance
import Packrat.Proofs.ErrorNodes
import Packrat.Proofs.Parse.Spelling
import Packrat.Proofs.Program.Computed

/-!
# Clean trees are derivation trees

A tree without error nodes is a derivation tree of the grammar, read as a context-free one with
trivia before anything, after however many rounds it was found. Leaves of the kinds of extras that
the trees of a node begin with stand before the node.
-/

namespace Packrat

variable {g : Grammar} {start : Nat}

/-- Whether something that was taken without errors spells a match of the start rule with trivia
behind it. -/
def Taken.SpelledWhole (g : Grammar) (start : Nat) (p : Program) (text : Text) (t : Taken) : Prop :=
  t.errors = [] → ∃ ns q rest, p.namedAll? t.trees = some (ns ++ rest.trees) ∧
    g.Spells start text (g.isTrivia start · = true) (.expression (g.body start)) 0 q ns ∧
    Skips (g.trivia start) text q rest ∧ rest.stop = t.stop

/-- What is left of a table when results are dropped spells its rules. -/
theorem Memo.Spelled.settle {p : Program} {text : Text} {m : Memo}
    (h : m.Spelled g start p text) : m.settle.Spelled g start p text :=
  ⟨h.strict, by simp [Results.Spelled]⟩

/-- A round in a parse that goes on spells a match of the start rule, unless it makes errors. -/
theorem runRound_spelled {c : Setting} {depth : Nat} {s s' : State} {a : Answer}
    (h : runRound c depth s = (a, s')) (hlive : s'.halted = none)
    (hfits : s.memo.Fits c.text c.points) (himplements : c.program.Implements g start)
    (hmemo : s.memo.Spelled g start c.program c.text) :
    (∀ t, a.taken = some t → t.SpelledWhole g start c.program c.text) ∧
      s'.memo.Spelled g start c.program c.text := by
  obtain ⟨a₀, hrun, rfl⟩ := runRound_eq.mp h
  refine (hrun.spelled hlive c.text.isBoundary_zero hfits himplements hmemo).imp_left fun ha => ?_
  intro t ht herrors
  obtain ⟨u, hu, rfl⟩ := Option.map_eq_some_iff.mp ht
  have hinner : g.isLexical start start = false := by simp [Grammar.isLexical]
  rw [himplements.start_eq] at ha
  obtain ⟨ns, hns, hspells⟩ := ha _ rfl u hu (List.append_eq_nil_iff.mp herrors).1 _
    (.rule himplements.checked.start_lt hinner)
  obtain ⟨rest, hskips, hstop, hleaves⟩ := himplements.trivia_skips rfl u.stop
  exact ⟨ns, u.stop, rest, Program.namedAll?_append hns hleaves, hspells, hskips, hstop.symm⟩

section

variable {p : Program} {o : ParseOptions} {text : Text}

/-- Through all rounds, what is taken without errors spells the start rule. -/
theorem Rounds.spelled {left number : Nat} {points points' : List Nat} {s s' : State} {a : Answer}
    (h : Rounds p o text left number points s a points' s') (hlive : s'.halted = none)
    (himplements : p.Implements g start)
    (hfits : s.memo.Fits text (roundSetting p o text points).points)
    (hmemo : s.memo.Spelled g start p text) :
    ∀ t, a.taken = some t → t.SpelledWhole g start p text := by
  induction h with
  | last round final => exact (runRound_spelled round hlive hfits himplements hmemo).1
  | next round more rest ih =>
    obtain ⟨-, hfits'⟩ := runRound_fits round hfits
    obtain ⟨-, -, hlive', -⟩ := of_nextPoint? more
    exact ih hlive (hfits'.settle _)
      (runRound_spelled round hlive' hfits himplements hmemo).2.settle

end

/-- A parse that goes on to its end and makes no error node makes a derivation tree, except that
leaves of the kinds of extras may stand before a node instead of in it. -/
theorem Program.CompiledFrom.derivationTree {p : Program} (h : p.CompiledFrom g start)
    {o : ParseOptions} {text : String} (hlive : (p.parse o text).halted = none)
    (hclean : (p.parse o text).tree.spansOf errorKind 0 = []) :
    ∃ tree, p.named? (p.parse o text).tree = some tree ∧
      g.DerivationTree start (.ofString text) (g.isTrivia start · = true) tree := by
  have himplements := h.implements
  have hfaithful : (p.parse o text).Faithful :=
    (Program.parseWith_faithful himplements.reserves (by simp [Results.Fit])
      (by simp [Results.Reported])).1
  have herrors : (p.parse o text).errors = [] := by
    rw [hfaithful.spans] at hclean
    exact List.map_eq_nil_iff.mp hclean
  obtain ⟨a, points, s, hrounds, hparse⟩ := p.exists_rounds o {} false (.ofString text)
  have hfits : (o.startState {} false).memo.Fits (.ofString text)
      (roundSetting p o (.ofString text) []).points :=
    ⟨by simp [Results.Fit, ParseOptions.startState], by simp [ParseOptions.startState]⟩
  obtain ⟨hcovers, -⟩ := hrounds.fits hfits
  rw [Program.parse, hparse] at hlive herrors ⊢
  simp only [mergeSort_eq_nil] at hlive herrors ⊢
  obtain ⟨t, ht, hstop, herrors'⟩ := of_takenInFull_errors herrors
  rw [takenInFull_of_complete ht hstop]
  have hspelled := hrounds.spelled hlive himplements hfits
    ⟨by simp [Results.Spelled, ParseOptions.startState],
      by simp [Results.Spelled, ParseOptions.startState]⟩
  obtain ⟨ns, q, rest, hns, hspells, hskips, hend⟩ := hspelled t ht herrors'
  have hle := Text.le_size_of_isBoundary
    (Tree.TilesAll.isBoundary (Text.isBoundary_zero _) _ (hcovers t ht))
  have hroot : p.kinds[p.startRule.kind]? = some (g.kindOf start start) := by
    rw [Program.startRule, himplements.start_eq]
    exact himplements.kind start himplements.checked.start_lt
  refine ⟨_, Program.named?_node hroot hns, ns, q, rest, hspells, hskips, ?_, rfl⟩
  rw [hend]
  exact Nat.le_antisymm hle hstop

/-- A leaf of the kind of an extra at the front of a node stands before the node in the tree. -/
theorem Program.parse_hoisting : (hoisting.parse { memoize := false } "yxc").halted = none ∧
    (hoisting.parse { memoize := false } "yxc").tree =
      .node 2 [.leaf 4 "y", .node 3 [.leaf 6 "x"], .leaf 5 "c"] := by
  decide +kernel

/-- The tree of this text is a derivation tree with the leaf before its node. -/
theorem Program.CompiledFrom.derivationTree_hoisting :
    ∃ tree, Program.hoisting.named? (Program.hoisting.parse { memoize := false } "yxc").tree =
      some tree ∧ Grammar.hoisting.DerivationTree 0 (.ofString "yxc")
        (Grammar.hoisting.isTrivia 0 · = true) tree :=
  Program.hoisting_compiledFrom.derivationTree Program.parse_hoisting.1
    (by rw [Program.parse_hoisting.2]; decide)

/-- No extra matches in the text. -/
theorem Grammar.hoisting_skips {q : Nat} {m : Matched}
    (h : Skips (hoisting.trivia 0) (.ofString "yxc") q m) : m.trees = [] := by
  have hnone : extraAt? (hoisting.trivia 0) (.ofString "yxc") q = none := by
    by_cases hq : (Text.ofString "yxc").isBoundary q = true
    · have hle : q ≤ 3 := Text.le_size_of_isBoundary hq
      obtain rfl | rfl | rfl | rfl : q = 0 ∨ q = 1 ∨ q = 2 ∨ q = 3 := by omega
      all_goals decide
    · simp [extraAt?, Terminal.scanAt, Text.spot?_of_not_isBoundary hq]
  cases h with
  | done => rfl
  | next first => simp [hnone] at first

/-- What the start rule spells begins with the node of the other rule, if no leaves may stand
before it. -/
theorem Grammar.hoisting_spells {part : Part} {p q : Nat} {ts : List NamedTree}
    (h : hoisting.Spells 0 (.ofString "yxc") (fun _ => False) part p q ts)
    (hpart : part = .expression (.symbol "a") ∨ part = .sequence [.symbol "a", .literal "c"] ∨
      part = .expression (hoisting.body 0)) :
    ∃ kind inside rest, ts = .node kind inside :: rest := by
  induction h with
  | trivia skips _ ih =>
    rw [hoisting_skips skips]
    exact ih hpart
  | terminal leaf =>
    rcases hpart with hpart | hpart | hpart <;> cases hpart
    · cases leaf with
      | own single => cases single
      | lexical number lexical =>
        cases number
        cases lexical
    · cases leaf with | own single => cases single
  | spliced refers =>
    rcases hpart with hpart | hpart | hpart <;> cases hpart
    · cases refers with | hidden _ _ hidden => cases hidden
    · cases refers
  | @node _ _ kind _ _ before inside _ _ ahead =>
    cases before with
    | nil => exact ⟨kind, inside, [], rfl⟩
    | cons t _ => exact absurd (ahead t List.mem_cons_self) id
  | seqCons _ _ ih =>
    rcases hpart with hpart | hpart | hpart <;> cases hpart
    obtain ⟨kind, inside, rest, rfl⟩ := ih (.inl rfl)
    exact ⟨kind, inside, _, rfl⟩
  | members _ ih =>
    rcases hpart with hpart | hpart | hpart <;> cases hpart
    exact ih (.inr (.inl rfl))
  | _ => rcases hpart with hpart | hpart | hpart <;> cases hpart

/-- A parse may make no error node and no derivation tree: where the leaf of a token has the kind
of an extra, it stands before the node of its rule, which lacks it then. -/
theorem Program.not_derivationTree_hoisting :
    Program.hoisting.CompiledFrom .hoisting 0 ∧
      (Program.hoisting.parse { memoize := false } "yxc").halted = none ∧
      (Program.hoisting.parse { memoize := false } "yxc").tree.spansOf errorKind 0 = [] ∧
      ∀ tree, Program.hoisting.named? (Program.hoisting.parse { memoize := false } "yxc").tree =
        some tree →
          ¬ Grammar.hoisting.DerivationTree 0 (.ofString "yxc") (fun _ => False) tree := by
  obtain ⟨hlive, htree⟩ := Program.parse_hoisting
  refine ⟨Program.hoisting_compiledFrom, hlive, by rw [htree]; decide, fun tree hnamed => ?_⟩
  rintro ⟨ts, q, rest, hspells, -, -, rfl⟩
  obtain ⟨kind, inside, others, rfl⟩ := Grammar.hoisting_spells hspells (.inr (.inr rfl))
  rw [htree] at hnamed
  cases hnamed

end Packrat
