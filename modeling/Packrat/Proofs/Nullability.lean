import Packrat.Proofs.Grammar.Token
import Packrat.Proofs.Parse.Reached
import Packrat.Proofs.Program.Computed
import Packrat.Proofs.Strict.Idle

/-!
# What is judged to match something takes something

An expression that is not judged to match nothing becomes an operation that takes something whenever
it succeeds without recovery, wherever it stands in a rule and in whatever state of a parse it runs.
This needs that every pattern is judged rightly, and that the content of every token is read part by
part. It is not always: a choice among nothing, which matches no text, becomes a group around
nothing, which matches the empty one, and a comment at the end of a pattern may take the parenthesis
behind it.
-/

namespace Packrat

namespace Rule

mutual

/-- The expressions in an expression, which is the first one. The content of tokens is left out. -/
def parts : Rule → List Rule
  | seq members => seq members :: partsAmong members
  | choice members => choice members :: partsAmong members
  | repetition content min max => repetition content min max :: content.parts
  | renamed content name named => renamed content name named :: content.parts
  | field name content => field name content :: content.parts
  | r => [r]

/-- The same for a list. -/
def partsAmong : List Rule → List Rule
  | [] => []
  | r :: rs => r.parts ++ partsAmong rs

end

mutual

/-- The single terminals in a part are in the whole. -/
theorem leaves_subset_of_mem_parts : (r : Rule) → ∀ part ∈ r.parts, part.leaves ⊆ r.leaves
  | seq members => List.forall_mem_cons.mpr
    ⟨List.Subset.refl _, leaves_subset_of_mem_partsAmong members⟩
  | choice members => List.forall_mem_cons.mpr
    ⟨List.Subset.refl _, leaves_subset_of_mem_partsAmong members⟩
  | repetition content _ _ => List.forall_mem_cons.mpr
    ⟨List.Subset.refl _, leaves_subset_of_mem_parts content⟩
  | renamed content _ _ => List.forall_mem_cons.mpr
    ⟨List.Subset.refl _, leaves_subset_of_mem_parts content⟩
  | field _ content => List.forall_mem_cons.mpr
    ⟨List.Subset.refl _, leaves_subset_of_mem_parts content⟩
  | blank => by simp [parts]
  | literal _ => by simp [parts]
  | pattern _ _ => by simp [parts]
  | symbol _ => by simp [parts]
  | token _ _ => by simp [parts]

/-- The same for a list. -/
theorem leaves_subset_of_mem_partsAmong : (rs : List Rule) →
    ∀ part ∈ partsAmong rs, part.leaves ⊆ leavesAmong rs
  | [] => nofun
  | r :: rs => List.forall_mem_append.mpr
    ⟨fun part h => List.subset_append_of_subset_left _ (r.leaves_subset_of_mem_parts part h),
      fun part h => List.subset_append_of_subset_right _
        (leaves_subset_of_mem_partsAmong rs part h)⟩

end

/-- The terminals in a part are judged well if all in the expression are. -/
theorem JudgesEmpty.of_mem_parts {r part : Rule} (h : r.JudgesEmpty) (hpart : part ∈ r.parts) :
    part.JudgesEmpty :=
  fun leaf hleaf => h leaf (r.leaves_subset_of_mem_parts part hpart hleaf)

end Rule

namespace Grammar

/-- Whether every pattern in the rules is judged to match nothing if it does anywhere. -/
def JudgesPatterns (g : Grammar) : Prop :=
  ∀ rule ∈ g.rules, ∀ x ∈ rule.2.patterns, Pattern.JudgesEmpty x.1 x.2

/-- Whether the content of every token in the rules is read part by part, or is a literal or a
pattern and has no parts. -/
def HasSoundTokens (g : Grammar) : Prop :=
  ∀ rule ∈ g.rules, ∀ leaf ∈ rule.2.leaves, leaf.isSound = true

/-- Where patterns are judged rightly and tokens are read part by part, all terminals are judged
well. -/
theorem Checked.judgesEmpty {g : Grammar} {start : Nat} (h : g.Checked start)
    (hpatterns : g.JudgesPatterns) (htokens : g.HasSoundTokens) : g.JudgesEmpty := by
  intro rule hrule
  obtain ⟨i, hi, rfl⟩ := List.getElem_of_mem hrule
  have hflaw := h.flawless i hi
  rw [body_eq hi] at hflaw
  exact Rule.judgesEmpty_of_isSound hflaw (htokens _ hrule) (hpatterns _ hrule)

end Grammar

section

variable {grammar : Grammar} {start : Nat} {g : Program} {r : Rule} {step : Step}

/-- Whether an operation is one that an expression becomes: the one that stands for it, or that of a
single terminal under whatever name it has where it stands. -/
def Program.Realizes (g : Program) (grammar : Grammar) (start : Nat) (r : Rule)
    (step : Step) : Prop :=
  Lowers grammar start g r step ∨ r.isTerminal = true ∧ ∃ kind, g.TakesLeaf r kind step

/-- The body of a rule is realized by its operation. -/
theorem Program.Implements.realizes (h : g.Implements grammar start) {i : Nat}
    (hi : i < grammar.rules.length) :
    g.Realizes grammar start (grammar.body i) (g.rule i).body := by
  cases hlexical : grammar.isLexical start i with
  | true => exact .inr ⟨Grammar.isTerminal_of_isLexical hlexical, _, h.leaf i hi hlexical⟩
  | false => exact .inl (h.body i hi hlexical)

/-- An operation that may take nothing is one of an expression that is judged so. -/
theorem Program.Realizes.isNullable (h : g.Realizes grammar start r step)
    (hgrammar : grammar.JudgesEmpty) (hr : r.JudgesEmpty)
    (hidles : g.Idles false (grammar.IdleRule false) step) :
    r.isNullable (grammar.nullableRule grammar.nullability) = true := by
  rcases h with hlowers | ⟨hterminal, kind, hleaf⟩
  · simpa [Grammar.judgement] using hlowers.isNullable hgrammar hr hidles
  · have hempty : (r.endingEarly false).isNullable
        (grammar.nullableRule grammar.nullability) = true := hleaf.isNullable hterminal hr hidles
    rwa [Rule.endingEarly_false] at hempty

/-- Nullability is sound. In every state of a parse and at every boundary, an operation that an
expression in a rule becomes takes something if it succeeds without recovery in a parse that goes
on, unless the expression is judged to match nothing. -/
theorem Reached.takes_something {c : Setting} {depth p : Nat} {s s' : State} {a : Answer}
    {t : Taken} (hs : Reached (Program.CompiledFrom grammar start) g c.text c.points s)
    (hg : g.CompiledFrom grammar start) (hpatterns : grammar.JudgesPatterns)
    (htokens : grammar.HasSoundTokens) {rule : String × Rule} (hrule : rule ∈ grammar.rules)
    (hr : r ∈ rule.2.parts) (hstep : g.Realizes grammar start r step)
    (hjudged : r.isNullable (grammar.nullableRule grammar.nullability) = false)
    (hc : c.program = g) (hstrict : c.recovering = false) (hp : c.text.isBoundary p = true)
    (heval : evaluate depth c step p s = (a, s')) (hlive : s'.halted = none)
    (ht : a.taken = some t) : p < t.stop := by
  subst hc
  have himplements := hg.implements
  have hgrammar := himplements.checked.judgesEmpty hpatterns htokens
  have hcheck := himplements.checked.leftRecursion
  rw [← grammar.endingEarly_false] at hcheck
  obtain ⟨_, hlayers⟩ := hgrammar.exists_layering_judged hcheck
  obtain ⟨layers, -, hidle⟩ := hlayers start c.program himplements
  have hrun := run_iff.mpr (runJob_step_eq.mpr heval)
  have hready : (Job.step step).Ready c p := hp
  have hvalid := (hs.sound hg (hrun.live hlive)).valid
  have hmemo := hvalid.idles layers hs.fits.strict
  have hmode : c.recovering = true → false = true := fun h => hstrict.symm.trans h
  refine Nat.lt_of_le_of_ne ((hrun.fits hready hs.fits).1.le ht) fun hstill => ?_
  have hidles := (hrun.idles layers hmode hready hs.fits hmemo).1 hlive t ht hstill.symm
  rw [hidle] at hidles
  have hnullable := hstep.isNullable hgrammar ((hgrammar rule hrule).of_mem_parts hr) hidles
  rw [hjudged] at hnullable
  cases hnullable

end

/-- A grammar with a token that is made of a pattern and a literal. -/
def Grammar.compound : Grammar where
  name := "compound"
  rules := [("s", .token (.seq [.pattern "a+" none, .literal "b"]) false)]

/-- What its analysis tells. -/
def Analysis.compound : Analysis where
  start := 0
  nullable := [false]
  lexical := [false]
  reachable := [true]
  warnings := []

/-- The pattern that its token becomes. -/
def Pattern.compound : Pattern where
  source := "(?:(?:a+))(?:b)"
  regex := .seq (.rep (.chars (.singleton 'a')) 1 none) (.chars (.singleton 'b'))

/-- The program of this grammar. -/
def Program.compound : Program where
  name := "compound"
  kinds := #[.error, .skipped, ⟨"s", true, .node⟩, ⟨"/(?:(?:a+))(?:b)/", true, .token⟩]
  rules := #[⟨"s", 2, .token 0 3 false, false, false, false⟩]
  terminals := #[.pattern .compound]
  extras := []
  sync := []
  start := 0
  fingerprint := Analysed.fingerprint ⟨.compound, .compound⟩

/-- The program is compiled from the grammar with the compound token. -/
theorem Program.compound_compiledFrom : compound.CompiledFrom .compound 0 :=
  compiledFrom_of_contents .compound
    { kinds := [.error, .skipped, ⟨"s", true, .node⟩, ⟨"/(?:(?:a+))(?:b)/", true, .token⟩]
      forms := [.pattern "(?:(?:a+))(?:b)" none]
      terminals := [.pattern .compound] } rfl rfl rfl

/-- The token of this grammar, on a text that it matches. -/
theorem Reached.takes_something_compound :
    ∃ t notes s', evaluate 1 (Program.compound.plain (.ofString "aab")) (.token 0 3 false) 0
      ⟨{}, none, none, none, none⟩ = (⟨some t, notes⟩, s') ∧ 0 < t.stop := by
  have hpatterns : Grammar.compound.JudgesPatterns := by
    intro rule hrule x hx
    obtain rfl := List.mem_singleton.mp hrule
    obtain rfl := List.mem_singleton.mp hx
    have hparse : Pattern.parse "a+" none = .ok (.rep (.chars (.singleton 'a')) 1 none) := rfl
    exact Pattern.judgesEmpty_of_minLength (n := 1) hparse rfl
  have htokens : Grammar.compound.HasSoundTokens := by
    unfold Grammar.HasSoundTokens
    decide +kernel
  have hrealizes : Program.compound.Realizes Grammar.compound 0
      (.token (.seq [.pattern "a+" none, .literal "b"]) false) (.token 0 3 false) :=
    Program.compound_compiledFrom.implements.realizes (i := 0) (by decide)
  have heval : evaluate 1 (Program.compound.plain (.ofString "aab")) (.token 0 3 false) 0
      ⟨{}, none, none, none, none⟩ =
        (⟨some { stop := 3, trees := [.leaf 3 "aab"] }, ⟨none, none, 4⟩⟩,
          ⟨{}, none, none, none, none⟩) := rfl
  exact ⟨_, _, _, heval, Reached.takes_something (.fresh _ _ _ _) Program.compound_compiledFrom
    hpatterns htokens List.mem_cons_self List.mem_cons_self hrealizes (by decide +kernel) rfl rfl
    (by decide) heval rfl rfl⟩

/-- A token that is made of a choice among nothing is not judged to match nothing, but the pattern
that it becomes matches the empty text. -/
example : (Rule.token (.choice []) false).isNullable (fun _ => false) = false ∧
    ∃ t, (Rule.token (.choice []) false).terminal? = some t ∧
      (t.scanAt (.ofString "") 0).length = some 0 :=
  ⟨rfl, _, rfl, rfl⟩

end Packrat
