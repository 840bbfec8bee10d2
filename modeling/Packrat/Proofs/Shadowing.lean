import Packrat.Proofs.Grammar.Unfailing
import Packrat.Proofs.Interpretation
import Packrat.Proofs.Parse.Reached

/-!
# Alternatives that an earlier one wins over

The analysis tells of an alternative that an earlier one always wins over: a literal before a
literal that starts with it, or an expression that can match nothing. A literal does win: where it
fails, no literal matches that starts with it. What can match nothing wins if it never fails, which
is more than the analysis asks of it.
-/

namespace Packrat

section

variable {f : String → Bool} {members : List Rule} {k j : Nat}

/-- What is told of two alternatives is why the earlier one is taken to win. -/
theorem of_mem_shadowed (h : (k, j) ∈ shadowed f members) : ∃ member earlier,
    members[k]? = some member ∧ members[j]? = some earlier ∧ j < k ∧
      (earlier.isNullable f = true ∨ ∃ word start, member.literal? = some word ∧
        earlier.literal? = some start ∧ startsWith word start = true) := by
  obtain ⟨⟨member, place⟩, hmember, hwinner⟩ := List.mem_filterMap.mp h
  obtain ⟨winner, hwins, hpair⟩ := Option.map_eq_some_iff.mp hwinner
  obtain ⟨rfl, rfl⟩ : k = place ∧ j = winner := by simpa [eq_comm] using hpair
  have hk : members[k]? = some member := List.mk_mem_zipIdx_iff_getElem?.mp hmember
  clear hwinner hpair
  refine ⟨member, ?_⟩
  unfold winner? at hwins
  split at hwins
  · cases hwins
  · split at hwins
    · rename_i i hfirst
      cases hwins
      obtain ⟨hfirst, hlt⟩ := Option.filter_eq_some_iff.mp hfirst
      obtain ⟨hj, hnullable, -⟩ := List.findIdx?_eq_some_iff_getElem.mp hfirst
      exact ⟨members[j], hk, List.getElem?_eq_getElem hj, by simpa using hlt, .inl hnullable⟩
    · obtain ⟨word, hword, hprefix⟩ := Option.bind_eq_some_iff.mp hwins
      obtain ⟨hj, hstart, -⟩ := List.findIdx?_eq_some_iff_getElem.mp hprefix
      rw [List.length_take] at hj
      rw [List.getElem_take] at hstart
      split at hstart
      · rename_i start hliteral
        exact ⟨members[j], hk, List.getElem?_eq_getElem (by omega), by omega,
          .inr ⟨word, start, hword, hliteral, hstart⟩⟩
      · cases hstart

end

/-- A literal matches no less than one that starts with it. -/
theorem literalScan_isSome_of_prefix {start word rest : List Char} {offset : Nat}
    (h : start <+: word) (hword : (literalScan word rest offset).length.isSome = true) :
    (literalScan start rest offset).length.isSome = true := by
  induction start generalizing word rest offset with
  | nil => rfl
  | cons c start ih =>
    obtain ⟨tail, rfl⟩ := h
    cases rest with
    | nil => cases hword
    | cons d rest =>
      rw [List.cons_append, literalScan] at hword
      rw [literalScan]
      split at hword
      · rename_i hcd
        rw [if_pos hcd]
        exact ih (List.prefix_append start tail) hword
      · cases hword

/-- Where a literal matches, so does one that it starts with. -/
theorem Terminal.scanAt_isSome_of_startsWith {word start : String} {text : Text} {p : Nat}
    (h : startsWith word start = true)
    (hword : ((literal word).scanAt text p).length.isSome = true) :
    ((literal start).scanAt text p).length.isSome = true := by
  unfold scanAt at hword ⊢
  split at hword
  · exact literalScan_isSome_of_prefix (List.isPrefixOf_iff_prefix.mp h) hword
  · cases hword

namespace Grammar

variable {g : Grammar} {start : Nat} {text : Text} {p : Nat} {m m' : Option Matched}
  {r r' : Rule}

/-- A literal is tried behind what is skipped. -/
theorem Interprets.exists_tried {word : String}
    (h : g.Interprets start text (.expression r) p m) (hr : r.literal? = some word) :
    ∃ before, Skips (g.trivia start) text p before ∧
      m.isSome = ((Terminal.literal word).scanAt text before.stop).length.isSome := by
  have hliteral : r.unwrapped = .literal word := by
    unfold Rule.literal? at hr
    split at hr
    · rename_i hunwrapped
      cases hr
      exact hunwrapped
    · cases hr
  have hinner := h.unwrapped
  rw [hliteral] at hinner
  cases hinner with
  | reference refers => cases refers
  | terminal leaf takes =>
    cases leaf
    obtain ⟨t, before, ht, hbefore, rfl⟩ := takes
    cases ht
    exact ⟨before, hbefore, Option.isSome_map⟩

/-- Where a literal matches, another one does that it starts with. -/
theorem Interprets.isSome_of_startsWith {word start' : String}
    (h : g.Interprets start text (.expression r) p m)
    (h' : g.Interprets start text (.expression r') p m') (hr : r.literal? = some word)
    (hr' : r'.literal? = some start') (hstart : startsWith word start' = true)
    (hm : m.isSome = true) : m'.isSome = true := by
  obtain ⟨before, hskips, heq⟩ := h.exists_tried hr
  obtain ⟨before', hskips', heq'⟩ := h'.exists_tried hr'
  cases hskips.unique hskips'
  rw [heq] at hm
  rw [heq']
  exact Terminal.scanAt_isSome_of_startsWith hstart hm

end Grammar

/-- `Commits run c steps k p s s'` says that of some alternatives the ones before number `k` fail at
a position, one after another, and the one of that number succeeds. -/
inductive Commits (run : Evaluator) (c : Setting) :
    List Step → (number position : Nat) → (before after : State) → Prop
  | here {step rest p s t notes s'} (head : run c step p s = (⟨some t, notes⟩, s')) :
      Commits run c (step :: rest) 0 p s s'
  | later {step rest k p s notes s₁ s'} (head : run c step p s = (⟨none, notes⟩, s₁))
      (tail : Commits run c rest k p (s₁.record (.backtrack p)) s') :
      Commits run c (step :: rest) (k + 1) p s s'

/-- A choice succeeds if and only if it commits to one of its alternatives. -/
theorem runChoice_isSome_iff {run : Evaluator} {c : Setting} {steps : List Step} {p : Nat}
    {s : State} : (runChoice run c steps p s).1.taken.isSome = true ↔
      ∃ k, Commits run c steps k p s (runChoice run c steps p s).2 := by
  induction steps generalizing s with
  | nil =>
    constructor
    · intro h
      cases h
    · rintro ⟨_, ⟨⟩⟩
  | cons step rest ih =>
    rw [runChoice]
    rcases hhead : run c step p s with ⟨⟨_ | t, notes⟩, s₁⟩
    · refine Iff.trans ih ?_
      constructor
      · rintro ⟨k, hk⟩
        exact ⟨k + 1, .later hhead hk⟩
      · rintro ⟨k, hk⟩
        cases hk with
        | here head => cases hhead.symm.trans head
        | later head tail =>
          cases hhead.symm.trans head
          exact ⟨_, tail⟩
    · exact iff_of_true rfl ⟨0, .here hhead⟩

section

variable {grammar : Grammar} {start : Nat} {g : Program} {c : Setting} {depth p k : Nat}
  {s s' : State}

/-- An operation without recovery comes to what its expression matches. -/
theorem Reached.step_interpreted {r : Rule} {step : Step} {a : Answer}
    (hs : Reached (Program.CompiledFrom grammar start) g c.text c.points s)
    (hg : g.CompiledFrom grammar start) (hc : c.program = g) (hstrict : c.recovering = false)
    (hp : c.text.isBoundary p = true) (hstep : Lowers grammar start g r step)
    (heval : evaluate depth c step p s = (a, s')) (hlive : s'.halted = none) :
    ∃ m, grammar.Interprets start c.text (.expression r) p m ∧
      Option.Rel g.Reads a.taken m := by
  subst hc
  have hrun := run_iff.mpr (runJob_step_eq.mpr heval)
  have hready : (Job.step step).Ready c p := hp
  have hsound := hs.sound hg (hrun.live hlive)
  obtain ⟨hderives, -⟩ := (hrun.derived hready hs.fits hsound.valid).1 hlive _ rfl trivial
    (Setting.quiet_of_strict hstrict)
  exact hderives.interpreted hg.implements (.step hstep)

/-- A choice that commits in a parse that goes on was run in one. -/
theorem Commits.live {steps : List Step} (h : Commits (evaluate depth) c steps k p s s')
    (hlive : s'.halted = none) : s.halted = none := by
  induction h with
  | here head => exact (run_iff.mpr (runJob_step_eq.mpr head)).live hlive
  | later head _ ih => exact (run_iff.mpr (runJob_step_eq.mpr head)).live (ih hlive)

/-- Where a choice without recovery commits to an alternative, its expression matches and those of
the ones before fail. -/
theorem Commits.interpreted {members : List Rule} {steps : List Step}
    (h : Commits (evaluate depth) c steps k p s s')
    (hs : Reached (Program.CompiledFrom grammar start) g c.text c.points s)
    (hg : g.CompiledFrom grammar start) (hc : c.program = g) (hstrict : c.recovering = false)
    (hp : c.text.isBoundary p = true) (hsteps : LowersAll grammar start g members steps)
    (hlive : s'.halted = none) :
    (∀ j < k, ∀ r, members[j]? = some r →
      grammar.Interprets start c.text (.expression r) p none) ∧
    ∀ r, members[k]? = some r →
      ∃ m, grammar.Interprets start c.text (.expression r) p (some m) := by
  induction h generalizing members with
  | here head =>
    cases hsteps with
    | cons hstep =>
      refine ⟨nofun, ?_⟩
      rintro r ⟨⟩
      obtain ⟨m, hm, hreads⟩ := hs.step_interpreted hg hc hstrict hp hstep head hlive
      cases hreads with
      | @some _ m => exact ⟨m, hm⟩
  | later head tail ih =>
    cases hsteps with
    | cons hstep hrest =>
      have hrun := run_iff.mpr (runJob_step_eq.mpr head)
      obtain ⟨_, hm, hreads⟩ := hs.step_interpreted hg hc hstrict hp hstep head (tail.live hlive)
      cases hreads
      obtain ⟨hbefore, hhere⟩ := ih ((hs.run hc rfl hrun hp).record _) hp hrest hlive
      refine ⟨fun j hj r hr => ?_, hhere⟩
      cases j with
      | zero =>
        cases hr
        exact hm
      | succ j => exact hbefore j (Nat.lt_of_succ_lt_succ hj) r hr

end

namespace Grammar

variable {grammar : Grammar} {name : Option String} {a : Analysis} {rule : String} {k j : Nat}

/-- Whether one alternative of a choice in the rule of a name is told to win over another one. -/
def Shadows (g : Grammar) (rule : String) (members : List Rule) (k j : Nat) : Prop :=
  ∃ body, (rule, body) ∈ g.rules ∧ members ∈ body.choices ∧
    (k, j) ∈ shadowed (g.nullableRule g.nullability) members

/-- What an analysis warns of is told of a choice in the rule. -/
theorem exists_shadows (h : grammar.analyze name = .ok a)
    (hwarning : .shadowedAlternative rule k j ∈ a.warnings) :
    ∃ members, grammar.Shadows rule members k j := by
  rw [(accepted_of_analyze h).analysis] at hwarning
  simp only [warnings, List.mem_append, List.mem_filterMap, List.mem_flatMap] at hwarning
  rcases hwarning with (⟨_, -, hother⟩ | ⟨_, -, hother⟩) | ⟨⟨_, body⟩, hrule, hshadow⟩
  · split at hother <;> cases hother
  · split at hother <;> cases hother
  · obtain ⟨members, hmembers, htold⟩ := List.mem_flatMap.mp hshadow
    obtain ⟨_, hpair, heq⟩ := List.mem_map.mp htold
    cases heq
    exact ⟨members, body, hrule, hmembers, hpair⟩

/-- Whether a choice with some alternatives commits to the one of a number in some evaluation of it:
without recovery, by any program of the grammar, at any position of any text, in any state of a
parse, as long as the parse is not stopped in it. -/
def CommitsTo (g : Grammar) (start : Nat) (members : List Rule) (k : Nat) : Prop :=
  ∃ (program : Program) (c : Setting) (steps : List Step) (depth p : Nat) (s s' : State),
    program.CompiledFrom g start ∧ Lowers g start program (.choice members) (.choice steps) ∧
      c.program = program ∧ c.recovering = false ∧ c.text.isBoundary p = true ∧
      Reached (Program.CompiledFrom g start) program c.text c.points s ∧
      Commits (evaluate depth) c steps k p s s' ∧ s'.halted = none

/-- Warnings of alternatives are sound where what wins does not fail. Each is told of some choice in
the rule, and no choice that it is told of ever commits to the alternative, if the one that wins
never fails or is told because it is a literal that the other one starts with. -/
theorem shadowing_sound (h : grammar.analyze name = .ok a)
    (hwarning : .shadowedAlternative rule k j ∈ a.warnings) :
    (∃ members, grammar.Shadows rule members k j) ∧
      ∀ members, grammar.Shadows rule members k j →
        (∀ r ∈ members[j]?, r.isNullable (grammar.nullableRule a.nullable) = true →
          grammar.Unfailing r) → ¬ grammar.CommitsTo a.start members k := by
  refine ⟨exists_shadows h hwarning, ?_⟩
  rintro members ⟨body, -, -, hshadowed⟩ hwinner
    ⟨program, c, steps, depth, p, s, s', hprogram, hsteps, hc, hstrict, hp, hs, hcommits, hlive⟩
  obtain ⟨member, earlier, hk, hj, hlt, hwins⟩ := of_mem_shadowed hshadowed
  have hmembers : LowersAll grammar a.start program members steps := by
    cases hsteps with
    | leaf single => cases single
    | choice members => exact members
  obtain ⟨hbefore, hhere⟩ := hcommits.interpreted hs hprogram hc hstrict hp hmembers hlive
  have hfails := hbefore j hlt earlier hj
  obtain ⟨m, htakes⟩ := hhere member hk
  rcases hwins with hnullable | ⟨word, start, hword, hstart, hprefix⟩
  · have hjudged : a.nullable = grammar.nullability := by rw [(accepted_of_analyze h).analysis]
    rw [← hjudged] at hnullable
    have hnever : grammar.UnfailingPart (.expression earlier) := hwinner earlier hj hnullable
    cases hfails.isSome hnever hp
  · cases htakes.isSome_of_startsWith hfails hword hstart hprefix rfl

/-- A letter, or what may be left out, or another letter. -/
def restful : Grammar where
  name := "restful"
  rules := [("s", .choice [
    .literal "a", .seq [.repetition (.literal "b") 0 none, .pattern "c*" none], .literal "d"])]

/-- What may be left out before a last alternative: the analysis tells of this alternative, and no
parse takes it. -/
theorem shadowing_sound_restful :
    restful.analyze none =
        .ok ⟨0, [true], [false], [true], [.shadowedAlternative "s" 2 1]⟩ ∧
      ¬ restful.CommitsTo 0 [.literal "a",
        .seq [.repetition (.literal "b") 0 none, .pattern "c*" none], .literal "d"] 2 := by
  have hanalysis : restful.analyze none =
      .ok ⟨0, [true], [false], [true], [.shadowedAlternative "s" 2 1]⟩ := by rfl
  have hpattern : restful.Unfailing (.pattern "c*" none) :=
    .terminal rfl rfl (Terminal.alwaysMatches_pattern rfl rfl)
  have hwinner : restful.Unfailing (.seq [.repetition (.literal "b") 0 none, .pattern "c*" none]) :=
    .seq (List.forall_mem_cons.mpr ⟨.repetition, List.forall_mem_singleton.mpr hpattern⟩)
  refine ⟨hanalysis, (shadowing_sound hanalysis List.mem_cons_self).2 _ ?_ ?_⟩
  · exact ⟨_, List.mem_cons_self, List.mem_cons_self, by decide⟩
  · rintro _ ⟨⟩ -
    exact hwinner

/-- A repetition of what can match nothing, which has to have an iteration, before a letter. -/
def hasty : Grammar where
  name := "hasty"
  rules := [("s", .choice [.repetition (.optional (.literal "a")) 1 none, .literal "b"])]

end Grammar

/-- What its analysis tells. -/
def Analysis.hasty : Analysis where
  start := 0
  nullable := [true]
  lexical := [false]
  reachable := [true]
  warnings := [.nullableRepetition "s", .shadowedAlternative "s" 1 0]

/-- The program of this grammar. -/
def Program.hasty : Program where
  name := "hasty"
  kinds := #[.error, .skipped, ⟨"s", true, .node⟩, ⟨"a", false, .token⟩, ⟨"b", false, .token⟩]
  rules := #[⟨"s", 2, .choice [.repetition (.choice [.token 0 3 false, .blank]) 1 none,
    .token 1 4 false], true, false, false⟩]
  terminals := #[.literal "a", .literal "b"]
  extras := []
  sync := []
  start := 0
  fingerprint := Analysed.fingerprint ⟨.hasty, .hasty⟩

/-- The program is compiled from the grammar with the hasty repetition. -/
theorem Program.hasty_compiledFrom : hasty.CompiledFrom .hasty 0 :=
  compiledFrom_of_contents .hasty
    { kinds := [.error, .skipped, ⟨"s", true, .node⟩, ⟨"a", false, .token⟩, ⟨"b", false, .token⟩]
      forms := [.literal "a", .literal "b"]
      terminals := [.literal "a", .literal "b"] } rfl rfl rfl

/-- A repetition that has to have an iteration fails where it would take nothing. So the alternative
behind it is taken, although it is told that the repetition always wins. -/
example : Grammar.hasty.analyze none = .ok .hasty ∧
    Grammar.hasty.CommitsTo 0
      [.repetition (Rule.optional (.literal "a")) 1 none, .literal "b"] 1 := by
  refine ⟨by rfl, .hasty, Program.hasty.plain (.ofString "b"),
    [.repetition (.choice [.token 0 3 false, .blank]) 1 none, .token 1 4 false], 8, 0,
    ⟨{}, none, none, none, none⟩, _, Program.hasty_compiledFrom, ?_, rfl, rfl, by decide,
    .fresh _ _ _ _, .later rfl (.here rfl), rfl⟩
  exact Program.hasty_compiledFrom.implements.body 0 (by decide) (by decide)

end Packrat
