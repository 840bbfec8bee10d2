import Packrat.Proofs.Grammar.Pruned
import Packrat.Proofs.Parse.Renumbered
import Packrat.Proofs.Program.Computed
import Packrat.Proofs.Program.Part
import Packrat.Proofs.Program.Reading

/-!
# Unreachable rules can be left out

What an analysis tells to be unreachable has no part in parses. The grammar compiles without it, and
its program is embedded in that of the whole grammar, so that parses by either go the same way: they
stop for the same reason, report the same errors and make the same tree of kinds, though the kinds
have other numbers.
-/

namespace Packrat

/-! ### Kinds of trees under other numbers -/

namespace Program

variable {p q : Program} {m : Renumbering} {f f' : Nat → Nat}

mutual

/-- A tree by an embedded program reads as it does under the other numbers. -/
theorem Embeds.named?_renumber (hq : q.Embeds p m) : (t : Tree) →
    p.named? (t.renumber m.kind) = q.named? t
  | .leaf _ _ => by
    simp only [Tree.renumber, named?, hq.kind]
  | .node _ children => by
    simp only [Tree.renumber, named?, hq.kind, hq.namedAll?_renumberAll children]

/-- Trees read the same in the program in which another one is embedded, under the numbers there. -/
theorem Embeds.namedAll?_renumberAll (hq : q.Embeds p m) : (ts : List Tree) →
    p.namedAll? (Tree.renumberAll m.kind ts) = q.namedAll? ts
  | [] => rfl
  | t :: ts => by
    simp only [Tree.renumberAll, namedAll?, hq.named?_renumber t, hq.namedAll?_renumberAll ts]

end

mutual

/-- If two ways to renumber kinds agree on those in the table alone, and make the same of a tree,
its kinds are in the table. -/
theorem exists_named? (hknown : ∀ k, f k = f' k → ∃ kind, q.kinds[k]? = some kind) : (t : Tree) →
    t.renumber f = t.renumber f' → ∃ n, q.named? t = some n
  | .leaf kind text, h => by
    obtain ⟨known, hkind⟩ := hknown kind (Tree.leaf.inj h).1
    exact ⟨_, named?_leaf hkind text⟩
  | .node kind children, h => by
    obtain ⟨hsame, hchildren⟩ := Tree.node.inj h
    obtain ⟨known, hkind⟩ := hknown kind hsame
    obtain ⟨ns, hns⟩ := exists_namedAll? hknown children hchildren
    exact ⟨_, named?_node hkind hns⟩

/-- Trees that come out the same under two renumberings have kinds where these agree on kinds
only. -/
theorem exists_namedAll? (hknown : ∀ k, f k = f' k → ∃ kind, q.kinds[k]? = some kind) :
    (ts : List Tree) → Tree.renumberAll f ts = Tree.renumberAll f' ts →
      ∃ ns, q.namedAll? ts = some ns
  | [], _ => ⟨[], rfl⟩
  | t :: ts, h => by
    obtain ⟨hfirst, hrest⟩ := List.cons.inj h
    obtain ⟨n, hn⟩ := exists_named? hknown t hfirst
    obtain ⟨ns, hns⟩ := exists_namedAll? hknown ts hrest
    exact ⟨n :: ns, namedAll?_cons_eq_some.mpr ⟨n, ns, hn, hns, rfl⟩⟩

end

end Program

/-- A parse by the program of a part goes as by that of the whole. -/
theorem Analysed.IsPartOf.parse_eq {a a' : Analysed} {place : Nat → Nat} {t t' : Tables}
    (hpart : a'.IsPartOf a place)
    (ht : (a.mentions a.sketches []).foldlM Tables.enter {} = .ok t)
    (ht' : (a'.mentions a'.sketches []).foldlM Tables.enter {} = .ok t') (o : ParseOptions)
    (text : String) :
    ((a'.programOver [] t').parse o text).halted = ((a.programOver [] t).parse o text).halted ∧
      ((a'.programOver [] t').parse o text).errors = ((a.programOver [] t).parse o text).errors ∧
      ∃ n, (a'.programOver [] t').named? ((a'.programOver [] t').parse o text).tree = some n ∧
        (a.programOver [] t).named? ((a.programOver [] t).parse o text).tree = some n := by
  obtain ⟨m, hm, hkind⟩ := hpart.exists_embeds ht ht' 0
  obtain ⟨m', hm', hkind'⟩ := hpart.exists_embeds ht ht' 1
  obtain ⟨htree, herrors, hhalted⟩ := hm.parse o text
  obtain ⟨htree', -, -⟩ := hm'.parse o text
  -- a kind that is not in the table would have another number each time
  have hknown : ∀ k, m.kind k = m'.kind k →
      ∃ kind, (a'.programOver [] t').kinds[k]? = some kind := by
    intro k hsame
    rw [hkind, hkind', kindPlace, kindPlace] at hsame
    cases hk : (a'.programOver [] t').kinds[k]? with
    | some kind => exact ⟨kind, rfl⟩
    | none =>
      simp only [hk] at hsame
      omega
  obtain ⟨n, hn⟩ := Program.exists_named? hknown _ (htree.symm.trans htree')
  exact ⟨hhalted.symm, herrors.symm, n, hn, by rw [htree, hm.named?_renumber, hn]⟩

/-- Rules that are told to be unreachable can be left out of a grammar that compiles. An analysis
tells a rule to be reachable if and only if the start rule or an extra leads to it. Without the
others the grammar compiles as well, and whatever the options and the text, its parse stops for the
same reason as before, has the same errors and the same tree of kinds. -/
theorem Grammar.compile_pruned {g : Grammar} {start : Option String} {p : Program}
    {warnings : List GrammarWarning}
    (h : ({ start } : Compiler).compile g = .ok (p, warnings)) :
    ∃ a, g.analyze start = .ok a ∧ (∀ i : Nat, a.reachable[i]? = some true ↔ g.IsNeeded start i) ∧
      ∃ q warnings', ({ start } : Compiler).compile (g.pruned a.reachable) = .ok (q, warnings') ∧
        ∀ o text, (q.parse o text).halted = (p.parse o text).halted ∧
          (q.parse o text).errors = (p.parse o text).errors ∧
          ∃ n, q.named? (q.parse o text).tree = some n ∧
            p.named? (p.parse o text).tree = some n := by
  obtain ⟨a, hanalyze, hrest⟩ := Except.of_bind_ok h
  obtain ⟨p', hprogram, hpair⟩ := Except.of_bind_ok hrest
  cases hpair
  obtain ⟨place, a', hgrammar, hanalyze', hstart⟩ := exists_analyze_pruned hanalyze
  have hpart : Analysed.IsPartOf ⟨g.pruned a.reachable, a'⟩ ⟨g, a⟩ place :=
    ⟨hgrammar, hstart, congrArg Analysis.lexical (accepted_of_analyze hanalyze).analysis,
      congrArg Analysis.lexical (accepted_of_analyze hanalyze').analysis⟩
  obtain ⟨t, t', ht, rfl, ht', hprogram'⟩ := hpart.exists_program hprogram
  refine ⟨a, hanalyze, fun i => reachable_iff hanalyze, _, a'.warnings, ?_, hpart.parse_eq ht ht'⟩
  simp only [Compiler.compile, hanalyze', hprogram', bind, Except.bind, pure, Except.pure]

/-- A grammar with a rule in front that nothing refers to, whose terminal and kinds are no other
rule's. -/
def Grammar.leftover : Grammar where
  name := "leftover"
  start := some "s"
  rules := [
    ("old", .seq [.literal "z", .symbol "s"]),
    ("s", .seq [.literal "a", .symbol "t"]),
    ("t", .choice [.seq [.literal "b", .symbol "t"], .blank]),
    ("space", .literal " ")]
  extras := [.symbol "space"]

/-- What its analysis tells. -/
def Analysis.leftover : Analysis where
  start := 1
  nullable := [false, false, true, false]
  lexical := [false, false, false, true]
  reachable := [false, true, true, true]
  warnings := [.unreachableRule "old"]

namespace Grammar

/-- The grammar compiles, and the rule that nothing refers to is told. -/
theorem compile_leftover : ∃ p, ({} : Compiler).compile .leftover =
    .ok (p, [.unreachableRule "old"]) := by
  have hanalyze : analyze .leftover none = .ok .leftover := rfl
  have hprogram : Analysed.program ⟨.leftover, .leftover⟩ [] = .ok _ := Analysed.program_eq
    (l := {
      kinds := [.error, .skipped, ⟨"old", true, .node⟩, ⟨"s", true, .node⟩, ⟨"t", true, .node⟩,
        ⟨"space", true, .token⟩, ⟨"z", false, .token⟩, ⟨"a", false, .token⟩,
        ⟨"b", false, .token⟩]
      forms := [.literal "z", .literal "a", .literal "b", .literal " "]
      terminals := [.literal "z", .literal "a", .literal "b", .literal " "] }) rfl
  simp only [Compiler.compile, hanalyze, hprogram, bind, Except.bind, pure, Except.pure]
  exact ⟨_, rfl⟩

/-- Without this rule the grammar compiles too, and parses go the same way. -/
theorem compile_pruned_leftover : ∃ p, ({} : Compiler).compile .leftover =
    .ok (p, [.unreachableRule "old"]) ∧
    ∃ a, leftover.analyze none = .ok a ∧
      (∀ i : Nat, a.reachable[i]? = some true ↔ leftover.IsNeeded none i) ∧
      ∃ q warnings', ({} : Compiler).compile (leftover.pruned a.reachable) = .ok (q, warnings') ∧
        ∀ o text, (q.parse o text).halted = (p.parse o text).halted ∧
          (q.parse o text).errors = (p.parse o text).errors ∧
          ∃ n, q.named? (q.parse o text).tree = some n ∧
            p.named? (p.parse o text).tree = some n := by
  obtain ⟨p, hp⟩ := compile_leftover
  exact ⟨p, hp, compile_pruned hp⟩

end Grammar

end Packrat
