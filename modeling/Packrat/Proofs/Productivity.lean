import Mathlib.Data.Finset.Card
import Mathlib.Data.List.Sublists
import Packrat.Proofs.Grammar.Productivity
import Packrat.Proofs.Graph.Component
import Packrat.Proofs.Guarded.Analysis

/-!
# Productive grammars

Of rules that need each other the analysis asks for one way out. That is not enough for all of
them to derive something: of two rules one may have a way out while the other needs itself. Every
rule of an accepted grammar derives a text if and only if any part of rules that need each other
has a way out of the part; the analysis looks at the whole of them only.
-/

namespace Packrat

namespace Graph

variable {g : Graph} {P : Nat → Prop} {v : Nat}

open Classical in
/-- Among some vertices that can be reached from one of them is one that all those lead back to
which can be reached from it. -/
theorem exists_led_back (hP : ∀ v, P v → v < g.size) (hv : P v) :
    ∃ u, P u ∧ g.Reaches v u ∧ ∀ w, P w → g.Reaches u w → g.Reaches w u := by
  let reached (u : Nat) : Finset Nat := (Finset.range g.size).filter (g.Reaches u)
  induction hn : (reached v).card using Nat.strongRecOn generalizing v with
  | ind n ih =>
    subst hn
    by_cases hall : ∀ w, P w → g.Reaches v w → g.Reaches w v
    · exact ⟨v, hv, .refl v, hall⟩
    · push Not at hall
      obtain ⟨w, hw, hvw, hwv⟩ := hall
      have hsubset : reached w ⊂ reached v := by
        refine Finset.ssubset_iff_subset_ne.mpr ⟨fun u hu => ?_, fun heq => hwv ?_⟩
        · obtain ⟨hu, hwu⟩ := Finset.mem_filter.mp hu
          exact Finset.mem_filter.mpr ⟨hu, hvw.trans hwu⟩
        · have hmem : v ∈ reached v :=
            Finset.mem_filter.mpr ⟨Finset.mem_range.mpr (hP v hv), .refl v⟩
          rw [← heq] at hmem
          exact (Finset.mem_filter.mp hmem).2
      obtain ⟨u, hu, hwu, hback⟩ := ih _ (Finset.card_lt_card hsubset) hw rfl
      exact ⟨u, hu, hvw.trans hwu, hback⟩

end Graph

namespace Grammar

variable {g : Grammar} {name : Option String} {a : Analysis} {i j : Nat}

/-- Whether all expressions of the rules are satisfiable. -/
def Satisfiable (g : Grammar) : Prop := ∀ rule ∈ g.rules, rule.2.Satisfiable

/-- Whether every proper part of rules that need each other has a way out. -/
def PartsEscape (g : Grammar) : Prop :=
  ∀ group ∈ g.referenceGraph.components, ∀ part ∈ group.sublists,
    part ≠ [] → part ≠ group → g.hasEscape part = true

instance (g : Grammar) : Decidable g.PartsEscape :=
  inferInstanceAs (Decidable (∀ group ∈ g.referenceGraph.components, ∀ part ∈ group.sublists,
    part ≠ [] → part ≠ group → g.hasEscape part = true))

/-- A reference in the body of a rule is an edge of the graph of references. -/
theorem adj_referenceGraph {target : String} (hi : i < g.rules.length)
    (href : target ∈ (g.body i).references) (hj : g.number? target = some j) :
    g.referenceGraph.Adj i j :=
  (adj_iff_of_references _).mpr ⟨hi, target, href, hj⟩

/-- A name is among some rules when its rule is. -/
theorem isAmong_eq_true {part : List Nat} {target : String} :
    g.isAmong part target = true ↔ ∃ i, g.number? target = some i ∧ i ∈ part := by
  unfold isAmong
  split <;> simp_all

/-- Some rules have no way out when none of their bodies has one. -/
theorem hasEscape_eq_false {part : List Nat} : g.hasEscape part = false ↔
    ∀ i ∈ part, (g.body i).escapes (g.isAmong part) = false := by
  simp [hasEscape]

/-- What an analysis has checked of rules that need each other. -/
theorem escape_of_analyze (h : g.analyze name = .ok a) :
    ∀ group ∈ g.referenceGraph.components,
      g.referenceGraph.isRecursive group = false ∨ g.hasEscape group = true := by
  intro group hgroup
  have hcomponent := Except.of_forM_ok (accepted_of_analyze h).escape group hgroup
  unfold checkComponent at hcomponent
  split at hcomponent
  · simp_all
  · cases hcomponent

/-- The terminals of a rule match something if all in the grammar do. -/
theorem Satisfiable.body (h : g.Satisfiable) (hi : i < g.rules.length) :
    (g.body i).Satisfiable := by
  rw [body_eq hi]
  exact h _ (List.getElem_mem hi)

/-- A rule on its own that does not refer to itself has a way out. -/
theorem Satisfiable.escapes_self (hs : g.Satisfiable) (hi : i < g.rules.length)
    (h : g.referenceGraph.isRecursive [i] = false) :
    (g.body i).escapes (g.isAmong [i]) = true := by
  refine (g.body i).escapes_of_references (hs.body hi) fun target href => ?_
  by_contra hinside
  rw [Bool.not_eq_false, isAmong_eq_true] at hinside
  obtain ⟨j, hj, hji⟩ := hinside
  obtain rfl := List.mem_singleton.mp hji
  have hadj := adj_referenceGraph hi href hj
  simp [Graph.isRecursive, Graph.Adj] at h hadj
  exact h hadj

/-- The rules that a part without a way out consists of are not derivable. -/
theorem not_derivable_of_hasEscape {part : List Nat} (h : g.hasEscape part = false)
    (hi : i ∈ part) : ¬ g.Derivable (g.body i) := by
  intro hderivable
  rw [hasEscape_eq_false] at h
  refine absurd (hderivable.escapes fun target j hinside hj => ?_) (by rw [h i hi]; decide)
  obtain ⟨k, hk, hpart⟩ := isAmong_eq_true.mp hinside
  obtain rfl := Option.some.inj (hj.symm.trans hk)
  exact h j hpart

/-- The rules that a part without a way out consists of derive nothing. -/
theorem not_productive_of_hasEscape {part : List Nat} (h : g.hasEscape part = false)
    (hi : i ∈ part) : ¬ g.Productive (g.body i) :=
  fun ⟨_, hw⟩ => not_derivable_of_hasEscape h hi hw.derivable

open Classical in
/-- Where a rule derives nothing, it leads to rules that derive nothing because they are a part
without a way out. -/
theorem exists_stuck (h : g.analyze name = .ok a) (hs : g.Satisfiable) (hi : i < g.rules.length)
    (hun : ¬ g.Productive (g.body i)) : ∃ group ∈ g.referenceGraph.components,
      ∃ part ∈ group.sublists, part ≠ [] ∧ part ≠ group ∧ g.hasEscape part = false := by
  have hsize := g.size_referenceGraph
  obtain ⟨hcomponents, hcover⟩ := Graph.components_correct g.closed_referenceGraph
  obtain ⟨u, ⟨hu, hstuck⟩, -, hback⟩ := Graph.exists_led_back (g := g.referenceGraph)
    (P := fun j => j < g.rules.length ∧ ¬ g.Productive (g.body j))
    (fun j hj => by rw [hsize]; exact hj.1) ⟨hi, hun⟩
  obtain ⟨group, hgroup, hmem⟩ := hcover u (by rwa [hsize])
  have hjoined := fun j => (hcomponents group hgroup).mem_iff (w := j) hmem
  let part := group.filter fun j => ¬ g.Productive (g.body j)
  have hpart : ∀ j, j ∈ part ↔ j ∈ group ∧ ¬ g.Productive (g.body j) := fun j => by
    simp [part]
  have hlt : ∀ j ∈ group, j < g.rules.length := fun j hj => by
    rw [← hsize]
    exact ((Graph.components_guarded g.closed_referenceGraph).2 group hgroup).2 j hj
  -- what a body of the part refers to derives something or is in the part as well
  have hnone : g.hasEscape part = false := by
    refine hasEscape_eq_false.mpr fun j hj => ?_
    obtain ⟨hjgroup, hjstuck⟩ := (hpart j).mp hj
    have hjlt := hlt j hjgroup
    by_contra hescapes
    rw [Bool.not_eq_false] at hescapes
    refine hjstuck (.of_escapes _ (hs.body hjlt) hescapes fun target href hout => ?_)
    have hdefined := (g.body j).defined_of_references
      ((checked_of_analyze h).flawless j hjlt) href
    obtain ⟨k, hk⟩ := Option.isSome_iff_exists.mp hdefined
    by_contra hkstuck
    have huk : g.referenceGraph.Reaches u k :=
      ((hjoined j).mp hjgroup).1.trans (.single (adj_referenceGraph hjlt href hk))
    have hkbody : ¬ g.Productive (g.body k) := fun ⟨w, hw⟩ => hkstuck ⟨w, .symbol hk hw⟩
    have hku := hback k ⟨(of_number? hk).1, hkbody⟩ huk
    have hkpart : k ∈ part := (hpart k).mpr ⟨(hjoined k).mpr ⟨huk, hku⟩, hkbody⟩
    rw [isAmong_eq_true.mpr ⟨k, hk, hkpart⟩] at hout
    cases hout
  refine ⟨group, hgroup, part, List.mem_sublists.mpr List.filter_sublist, ?_, ?_, hnone⟩
  · exact List.ne_nil_of_mem ((hpart u).mpr ⟨hmem, hstuck⟩)
  · intro heq
    rw [heq] at hnone
    have hescape : g.hasEscape group = true := by
      rcases escape_of_analyze h group hgroup with hrecursive | hescape
      · match group, hrecursive with
        | [], _ => cases hmem
        | [j], hrecursive =>
          have hself := hs.escapes_self (hlt j (List.mem_singleton_self j)) hrecursive
          simpa [hasEscape] using hself
      · exact hescape
    rw [hescape] at hnone
    cases hnone

/-- A grammar that is accepted, and whose expressions are satisfiable, has a text for every rule if
and only if every proper part of rules that need each other has a way out. -/
theorem productive_iff (h : g.analyze name = .ok a) (hs : g.Satisfiable) :
    (∀ rule ∈ g.rules, g.Productive rule.2) ↔ g.PartsEscape := by
  constructor
  · intro hall group hgroup part hpart hne _
    by_contra hnone
    rw [Bool.not_eq_true] at hnone
    obtain ⟨i, hi⟩ := List.exists_mem_of_ne_nil part hne
    have hlt := ((Graph.components_guarded g.closed_referenceGraph).2 group hgroup).2 i
      ((List.mem_sublists.mp hpart).subset hi)
    rw [size_referenceGraph] at hlt
    refine not_productive_of_hasEscape hnone hi ?_
    rw [body_eq hlt]
    exact hall _ (List.getElem_mem hlt)
  · intro hparts rule hrule
    obtain ⟨i, hi, rfl⟩ := List.getElem_of_mem hrule
    rw [← body_eq hi]
    by_contra hun
    obtain ⟨group, hgroup, part, hpart, hne, hproper, hnone⟩ := exists_stuck h hs hi hun
    rw [hparts group hgroup part hpart hne hproper] at hnone
    cases hnone

/-- A value is a number or a list of values: the two rules need each other. -/
def nestedLists : Grammar where
  name := "values"
  rules := [
    ("value", .choice [.literal "n", .symbol "list"]),
    ("list", .seq [.literal "[", .symbol "value",
      .repetition (.seq [.literal ",", .symbol "value"]) 0 none, .literal "]"])]

/-- The terminals of nested lists are literals, which match themselves. -/
theorem satisfiable_nestedLists : nestedLists.Satisfiable := by
  have hliteral := Rule.satisfiable_literal
  refine List.forall_mem_cons.mpr ⟨?_, List.forall_mem_singleton.mpr ?_⟩
  · exact ⟨by simp, hliteral "n", trivial, trivial⟩
  · exact ⟨hliteral "[", trivial, ⟨by simp, hliteral ",", trivial, trivial⟩, hliteral "]", trivial⟩

/-- Nested lists need values and values need lists, but a value may be a number: both derive
texts. -/
theorem productive_iff_nestedLists :
    nestedLists.analyze none = .ok ⟨0, [false, false], [false, false], [true, true], []⟩ ∧
      nestedLists.Satisfiable ∧ nestedLists.PartsEscape ∧
      ∀ rule ∈ nestedLists.rules, nestedLists.Productive rule.2 := by
  have hanalysis : nestedLists.analyze none =
      .ok ⟨0, [false, false], [false, false], [true, true], []⟩ := by rfl
  have hparts : nestedLists.PartsEscape := by decide +kernel
  exact ⟨hanalysis, satisfiable_nestedLists, hparts,
    (productive_iff hanalysis satisfiable_nestedLists).mpr hparts⟩

/-- The analysis is content with the way out of one rule, although the other needs itself. -/
def overlooked : Grammar where
  name := "overlooked"
  rules := [
    ("a", .choice [.literal "x", .symbol "b"]),
    ("b", .seq [.literal "y", .symbol "b", .symbol "a"])]

example : overlooked.analyze none = .ok ⟨0, [false, false], [false, false], [true, true], []⟩ ∧
    ¬ overlooked.Productive (overlooked.body 1) :=
  ⟨by rfl, @not_productive_of_hasEscape overlooked 1 [1] (by rfl) (by decide)⟩

end Grammar

end Packrat
