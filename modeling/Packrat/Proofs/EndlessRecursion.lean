import Packrat.Proofs.Grammar.Rejection
import Packrat.Proofs.Graph.Cycle
import Packrat.Proofs.Productivity

/-!
# Endless recursion is told rightly

Rules that need each other and have no way out are told as a cycle of them. Each of these rules
refers to one among them, so there is a cycle to be found, and none of them has a finite derivation:
the first one to have one would need a way out of all of them.
-/

namespace Packrat

namespace Graph

variable {g : Graph} {members : List Nat} {v w : Nat}

/-- The edges of a graph cut down to some vertices are those that lead to one of them. -/
theorem adj_within : (g.within members).Adj v w ↔ g.Adj v w ∧ w ∈ members := by
  simp only [Adj, targets, within, Array.getElem?_map]
  cases g[v]? with
  | none => simp
  | some ts => simp [List.mem_filter]

/-- A vertex of a component that is recursive has a target in it. -/
theorem IsComponent.exists_adj (h : g.IsComponent members) (hnodup : members.Nodup)
    (hrecursive : g.isRecursive members = true) (hv : v ∈ members) : ∃ w ∈ members, g.Adj v w := by
  by_cases hother : ∃ u ∈ members, u ≠ v
  · -- the first step of a way to another vertex stays in the component
    obtain ⟨u, hu, huv⟩ := hother
    obtain ⟨hvu, hback⟩ := (h.mem_iff hv).mp hu
    cases hvu with
    | refl => exact absurd rfl huv
    | @step _ w _ first rest =>
      exact ⟨w, (h.mem_iff hv).mpr ⟨.single first, rest.trans hback⟩, first⟩
  · push Not at hother
    have hlength : members.length ≤ [v].length :=
      hnodup.length_le_of_subset fun u hu => List.mem_singleton.mpr (hother u hu)
    obtain ⟨u, rfl⟩ : ∃ u, members = [u] :=
      List.length_eq_one_iff.mp (Nat.le_antisymm hlength (List.length_pos_of_mem hv))
    obtain rfl := List.mem_singleton.mp hv
    exact ⟨v, hv, List.contains_iff_mem.mp hrecursive⟩

/-- Among vertices that need each other a cycle is found, and it is a cycle of them. -/
theorem IsComponent.exists_cycle (h : g.IsComponent members) (hnodup : members.Nodup)
    (hrecursive : g.isRecursive members = true) :
    ∃ cycle, (g.within members).cycle? members.mergeSort = some cycle ∧
      IsCycle (g.within members).Adj cycle ∧ ∀ v ∈ cycle, v ∈ members := by
  cases hfound : (g.within members).cycle? members.mergeSort with
  | none =>
    obtain ⟨v, hv, -⟩ := id h
    have hends := ends_of_mem_of_cycle? hfound v (List.mem_mergeSort.mpr hv)
    refine absurd hends (not_ends_of_forall_adj (P := (· ∈ members)) (fun u hu => ?_) hv)
    obtain ⟨w, hw, huw⟩ := h.exists_adj hnodup hrecursive hu
    exact ⟨w, hw, adj_within.mpr ⟨huw, hw⟩⟩
  | some cycle =>
    have hcycle := (isCycle_of_cycle? hfound).1
    refine ⟨cycle, rfl, hcycle, fun v hv => ?_⟩
    obtain ⟨u, -, huv⟩ := hcycle.exists_previous hv
    exact (adj_within.mp huv).2

end Graph

namespace Grammar

variable {g : Grammar} {start : Option String} {cycle : List String}

/-- Whether the expression of the rule of a name refers to a name. -/
def RefersTo (g : Grammar) (name target : String) : Prop :=
  ∃ body, (name, body) ∈ g.rules ∧ target ∈ body.references

/-- An edge of the graph of references is a reference. -/
theorem refersTo_of_adj {i j : Nat} (h : g.referenceGraph.Adj i j) :
    g.RefersTo (g.ruleName i) (g.ruleName j) := by
  obtain ⟨hi, target, htarget, hj⟩ := (adj_iff_of_references _).mp h
  rw [(of_number? hj).2]
  exact ⟨g.body i, mem_rules hi, htarget⟩

/-- Endless recursion is told rightly. Where an analysis ends with it, the rules that are told refer
to each other in a cycle, and none of them has a finite derivation, even if every terminal is taken
to match some text. So the expressions of all rules being derivable is enough for it not to be
told. -/
theorem endlessRecursion_sound (h : g.analyze start = .error (.endlessRecursion cycle)) :
    IsCycle g.RefersTo cycle ∧
      (∀ name ∈ cycle, ∃ body, (name, body) ∈ g.rules ∧ ¬ g.Derivable body) ∧
      ¬ ∀ rule ∈ g.rules, g.Derivable rule.2 := by
  obtain ⟨-, -, hleft | ⟨-, hescape⟩⟩ := of_analyze_error h rfl
  · obtain ⟨_, -, hcycle⟩ := of_checkLeftRecursion hleft
    cases hcycle
  · obtain ⟨group, hgroup, hrecursive, hnone, htold⟩ := of_checkEscape hescape
    have hclosed := g.closed_referenceGraph
    have hnodup := (List.nodup_flatten.mp (Graph.nodup_components hclosed)).1 group hgroup
    obtain ⟨found, hfound, hcycle, hmembers⟩ :=
      ((Graph.components_correct hclosed).1 group hgroup).exists_cycle hnodup hrecursive
    rw [hfound, Option.getD_some] at htold
    cases htold
    have hstuck : ∀ i ∈ found, (g.ruleName i, g.body i) ∈ g.rules ∧ ¬ g.Derivable (g.body i) := by
      intro i hi
      have hlt := ((Graph.components_guarded hclosed).2 group hgroup).2 i (hmembers i hi)
      rw [size_referenceGraph] at hlt
      exact ⟨mem_rules hlt, not_derivable_of_hasEscape hnone (hmembers i hi)⟩
    refine ⟨hcycle.map fun i j hij => refersTo_of_adj (Graph.adj_within.mp hij).1, ?_, ?_⟩
    · intro name hname
      obtain ⟨i, hi, rfl⟩ := List.mem_map.mp hname
      exact ⟨g.body i, hstuck i hi⟩
    · intro hall
      obtain ⟨i, hi⟩ := List.exists_mem_of_ne_nil found hcycle.1
      exact (hstuck i hi).2 (hall _ (hstuck i hi).1)

/-- A value is a list of values, and a list is not empty. -/
def bottomless : Grammar where
  name := "bottomless"
  rules := [
    ("s", .choice [.literal "x", .symbol "value"]),
    ("value", .seq [.literal "(", .symbol "list", .literal ")"]),
    ("list", .choice [.seq [.symbol "value", .literal ",", .symbol "list"], .symbol "value"])]

/-- Values that are lists of values have no end: the two rules are told, and neither derives
anything. -/
theorem endlessRecursion_sound_bottomless :
    bottomless.analyze none = .error (.endlessRecursion ["value", "list"]) ∧
      IsCycle bottomless.RefersTo ["value", "list"] ∧
      (∀ name ∈ ["value", "list"], ∃ body, (name, body) ∈ bottomless.rules ∧
        ¬ bottomless.Derivable body) ∧
      ¬ ∀ rule ∈ bottomless.rules, bottomless.Derivable rule.2 := by
  have hsorted : ([2, 1] : List Nat).mergeSort = [1, 2] := by simp [List.mergeSort]
  have hfound : (bottomless.referenceGraph.within [2, 1]).cycle? [1, 2] = some [1, 2] := by
    decide +kernel
  have hcomponent : bottomless.checkComponent bottomless.referenceGraph [2, 1] =
      .error (.endlessRecursion ["value", "list"]) := by
    simp only [checkComponent, hsorted, hfound]
    rfl
  have hescape : bottomless.checkEscape = .error (.endlessRecursion ["value", "list"]) := by
    have hcomponents : bottomless.referenceGraph.components = [[2, 1], [0]] := by rfl
    rw [checkEscape, hcomponents, List.forM_eq_forM, List.forM_cons, hcomponent]
    rfl
  have hanalysis : bottomless.analyze none = .error (.endlessRecursion ["value", "list"]) := by
    have hstart : none.or bottomless.startRule? = some "s" := rfl
    have hleft : bottomless.checkLeftRecursion bottomless.nullability = .ok () := by rfl
    rw [analyze_of_checks (by rfl) hstart (by rfl) (by rfl), hleft, hescape]
    rfl
  exact ⟨hanalysis, endlessRecursion_sound hanalysis⟩

end Grammar

end Packrat
