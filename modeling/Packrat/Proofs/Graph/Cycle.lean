import Mathlib.Algebra.Order.BigOperators.Group.List
import Mathlib.Algebra.Order.Group.Nat
import Mathlib.Data.List.Chain
import Mathlib.Data.List.Nodup
import Packrat.Graph.Basic
import Packrat.Proofs.Except

/-!
# Graphs without cycles

Where a depth-first search finds no cycle, every way along the targets of vertices ends: a vertex
that the search has left leads to such vertices only, and a way cannot be longer than there are
vertices. Hence the vertices lie on layers, each of them above its targets.
-/

namespace Packrat

namespace Graph

variable {g : Graph}

/-- Whether every way from a vertex along targets ends. -/
def Ends (g : Graph) (v : Nat) : Prop := Acc (fun w v => g.Adj v w) v

/-- An edge begins at a vertex of the graph. -/
theorem lt_size_of_adj {v w : Nat} (h : g.Adj v w) : v < g.size := by
  by_contra hv
  rw [Adj, targets, Array.getElem?_eq_none (Nat.le_of_not_lt hv)] at h
  cases h

/-- Ways end at numbers that are no vertices. -/
theorem ends_of_size_le {v : Nat} (hv : g.size ≤ v) : g.Ends v :=
  ⟨v, fun _ hw => absurd (lt_size_of_adj hw) (Nat.not_lt.mpr hv)⟩

/-- Whether a search has left every vertex that it has seen, but for those on its way, and ways
from those that it has left end. -/
def Cleared (g : Graph) (path seen : List Nat) : Prop := ∀ u ∈ seen, u ∈ path ∨ g.Ends u

/-- What a search behind each of some targets clears, if it finds no cycle. -/
theorem Cleared.foldlM {path seen seen' ts : List Nat}
    {visit : List Nat → Nat → Except (List Nat) (List Nat)}
    (hvisit : ∀ w ∈ ts, ∀ {seen seen'}, g.Cleared path seen → visit seen w = .ok seen' →
      g.Ends w ∧ g.Cleared path seen')
    (hseen : g.Cleared path seen) (h : ts.foldlM visit seen = .ok seen') :
    (∀ w ∈ ts, g.Ends w) ∧ g.Cleared path seen' := by
  induction ts generalizing seen with
  | nil =>
    cases h
    exact ⟨by simp, hseen⟩
  | cons w ts ih =>
    rw [List.forall_mem_cons] at hvisit
    rw [List.foldlM_cons] at h
    obtain ⟨seen₁, hw, hrest⟩ := Except.of_bind_ok h
    obtain ⟨hends, hseen₁⟩ := hvisit.1 hseen hw
    obtain ⟨hothers, hseen'⟩ := ih hvisit.2 hseen₁ hrest
    exact ⟨List.forall_mem_cons.mpr ⟨hends, hothers⟩, hseen'⟩

/-- A search that finds no cycle clears the vertex that it starts from. A level is left for it, as
the vertices on its way are distinct. -/
theorem Cleared.searchCycle {levels v : Nat} {path seen seen' : List Nat}
    (hlevels : levels + path.length = g.size + 1) (hnodup : path.Nodup)
    (hpath : ∀ u ∈ path, u < g.size) (hv : v ∉ path) (hseen : g.Cleared path seen)
    (h : g.searchCycle levels path seen v = .ok seen') : g.Ends v ∧ g.Cleared path seen' := by
  induction levels generalizing path seen seen' v with
  | zero =>
    have hsubset : path ⊆ List.range g.size := fun u hu => List.mem_range.mpr (hpath u hu)
    have hlength := hnodup.length_le_of_subset hsubset
    rw [List.length_range] at hlength
    omega
  | succ levels ih =>
    rw [Graph.searchCycle] at h
    split at h
    · rename_i hknown
      cases h
      exact ⟨(hseen v (by simpa using hknown)).resolve_left hv, hseen⟩
    · have hstart : g.Cleared (v :: path) (v :: seen) := by
        refine List.forall_mem_cons.mpr ⟨.inl List.mem_cons_self, fun u hu => ?_⟩
        exact (hseen u hu).imp_left (List.mem_cons_of_mem v)
      obtain ⟨htargets, hseen'⟩ := hstart.foldlM (fun w hw seen seen' hseen hvisit => by
        split at hvisit
        · cases hvisit
        · rename_i hback
          refine ih (by simp only [List.length_cons]; omega) (List.nodup_cons.mpr ⟨hv, hnodup⟩)
            ?_ (by simpa using hback) hseen hvisit
          exact List.forall_mem_cons.mpr ⟨lt_size_of_adj hw, hpath⟩) h
      have hends : g.Ends v := ⟨v, htargets⟩
      refine ⟨hends, fun u hu => ?_⟩
      rcases hseen' u hu with hu | hu
      · rcases List.mem_cons.mp hu with rfl | hu
        · exact .inr hends
        · exact .inl hu
      · exact .inr hu

/-- Where a search from some vertices finds no cycle, every way from them ends. -/
theorem ends_of_mem_of_cycle? {starts : List Nat} (h : g.cycle? starts = none) :
    ∀ v ∈ starts, g.Ends v := by
  unfold cycle? at h
  split at h
  · cases h
  · rename_i seen hok
    have hempty : g.Cleared [] [] := by simp [Cleared]
    exact (hempty.foldlM (fun w _ seen seen' hseen hvisit =>
      hseen.searchCycle rfl List.nodup_nil (by simp) (by simp) hvisit) hok).1

/-- Where a search from all vertices finds no cycle, every way ends. -/
theorem ends_of_cycle? (h : g.cycle? g.vertices = none) (v : Nat) : g.Ends v := by
  by_cases hv : v < g.size
  · exact ends_of_mem_of_cycle? h v (List.mem_range.mpr hv)
  · exact ends_of_size_le (Nat.le_of_not_lt hv)

/-- Where each of some vertices has one of them for a target, no way from them has to end. -/
theorem not_ends_of_forall_adj {P : Nat → Prop} (h : ∀ v, P v → ∃ w, P w ∧ g.Adj v w) {v : Nat}
    (hv : P v) : ¬ g.Ends v := by
  intro hends
  induction hends with
  | intro v _ ih =>
    obtain ⟨w, hw, hvw⟩ := h v hv
    exact ih w hvw hw

/-- Where every way ends, the vertices lie on finitely many layers, each of them above its
targets. -/
theorem exists_layers (h : ∀ v, g.Ends v) : ∃ (layer : Nat → Nat) (top : Nat),
    (∀ v, layer v ≤ top) ∧ ∀ v w, g.Adj v w → layer w < layer v := by
  let layer := WellFounded.fix (C := fun _ => Nat) ⟨h⟩
    fun v below => ((g.targets v).attach.map fun w => below w.1 w.2 + 1).sum
  have hlayer : ∀ v, layer v = ((g.targets v).attach.map fun w => layer w.1 + 1).sum :=
    WellFounded.fix_eq _ _
  refine ⟨layer, ((List.range g.size).map layer).sum, fun v => ?_, fun v w hw => ?_⟩
  · by_cases hv : v < g.size
    · exact List.le_sum_of_mem (List.mem_map.mpr ⟨v, List.mem_range.mpr hv, rfl⟩)
    · have hnone : g.targets v = [] := by
        rw [targets, Array.getElem?_eq_none (Nat.le_of_not_lt hv), Option.getD_none]
      rw [hlayer v, hnone]
      exact Nat.zero_le _
  · have hmem : layer w + 1 ∈ (g.targets v).attach.map fun w => layer w.1 + 1 :=
      List.mem_map.mpr ⟨⟨w, hw⟩, List.mem_attach _ _, rfl⟩
    rw [hlayer v]
    exact List.le_sum_of_mem hmem

end Graph

end Packrat

/-!
## The cycle that is found

A depth-first search keeps the way on which it came: distinct vertices, each of them a target of the
one before. It ends with a target that lies on this way already, so what lies on it from there on is
a cycle, without the vertices that only led to it.
-/

namespace Packrat

/-- Whether every item of a list that is not empty is in a relation to the next one, and the last to
the first. -/
def IsCycle {α : Type} (r : α → α → Prop) (cycle : List α) : Prop :=
  cycle ≠ [] ∧ (cycle ++ cycle.head?.toList).IsChain r

namespace IsCycle

variable {α β : Type} {r : α → α → Prop} {s : β → β → Prop} {cycle : List α}

/-- A cycle with a first member is a chain that comes back to this member. -/
theorem cons_iff {a : α} {rest : List α} :
    IsCycle r (a :: rest) ↔ (a :: rest ++ [a]).IsChain r := by
  simp [IsCycle]

/-- Every item of a cycle is followed by one of its items. -/
theorem exists_next (h : IsCycle r cycle) {a : α} (ha : a ∈ cycle) : ∃ b ∈ cycle, r a b := by
  obtain ⟨hne, hchain⟩ := h
  obtain ⟨before, after, rfl⟩ := List.append_of_mem ha
  cases after with
  | nil =>
    -- the last item is followed by the first one
    cases before with
    | nil => exact ⟨a, ha, by simpa using hchain⟩
    | cons first before =>
      have hclosing : (first :: before ++ a :: [first]).IsChain r := by simpa using hchain
      exact ⟨first, List.mem_cons_self, (List.isChain_append_cons_cons.mp hclosing).2.1⟩
  | cons b after =>
    refine ⟨b, List.mem_append_right _ (List.mem_cons_of_mem _ List.mem_cons_self), ?_⟩
    rw [List.append_assoc] at hchain
    exact (List.isChain_append_cons_cons.mp hchain).2.1

/-- Every item of a cycle follows one of its items. -/
theorem exists_previous (h : IsCycle r cycle) {b : α} (hb : b ∈ cycle) : ∃ a ∈ cycle, r a b := by
  obtain ⟨-, hchain⟩ := h
  obtain ⟨before, after, rfl⟩ := List.append_of_mem hb
  rcases List.eq_nil_or_concat before with rfl | ⟨before, a, rfl⟩
  · -- the first item follows the last one
    obtain ⟨init, a, hlast⟩ := (List.eq_nil_or_concat (b :: after)).resolve_left (by simp)
    rw [List.nil_append, hlast] at hchain
    have hclosed : init.concat a ++ (init.concat a).head?.toList = init ++ a :: b :: [] := by
      rw [← hlast, List.head?_cons, Option.toList_some, hlast, List.concat_append]
    rw [hclosed] at hchain
    refine ⟨a, ?_, (List.isChain_append_cons_cons.mp hchain).2.1⟩
    rw [List.nil_append, hlast, List.concat_eq_append]
    exact List.mem_append_right _ (List.mem_singleton_self a)
  · rw [List.concat_eq_append, List.append_assoc, List.append_assoc] at hchain
    refine ⟨a, ?_, (List.isChain_append_cons_cons.mp hchain).2.1⟩
    rw [List.concat_eq_append]
    exact List.mem_append_left _ (List.mem_append_right _ (List.mem_singleton_self a))

/-- A cycle is one for another relation under a map that keeps to both. -/
theorem map (h : IsCycle r cycle) {f : α → β} (hf : ∀ a b, r a b → s (f a) (f b)) :
    IsCycle s (cycle.map f) := by
  obtain ⟨hne, hchain⟩ := h
  refine ⟨by simpa using hne, ?_⟩
  have hmap := List.isChain_map_of_isChain f hf hchain
  cases cycle with
  | nil => exact absurd rfl hne
  | cons a rest => simpa using hmap

end IsCycle

namespace Graph

variable {g : Graph} {levels v : Nat} {path seen cycle : List Nat}

/-- Whether some vertices, the latest first, are the way of a search: each is a target of the one
below it, and none is on it twice. -/
structure IsWay (g : Graph) (path : List Nat) : Prop where
  chain : path.IsChain fun v w => g.Adj w v
  nodup : path.Nodup

/-- A way may have no vertices. -/
theorem IsWay.nil (g : Graph) : g.IsWay [] := ⟨.nil, List.nodup_nil⟩

/-- A way goes on to a target of its end that is not on it yet. -/
theorem IsWay.cons (h : g.IsWay path) (hnext : ∀ u ∈ path.head?, g.Adj u v) (hnew : v ∉ path) :
    g.IsWay (v :: path) :=
  ⟨List.isChain_cons.mpr ⟨hnext, h.chain⟩, List.nodup_cons.mpr ⟨hnew, h.nodup⟩⟩

/-- Where the end of a way leads back to a vertex on it, the way from there on is a cycle. -/
theorem IsWay.isCycle (h : g.IsWay (v :: path)) {target : Nat} (hadj : g.Adj v target)
    (hback : target ∈ v :: path) :
    IsCycle g.Adj (target :: ((v :: path).takeWhile (· != target)).reverse) ∧
      (target :: ((v :: path).takeWhile (· != target)).reverse).Nodup := by
  obtain ⟨later, earlier, hpath, hlater⟩ := List.eq_append_cons_of_mem hback
  have htake : (v :: path).takeWhile (· != target) = later := by
    have hpos : ∀ u ∈ later, (u != target) = true := fun u hu =>
      bne_iff_ne.mpr (ne_of_mem_of_not_mem hu hlater)
    rw [hpath, List.takeWhile_append_of_pos hpos]
    simp
  have hprefix : later ++ [target] <+: v :: path := ⟨earlier, by rw [hpath]; simp⟩
  have hreverse : target :: later.reverse = (later ++ [target]).reverse := by simp
  rw [htake]
  refine ⟨IsCycle.cons_iff.mpr ?_, ?_⟩
  · have hclosed : target :: later.reverse ++ [target] =
        (target :: (later ++ [target])).reverse := by simp
    rw [hclosed, List.isChain_reverse, List.isChain_cons]
    refine ⟨fun u hu => ?_, h.chain.prefix hprefix⟩
    obtain rfl : v = u := by
      obtain ⟨rest, hrest⟩ := hprefix
      cases later with
      | nil => simp_all
      | cons w later => simp_all
    exact hadj
  · rw [hreverse, List.nodup_reverse]
    exact h.nodup.sublist hprefix.sublist

/-- What a search behind a vertex finds is a cycle. -/
theorem IsWay.searchCycle (h : g.IsWay path) (hnext : ∀ u ∈ path.head?, g.Adj u v)
    (hnew : v ∉ path) (hfound : g.searchCycle levels path seen v = .error cycle) :
    IsCycle g.Adj cycle ∧ cycle.Nodup := by
  induction levels generalizing path seen v with
  | zero => cases hfound
  | succ levels ih =>
    have hway := h.cons hnext hnew
    rw [Graph.searchCycle] at hfound
    split at hfound
    · cases hfound
    · obtain ⟨seen', w, hw, hvisit⟩ := Except.of_foldlM_error hfound
      split at hvisit
      · rename_i hback
        cases hvisit
        exact hway.isCycle hw (by simpa using hback)
      · rename_i hahead
        refine ih hway (fun u hu => ?_) (by simpa using hahead) hvisit
        cases hu
        exact hw

/-- The cycle that a search from some vertices finds is one of the graph, and no vertex is on it
twice. -/
theorem isCycle_of_cycle? {starts : List Nat} (h : g.cycle? starts = some cycle) :
    IsCycle g.Adj cycle ∧ cycle.Nodup := by
  unfold cycle? at h
  split at h
  · rename_i found hfound
    cases h
    obtain ⟨seen, v, -, hvisit⟩ := Except.of_foldlM_error hfound
    exact (IsWay.nil g).searchCycle (by simp) (by simp) hvisit
  · cases h

end Graph

end Packrat
