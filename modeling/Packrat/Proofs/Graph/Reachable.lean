import Packrat.Proofs.Guarded.Component

/-!
# The vertices that can be reached

A search goes on from what was seen before it and sees everything that lies behind its start: what
it adds can be reached from the start, and has all of its targets seen in the end.
-/

namespace Packrat

namespace Graph

variable {g : Graph} {levels v w : Nat} {seen seen' seen'' starts : List Nat}

/-- Whether searches from some vertices in order lead from what was seen before to what is seen
then. -/
structure Explores (g : Graph) (seen starts seen' : List Nat) : Prop where
  tracks : g.Tracks seen'
  grows : seen.length ≤ seen'.length
  kept : ∀ u ∈ seen, u ∈ seen'
  visited : ∀ v ∈ starts, v ∈ seen'
  /-- What was added can be reached. -/
  sound : ∀ u ∈ seen', u ∈ seen ∨ ∃ v ∈ starts, g.Reaches v u
  /-- What was added has its targets among what is seen. -/
  closed : ∀ u ∈ seen', u ∈ seen ∨ ∀ w, g.Adj u w → w ∈ seen'

namespace Explores

/-- Without a start, nothing more is seen. -/
theorem nil (h : g.Tracks seen) : g.Explores seen [] seen where
  tracks := h
  grows := Nat.le_refl _
  kept _ hu := hu
  visited := List.forall_mem_nil _
  sound _ hu := .inl hu
  closed _ hu := .inl hu

/-- A search from a vertex that was seen before adds nothing. -/
theorem of_mem (h : g.Tracks seen) (hv : v ∈ seen) : g.Explores seen [v] seen :=
  { nil h with
    visited := List.forall_mem_singleton.mpr hv
    sound := fun _ hu => .inl hu }

/-- A search from some starts goes on from what the one from the first of them has seen. -/
theorem cons (h : g.Explores seen [v] seen') (h' : g.Explores seen' starts seen'') :
    g.Explores seen (v :: starts) seen'' where
  tracks := h'.tracks
  grows := Nat.le_trans h.grows h'.grows
  kept u hu := h'.kept u (h.kept u hu)
  visited := List.forall_mem_cons.mpr ⟨h'.kept v (h.visited v List.mem_cons_self), h'.visited⟩
  sound u hu := by
    rcases h'.sound u hu with hu | ⟨w, hw, hwu⟩
    · rcases h.sound u hu with hu | ⟨w, hw, hwu⟩
      · exact .inl hu
      · obtain rfl := List.mem_singleton.mp hw
        exact .inr ⟨w, List.mem_cons_self, hwu⟩
    · exact .inr ⟨w, List.mem_cons_of_mem v hw, hwu⟩
  closed u hu := by
    rcases h'.closed u hu with hu | htargets
    · exact (h.closed u hu).imp_right fun htargets w hw => h'.kept w (htargets w hw)
    · exact .inr htargets

/-- A vertex that was not seen before is explored once its targets are. -/
theorem enter (h : g.Explores (v :: seen) (g.targets v) seen') : g.Explores seen [v] seen' where
  tracks := h.tracks
  grows := Nat.le_of_succ_le h.grows
  kept u hu := h.kept u (List.mem_cons_of_mem v hu)
  visited := List.forall_mem_singleton.mpr (h.kept v List.mem_cons_self)
  sound u hu := by
    rcases h.sound u hu with hu | ⟨w, hw, hwu⟩
    · rcases List.mem_cons.mp hu with rfl | hu
      · exact .inr ⟨u, List.mem_cons_self, .refl u⟩
      · exact .inl hu
    · exact .inr ⟨v, List.mem_cons_self, .step hw hwu⟩
  closed u hu := by
    rcases h.closed u hu with hu | htargets
    · rcases List.mem_cons.mp hu with rfl | hu
      · exact .inr h.visited
      · exact .inl hu
    · exact .inr htargets

/-- Searches that explore each of some vertices explore all of them. -/
theorem foldl {visit : List Nat → Nat → List Nat} {size : Nat}
    (hvisit : ∀ w ∈ starts, ∀ seen, g.Tracks seen → size ≤ seen.length →
      g.Explores seen [w] (visit seen w))
    (hseen : g.Tracks seen) (hsize : size ≤ seen.length) :
    g.Explores seen starts (starts.foldl visit seen) := by
  induction starts generalizing seen with
  | nil => exact nil hseen
  | cons w starts ih =>
    rw [List.forall_mem_cons] at hvisit
    have hfirst := hvisit.1 seen hseen hsize
    exact hfirst.cons (ih hvisit.2 hfirst.tracks (Nat.le_trans hsize hfirst.grows))

end Explores

/-- A search explores its start, as long as there is a level left for every vertex that was not
seen. -/
theorem explore_explores (hg : g.Closed) (hv : v < g.size) (hseen : g.Tracks seen)
    (hlevels : g.size < levels + seen.length) : g.Explores seen [v] (g.explore levels seen v) := by
  induction levels generalizing v seen with
  | zero =>
    have := hseen.length_le
    omega
  | succ levels ih =>
    rw [Graph.explore]
    split
    · rename_i hknown
      exact .of_mem hseen (List.contains_iff_mem.mp hknown)
    · rename_i hnew
      have hstart := hseen.cons hv (by simpa using hnew)
      refine .enter (.foldl (fun w hw seen' hseen' hlength => ?_) hstart (Nat.le_refl _))
      rw [List.length_cons] at hlength
      exact ih (hg v w hw) hseen' (by omega)

/-- What is found is what can be reached. -/
theorem mem_reachable_iff (hg : g.Closed) (hstarts : ∀ v ∈ starts, v < g.size) :
    w ∈ g.reachable starts ↔ ∃ v ∈ starts, g.Reaches v w := by
  have hexplores : g.Explores [] starts (g.reachable starts) :=
    .foldl (fun v hv seen hseen _ => explore_explores hg (hstarts v hv) hseen (by omega)) (.nil g)
      (Nat.zero_le _)
  constructor
  · intro hw
    exact (hexplores.sound w hw).resolve_left List.not_mem_nil
  · rintro ⟨v, hv, hvw⟩
    have hfound := hexplores.visited v hv
    clear hv
    induction hvw with
    | refl => exact hfound
    | step first _ ih =>
      exact ih ((hexplores.closed _ hfound).resolve_left List.not_mem_nil _ first)

end Graph

end Packrat
