import Packrat.Proofs.Guarded.Component
import Packrat.Proofs.IndexMap

/-!
# Searches with marks

A search asks over and over whether a vertex lies on its stack or on its way. With a mark for every
vertex there, set when it is put there and removed when it is taken away, the answer is a look-up.
The marks are right at every moment, so the searches that go by them find the same components and
the same cycle.
-/

/-! ## Components -/

namespace Packrat

namespace Graph

/-- A search for components that marks the vertices on its stack. -/
structure MarkedSurvey extends Survey where
  onStack : IndexMap Nat Unit := #[]

namespace MarkedSurvey

/-- Enters a vertex and marks it. -/
def enter (s : MarkedSurvey) (v : Nat) : MarkedSurvey where
  toSurvey := s.toSurvey.enter v
  onStack := s.onStack.insert v ()

/-- A vertex leads back to a number. -/
def lower (s : MarkedSurvey) (v number : Nat) : MarkedSurvey where
  toSurvey := s.toSurvey.lower v number
  onStack := s.onStack

/-- Takes vertices from a stack until a given one is taken, and their marks with them. -/
def unstack (v : Nat) : List Nat → IndexMap Nat Unit → List Nat × List Nat × IndexMap Nat Unit
  | [], marks => ([], [], marks)
  | w :: stack, marks =>
    let marks := marks.swapRemove w
    if w = v then ([w], stack, marks)
    else
      let (component, rest, marks) := unstack v stack marks
      (w :: component, rest, marks)

/-- Takes the component of a vertex from the stack. -/
def close (s : MarkedSurvey) (v : Nat) : MarkedSurvey :=
  let (component, rest, marks) := unstack v s.stack s.onStack
  { s with stack := rest, found := component :: s.found, onStack := marks }

/-- Leaves a vertex. -/
def leave (s : MarkedSurvey) (v : Nat) : MarkedSurvey :=
  if s.number? v = some (s.low v) then s.close v else s

/-- Goes from a vertex to one of its targets. -/
def follow (visit : MarkedSurvey → Nat → MarkedSurvey) (v : Nat) (s : MarkedSurvey)
    (target : Nat) : MarkedSurvey :=
  match s.number? target with
  | none =>
    let s := visit s target
    s.lower v (s.low target)
  | some number => if (s.onStack.get? target).isSome then s.lower v number else s

end MarkedSurvey

/-- `Graph.survey` by marks. -/
def markedSurvey (g : Graph) : (levels : Nat) → MarkedSurvey → Nat → MarkedSurvey
  | 0, s, _ => s
  | levels + 1, s, v =>
    ((g.targets v).foldl (MarkedSurvey.follow (markedSurvey g levels) v) (s.enter v)).leave v

/-- `Graph.components` by marks. -/
def markedComponents (g : Graph) : List (List Nat) :=
  let s := g.vertices.foldl (fun s v =>
    if (s.number? v).isSome then s else g.markedSurvey (g.size + 1) s v) ({} : MarkedSurvey)
  s.found.reverse

/-- Whether exactly the vertices of a list are marked. -/
structure Marks (marks : IndexMap Nat Unit) (l : List Nat) : Prop where
  distinct : marks.Distinct
  isSome_iff : ∀ v, (marks.get? v).isSome = true ↔ v ∈ l

namespace Marks

variable {marks : IndexMap Nat Unit} {l : List Nat} {v : Nat}

/-- A new vertex is marked. -/
theorem insert (h : Marks marks l) (hv : v ∉ l) : Marks (marks.insert v ()) (v :: l) := by
  have hnone : marks.get? v = none := by
    rw [← Option.not_isSome_iff_eq_none, h.isSome_iff]
    exact hv
  rw [IndexMap.insert_of_get?_eq_none hnone]
  refine ⟨h.distinct.push hnone, fun w => ?_⟩
  rw [IndexMap.get?_push, Option.isSome_or, Bool.or_eq_true, h.isSome_iff, List.mem_cons]
  by_cases hvw : v = w <;> simp [hvw, eq_comm]

/-- The mark of the first vertex is removed. -/
theorem swapRemove (h : Marks marks (v :: l)) (hv : v ∉ l) : Marks (marks.swapRemove v) l := by
  refine ⟨h.distinct.swapRemove, fun w => ?_⟩
  rw [IndexMap.get?_swapRemove h.distinct]
  split
  · rename_i hvw
    simp [← hvw, hv]
  · rename_i hvw
    rw [h.isSome_iff, List.mem_cons]
    simp [Ne.symm hvw]

/-- What is taken from a stack takes its marks along. -/
theorem unstack (h : Marks marks l) (hl : l.Nodup) :
    (MarkedSurvey.unstack v l marks).1 = (Survey.splitAt v l).1 ∧
      (MarkedSurvey.unstack v l marks).2.1 = (Survey.splitAt v l).2 ∧
      Marks (MarkedSurvey.unstack v l marks).2.2 (Survey.splitAt v l).2 := by
  induction l generalizing marks with
  | nil => exact ⟨rfl, rfl, h⟩
  | cons w l ih =>
    obtain ⟨hw, hl⟩ := List.nodup_cons.mp hl
    have hrest := h.swapRemove hw
    unfold MarkedSurvey.unstack Survey.splitAt
    split
    · exact ⟨rfl, rfl, hrest⟩
    · obtain ⟨hcomponent, hbelow, hmarks⟩ := ih hrest hl
      exact ⟨congrArg (w :: ·) hcomponent, hbelow, hmarks⟩

end Marks

namespace MarkedSurvey

variable {s : MarkedSurvey} {v w n : Nat}

/-- Whether the marks of a search are those of its stack, on which no vertex lies twice and none
that was not entered. -/
structure Right (s : MarkedSurvey) : Prop where
  marks : Marks s.onStack s.stack
  nodup : s.stack.Nodup
  entered : ∀ v ∈ s.stack, (s.number? v).isSome = true

/-- Nothing is marked before a search. -/
theorem Right.empty : Right {} :=
  ⟨⟨by simp [IndexMap.Distinct], by simp [IndexMap.get?]⟩, by simp, by simp⟩

/-- Entering a new vertex keeps the marks right. -/
theorem Right.enter (h : s.Right) (hnew : s.number? v = none) : (s.enter v).Right := by
  have hv : v ∉ s.stack := fun hv => by simpa [hnew] using h.entered v hv
  refine ⟨h.marks.insert hv, List.nodup_cons.mpr ⟨hv, h.nodup⟩, fun w hw => ?_⟩
  rw [Survey.number?, MarkedSurvey.enter, Survey.enter, List.lookup_cons]
  split
  · rfl
  · rename_i hne
    exact h.entered w ((List.mem_cons.mp hw).resolve_left (by simpa using hne))

/-- A vertex that leads back to a number keeps the marks as they are. -/
theorem Right.lower (h : s.Right) : (s.lower v n).Right := ⟨h.marks, h.nodup, h.entered⟩

/-- Taking a component from the stack keeps the marks right. -/
theorem Right.close (h : s.Right) (v : Nat) :
    (s.close v).Right ∧ (s.close v).toSurvey = s.toSurvey.close v := by
  obtain ⟨hcomponent, hrest, hmarks⟩ := h.marks.unstack h.nodup (v := v)
  have happend := Survey.splitAt_append v s.stack
  have hbelow : ∀ w ∈ (Survey.splitAt v s.stack).2, w ∈ s.stack := fun w hw =>
    happend ▸ List.mem_append_right _ hw
  have hclose : (s.close v).toSurvey = s.toSurvey.close v := by
    simp only [MarkedSurvey.close, Survey.close, hcomponent, hrest]
  have hstack : (s.close v).stack = (Survey.splitAt v s.stack).2 := hrest
  refine ⟨⟨hstack ▸ hmarks, ?_, ?_⟩, hclose⟩
  · rw [hstack]
    exact (List.nodup_append.mp (happend ▸ h.nodup)).2.1
  · rw [hstack]
    exact fun w hw => h.entered w (hbelow w hw)

/-- Leaving a vertex keeps the marks right. -/
theorem Right.leave (h : s.Right) (v : Nat) :
    (s.leave v).Right ∧ (s.leave v).toSurvey = s.toSurvey.leave v := by
  unfold MarkedSurvey.leave Survey.leave
  split
  · exact h.close v
  · exact ⟨h, rfl⟩

/-- Going on to a target keeps the marks right if a visit of it does. -/
theorem Right.follow {visit : MarkedSurvey → Nat → MarkedSurvey} {visit' : Survey → Nat → Survey}
    (h : s.Right) (v : Nat) (hvisit : s.number? w = none →
      (visit s w).Right ∧ (visit s w).toSurvey = visit' s.toSurvey w) :
    (s.follow visit v w).Right ∧ (s.follow visit v w).toSurvey = s.toSurvey.follow visit' v w := by
  unfold MarkedSurvey.follow Survey.follow
  cases hnumber : s.number? w with
  | none =>
    obtain ⟨hright, hsurvey⟩ := hvisit hnumber
    refine ⟨hright.lower, ?_⟩
    simp only [MarkedSurvey.lower, hsurvey]
  | some number =>
    have hmark : (s.onStack.get? w).isSome = s.stack.contains w := by
      rw [Bool.eq_iff_iff, h.marks.isSome_iff, List.contains_iff_mem]
    dsimp only
    rw [hmark]
    split
    · exact ⟨h.lower, rfl⟩
    · exact ⟨h, rfl⟩

end MarkedSurvey

variable {g : Graph}

/-- A search in steps keeps the marks right if each of them does. -/
theorem MarkedSurvey.Right.foldl {s : MarkedSurvey} (h : s.Right) (vs : List Nat)
    (step : MarkedSurvey → Nat → MarkedSurvey) (step' : Survey → Nat → Survey)
    (hstep : ∀ s : MarkedSurvey, s.Right → ∀ v,
      (step s v).Right ∧ (step s v).toSurvey = step' s.toSurvey v) :
    (vs.foldl step s).Right ∧ (vs.foldl step s).toSurvey = vs.foldl step' s.toSurvey := by
  induction vs generalizing s with
  | nil => exact ⟨h, rfl⟩
  | cons v vs ih =>
    obtain ⟨hright, hsurvey⟩ := hstep s h v
    rw [List.foldl_cons, List.foldl_cons, ← hsurvey]
    exact ih hright

/-- A visit by marks of a vertex that was not entered comes to what a visit comes to. -/
theorem MarkedSurvey.Right.survey {levels v : Nat} {s : MarkedSurvey} (h : s.Right)
    (hnew : s.number? v = none) : (g.markedSurvey levels s v).Right ∧
      (g.markedSurvey levels s v).toSurvey = g.survey levels s.toSurvey v := by
  induction levels generalizing s v with
  | zero => exact ⟨h, rfl⟩
  | succ levels ih =>
    have hfollow : ∀ s : MarkedSurvey, s.Right → ∀ w,
        (s.follow (g.markedSurvey levels) v w).Right ∧
          (s.follow (g.markedSurvey levels) v w).toSurvey =
            s.toSurvey.follow (g.survey levels) v w :=
      fun s hs w => hs.follow v fun hw => ih hs hw
    obtain ⟨hright, hsurvey⟩ := (h.enter hnew).foldl (g.targets v) _ _ hfollow
    obtain ⟨hleft, hleave⟩ := hright.leave v
    rw [markedSurvey, Graph.survey]
    exact ⟨hleft, by rw [hleave, hsurvey]; rfl⟩

/-- The search by marks finds the same components in the same order. -/
theorem markedComponents_eq (g : Graph) : g.markedComponents = g.components := by
  obtain ⟨-, hsurvey⟩ := MarkedSurvey.Right.empty.foldl g.vertices
    (fun s v => if (s.number? v).isSome then s else g.markedSurvey (g.size + 1) s v)
    (fun s v => if (s.number? v).isSome then s else g.survey (g.size + 1) s v) fun s hs v => by
      split
      · exact ⟨hs, rfl⟩
      · rename_i hnew
        exact hs.survey (Option.not_isSome_iff_eq_none.mp hnew)
  rw [markedComponents, components, ← hsurvey]

end Graph

end Packrat

/-! ## Cycles -/

namespace Packrat

namespace Graph

/-- A search for a cycle that keeps the place on its way of every vertex there. -/
structure CycleSearch where
  /-- The vertices that were seen. -/
  seen : List Nat := []
  /-- The way, the latest vertex first. -/
  path : List Nat := []
  onPath : IndexMap Nat Nat := #[]

/-- Goes from the latest vertex of a way to a target of it: one on the way closes a cycle. -/
def CycleSearch.follow (visit : CycleSearch → Nat → Except (List Nat) CycleSearch)
    (s : CycleSearch) (target : Nat) : Except (List Nat) CycleSearch :=
  match s.onPath.get? target with
  | some start => .error (s.path.reverse.drop start)
  | none => visit s target

/-- `Graph.searchCycle` by places. -/
def placedSearch (g : Graph) : (levels : Nat) → CycleSearch → Nat →
    Except (List Nat) CycleSearch
  | 0, s, _ => .ok s
  | levels + 1, s, v =>
    if s.seen.contains v then .ok s
    else do
      let s ← (g.targets v).foldlM (CycleSearch.follow (placedSearch g levels))
        ⟨v :: s.seen, v :: s.path, s.onPath.insert v s.path.length⟩
      return ⟨s.seen, s.path.tail, s.onPath.swapRemove v⟩

/-- `Graph.cycle?` by places. -/
def placedCycle? (g : Graph) (starts : List Nat) : Option (List Nat) :=
  match starts.foldlM (g.placedSearch (g.size + 1)) {} with
  | .error cycle => some cycle
  | .ok _ => none

namespace CycleSearch

variable {s : CycleSearch} {v : Nat}

/-- Whether the places of a search are those on its way, on which no vertex lies twice and none that
was not seen. -/
structure Right (s : CycleSearch) : Prop where
  distinct : s.onPath.Distinct
  places : ∀ v, s.onPath.get? v = (places s.path).lookup v
  nodup : s.path.Nodup
  seen : ∀ v ∈ s.path, v ∈ s.seen

/-- There are no places before a search. -/
theorem Right.empty : Right {} :=
  ⟨by simp [IndexMap.Distinct], by simp [IndexMap.get?, Graph.places], by simp, by simp⟩

/-- Going on to a vertex that was not seen keeps the places right. -/
theorem Right.push (h : s.Right) (hnew : v ∉ s.seen) :
    Right ⟨v :: s.seen, v :: s.path, s.onPath.insert v s.path.length⟩ := by
  have hv : v ∉ s.path := fun hv => hnew (h.seen v hv)
  have hnone : s.onPath.get? v = none := by rw [h.places, lookup_places_eq_none.mpr hv]
  refine ⟨?_, fun w => ?_, List.nodup_cons.mpr ⟨hv, h.nodup⟩, ?_⟩
  · rw [IndexMap.insert_of_get?_eq_none hnone]
    exact h.distinct.push hnone
  · rw [IndexMap.insert_of_get?_eq_none hnone, IndexMap.get?_push, Graph.places, List.lookup_cons]
    by_cases hvw : v = w
    · subst hvw
      simp [hnone]
    · simp [hvw, beq_false_of_ne (Ne.symm hvw), h.places]
  · exact fun w hw => (List.mem_cons.mp hw).elim (fun hwv => hwv ▸ List.mem_cons_self)
      fun hw => List.mem_cons_of_mem v (h.seen w hw)

/-- Going back from a vertex keeps the places right. -/
theorem Right.pop {path : List Nat} (h : s.Right) (hpath : s.path = v :: path) :
    Right ⟨s.seen, s.path.tail, s.onPath.swapRemove v⟩ := by
  have hplaces := h.places
  have hnodup := h.nodup
  rw [hpath] at hplaces hnodup ⊢
  obtain ⟨hv, hnodup⟩ := List.nodup_cons.mp hnodup
  refine ⟨h.distinct.swapRemove, fun w => ?_, hnodup, fun w hw => h.seen w ?_⟩
  · rw [IndexMap.get?_swapRemove h.distinct]
    split
    · rename_i hvw
      exact (lookup_places_eq_none.mpr (hvw ▸ hv)).symm
    · rename_i hvw
      rw [hplaces, Graph.places, List.lookup_cons, beq_false_of_ne (Ne.symm hvw)]
      rfl
  · exact hpath ▸ List.mem_cons_of_mem v hw

/-- Whether a search by places on some way has come to what a search has come to. -/
def Agrees (path : List Nat) : Except (List Nat) CycleSearch → Except (List Nat) (List Nat) → Prop
  | .error cycle, .error cycle' => cycle = cycle'
  | .ok s, .ok seen => s.Right ∧ s.path = path ∧ s.seen = seen
  | _, _ => False

/-- A search that has come back to the latest vertex of its way goes back from it. -/
theorem Agrees.pop {path : List Nat} {result : Except (List Nat) CycleSearch}
    {result' : Except (List Nat) (List Nat)} (h : Agrees (v :: path) result result') :
    Agrees path (do
      let s ← result
      return ⟨s.seen, s.path.tail, s.onPath.swapRemove v⟩) result' := by
  cases result with
  | error cycle => cases result' <;> exact h
  | ok s =>
    cases result' with
    | error cycle' => exact h
    | ok seen =>
      obtain ⟨hright, hpath, hseen⟩ := h
      exact ⟨hright.pop hpath, congrArg List.tail hpath, hseen⟩

/-- Searches in steps agree if each of their steps does. -/
theorem Right.foldlM (h : s.Right) (vs : List Nat)
    (step : CycleSearch → Nat → Except (List Nat) CycleSearch)
    (step' : List Nat → Nat → Except (List Nat) (List Nat))
    (hstep : ∀ s' : CycleSearch, s'.Right → s'.path = s.path → ∀ v,
      Agrees s.path (step s' v) (step' s'.seen v)) :
    Agrees s.path (vs.foldlM step s) (vs.foldlM step' s.seen) := by
  induction vs generalizing s with
  | nil => exact ⟨h, rfl, rfl⟩
  | cons v vs ih =>
    have hv := hstep s h rfl v
    rw [List.foldlM_cons, List.foldlM_cons]
    revert hv
    cases step s v with
    | error cycle =>
      cases step' s.seen v with
      | error cycle' => exact id
      | ok seen => exact False.elim
    | ok s' =>
      cases step' s.seen v with
      | error cycle' => exact False.elim
      | ok seen =>
        rintro ⟨hright, hpath, rfl⟩
        have hrest := ih hright fun s₁ hs₁ hpath₁ => hpath ▸ hstep s₁ hs₁ (hpath₁.trans hpath)
        rwa [hpath] at hrest

/-- The vertices on the way are those with a place, and the way from one starts at its place. -/
theorem Right.follow {visit : CycleSearch → Nat → Except (List Nat) CycleSearch}
    {visit' : List Nat → Nat → Except (List Nat) (List Nat)} (h : s.Right)
    (hvisit : Agrees s.path (visit s v) (visit' s.seen v)) :
    Agrees s.path (s.follow visit v) (if s.path.contains v then
      .error (v :: (s.path.takeWhile (· != v)).reverse) else visit' s.seen v) := by
  rw [CycleSearch.follow, h.places]
  cases hplace : (Graph.places s.path).lookup v with
  | some start =>
    have hmem : v ∈ s.path := Classical.not_not.mp fun hnew =>
      Option.some_ne_none start (hplace.symm.trans (lookup_places_eq_none.mpr hnew))
    rw [if_pos (List.contains_iff_mem.mpr hmem)]
    exact (of_lookup_places hplace).2
  | none =>
    rw [if_neg (by simpa using lookup_places_eq_none.mp hplace)]
    exact hvisit

/-- A search by places comes to what a search comes to. -/
theorem Right.search {g : Graph} {levels : Nat} (h : s.Right) :
    Agrees s.path (g.placedSearch levels s v) (g.searchCycle levels s.path s.seen v) := by
  induction levels generalizing s v with
  | zero => exact ⟨h, rfl, rfl⟩
  | succ levels ih =>
    rw [placedSearch, searchCycle]
    split
    · exact ⟨h, rfl, rfl⟩
    · rename_i hnew
      have hfold := (h.push (by simpa using hnew)).foldlM (g.targets v)
        (CycleSearch.follow (g.placedSearch levels))
        (fun seen target => if (v :: s.path).contains target then
            .error (target :: ((v :: s.path).takeWhile (· != target)).reverse)
          else g.searchCycle levels (v :: s.path) seen target)
        fun s' hs' hpath target => hpath ▸ hs'.follow (ih hs')
      exact hfold.pop

end CycleSearch

/-- The search by places finds the same cycle. -/
theorem placedCycle?_eq (g : Graph) (starts : List Nat) :
    g.placedCycle? starts = g.cycle? starts := by
  have hsearch := CycleSearch.Right.empty.foldlM starts (g.placedSearch (g.size + 1))
    (g.searchCycle (g.size + 1) []) fun s hs hpath v => by
      have hv : CycleSearch.Agrees s.path _ (g.searchCycle (g.size + 1) s.path s.seen v) :=
        hs.search
      rwa [hpath] at hv
  rw [placedCycle?, cycle?]
  revert hsearch
  cases starts.foldlM (g.placedSearch (g.size + 1)) {} with
  | error cycle =>
    cases starts.foldlM (g.searchCycle (g.size + 1) []) [] with
    | error cycle' => exact congrArg some
    | ok seen => exact False.elim
  | ok s =>
    cases starts.foldlM (g.searchCycle (g.size + 1) []) [] with
    | error cycle' => exact False.elim
    | ok seen => exact fun _ => rfl

end Graph

end Packrat
