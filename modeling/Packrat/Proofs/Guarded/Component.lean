import Mathlib.Data.List.Basic
import Mathlib.Data.List.Infix
import Packrat.Graph.Component
import Packrat.Proofs.Graph.Cycle
import Packrat.Proofs.Guarded.Basic

/-!
# The guarded search for components

The search looks up the numbers of vertices that it has entered only, and a vertex still lies on
the stack when its component is taken from there. So no component is empty. Levels only cut the
search off: it comes to the same with more of them.
-/

/-!
## Guarded searches of graphs

In a graph whose targets are vertices, searches look up what is there and end before their levels
do: the vertices that a search has seen are distinct, so there is a level left for a new one.
-/

namespace Packrat

namespace Guarded

/-- The targets of a vertex. -/
def targets (g : Graph) (v : Nat) : Guarded (List Nat) := demand .outOfRange g[v]?

/-- `Graph.explore` with its look-ups guarded. -/
def explore (g : Graph) : (levels : Nat) → (seen : List Nat) → Nat → Guarded (List Nat)
  | 0, _, _ => .error .endless
  | levels + 1, seen, v => do
    let next ← targets g v
    if seen.contains v then return seen else next.foldlM (explore g levels) (v :: seen)

/-- `Graph.reachable` with its look-ups guarded. -/
def reachable (g : Graph) (starts : List Nat) : Guarded (List Nat) :=
  starts.foldlM (explore g (g.size + 1)) []

/-- `Graph.searchCycle` with its look-ups guarded. `places` tells where on the way from its start
a vertex lies. -/
def searchCycle (g : Graph) : (levels : Nat) → (path : List Nat) → (places : List (Nat × Nat)) →
    (seen : List Nat) → Nat → Failing (List Nat) (List Nat)
  | 0, _, _, _, _ => throwThe Fault .endless
  | levels + 1, path, places, seen, v =>
    if seen.contains v then return seen
    else do
      let path' := v :: path
      let places := (v, path.length) :: places
      (← targets g v).foldlM (fun seen target => do
        match places.lookup target with
        | some start => throw (← suffix path'.reverse start)
        | none => searchCycle g levels path' places seen target) (v :: seen)

/-- `Graph.cycle?` with its look-ups guarded. -/
def cycle? (g : Graph) (starts : List Nat) : Guarded (Option (List Nat)) := do
  match ← (starts.foldlM (searchCycle g (g.size + 1) [] []) []).run with
  | .error cycle => return some cycle
  | .ok _ => return none

end Guarded

namespace Graph

variable {g : Graph} {levels v : Nat} {seen ts : List Nat}

/-- Whether the targets of vertices are vertices. -/
def Closed (g : Graph) : Prop := ∀ v w, g.Adj v w → w < g.size

/-- Whether the vertices that were seen are distinct vertices. -/
structure Tracks (g : Graph) (seen : List Nat) : Prop where
  nodup : seen.Nodup
  inside : ∀ v ∈ seen, v < g.size

/-- At the start no vertex has been seen. -/
theorem Tracks.nil (g : Graph) : g.Tracks [] := ⟨List.nodup_nil, by simp⟩

/-- A vertex that is new may be added to those that were seen. -/
theorem Tracks.cons (h : g.Tracks seen) (hv : v < g.size) (hnew : v ∉ seen) :
    g.Tracks (v :: seen) :=
  ⟨List.nodup_cons.mpr ⟨hnew, h.nodup⟩, List.forall_mem_cons.mpr ⟨hv, h.inside⟩⟩

/-- No more vertices are seen than there are. -/
theorem Tracks.length_le (h : g.Tracks seen) : seen.length ≤ g.size := by
  have hsubset : seen ⊆ List.range g.size := fun v hv => List.mem_range.mpr (h.inside v hv)
  have hlength := h.nodup.length_le_of_subset hsubset
  rwa [List.length_range] at hlength

/-- The edges of a vertex are looked up where they stand. -/
theorem guarded_targets (hv : v < g.size) : Guarded.targets g v = .ok (g.targets v) := by
  rw [Guarded.targets, Graph.targets, Array.getElem?_eq_getElem hv]
  rfl

/-- A search from a vertex meets no fault and sees only further vertices. -/
theorem explore_guarded (hg : g.Closed) (hv : v < g.size) (hseen : g.Tracks seen)
    (hlevels : g.size < levels + seen.length) :
    Guarded.explore g levels seen v = .ok (g.explore levels seen v) ∧
      g.Tracks (g.explore levels seen v) ∧ seen.length ≤ (g.explore levels seen v).length := by
  induction levels generalizing v seen with
  | zero =>
    have := hseen.length_le
    omega
  | succ levels ih =>
    rw [Guarded.explore, guarded_targets hv, Guarded.ok_bind, Graph.explore]
    split
    · exact ⟨rfl, hseen, Nat.le_refl _⟩
    · rename_i hnew
      have hstart := hseen.cons hv (by simpa using hnew)
      obtain ⟨hfold, htracks, hlength⟩ := Guarded.foldlM_eq
        (P := fun s => g.Tracks s ∧ seen.length + 1 ≤ s.length) (fun s w hw hs => by
          obtain ⟨htracks, hlength⟩ := hs
          obtain ⟨hexplore, htracks', hlength'⟩ := ih (hg v w hw) htracks (by omega)
          exact ⟨hexplore, htracks', Nat.le_trans hlength hlength'⟩)
        (⟨hstart, Nat.le_refl _⟩ : g.Tracks (v :: seen) ∧ seen.length + 1 ≤ (v :: seen).length)
      exact ⟨hfold, htracks, Nat.le_of_succ_le hlength⟩

/-- What can be reached is found without a look-up that fails. -/
theorem reachable_guarded (hg : g.Closed) {starts : List Nat} (hstarts : ∀ v ∈ starts, v < g.size) :
    Guarded.reachable g starts = .ok (g.reachable starts) := by
  refine (Guarded.foldlM_eq (P := g.Tracks) (fun s w hw htracks => ?_) (.nil g)).1
  have hlevels : g.size < g.size + 1 + s.length := by omega
  obtain ⟨hexplore, htracks, -⟩ := explore_guarded hg (hstarts w hw) htracks hlevels
  exact ⟨hexplore, htracks⟩

/-- Where on a way from its start each of its vertices lies. -/
def places : List Nat → List (Nat × Nat)
  | [] => []
  | v :: path => (v, path.length) :: places path

/-- A vertex has a place on the way just when it lies there. -/
theorem lookup_places_eq_none {path : List Nat} {t : Nat} :
    (places path).lookup t = none ↔ t ∉ path := by
  induction path with
  | nil => simp [places]
  | cons v path ih =>
    rw [places, List.lookup_cons, List.mem_cons, not_or]
    by_cases htv : t = v
    · simp [htv]
    · rw [beq_false_of_ne htv]
      simp [htv, ih]

/-- The way from a vertex on it. -/
theorem of_lookup_places {path : List Nat} {t start : Nat}
    (h : (places path).lookup t = some start) : start ≤ path.length ∧
      path.reverse.drop start = t :: (path.takeWhile (· != t)).reverse := by
  induction path with
  | nil => cases h
  | cons v path ih =>
    rw [places, List.lookup_cons] at h
    rw [List.reverse_cons, List.length_cons, List.takeWhile_cons]
    by_cases htv : t = v
    · subst htv
      simp only [beq_self_eq_true, Option.some.injEq] at h
      subst h
      simp
    · have hvt : (v != t) = true := by simpa [bne_iff_ne] using Ne.symm htv
      rw [beq_false_of_ne htv] at h
      obtain ⟨hle, hdrop⟩ := ih h
      rw [List.drop_append_of_le_length (by rwa [List.length_reverse]), hdrop, hvt]
      exact ⟨Nat.le_succ_of_le hle, by simp⟩

/-- A search for a cycle behind a vertex meets no fault. What it finds is a cycle of vertices. -/
theorem searchCycle_guarded (hg : g.Closed) {path : List Nat} (hpath : ∀ u ∈ path, u < g.size)
    (hv : v < g.size) (hseen : g.Tracks seen) (hlevels : g.size < levels + seen.length) :
    Guarded.searchCycle g levels path (places path) seen v =
        Guarded.lift (g.searchCycle levels path seen v) ∧
      Guarded.Yields (fun seen' => g.Tracks seen' ∧ seen.length ≤ seen'.length)
        (fun cycle => ∀ u ∈ cycle, u < g.size) (g.searchCycle levels path seen v) := by
  induction levels generalizing v seen path with
  | zero =>
    have := hseen.length_le
    omega
  | succ levels ih =>
    rw [Guarded.searchCycle, Graph.searchCycle]
    split
    · exact ⟨rfl, hseen, Nat.le_refl _⟩
    · rename_i hnew
      have hstart := hseen.cons hv (by simpa using hnew)
      have hpath' : ∀ u ∈ v :: path, u < g.size := List.forall_mem_cons.mpr ⟨hv, hpath⟩
      rw [guarded_targets hv, Guarded.liftM_ok_bind]
      refine (Guarded.foldlM_lift (P := fun s => g.Tracks s ∧ seen.length + 1 ≤ s.length)
        (Q := fun cycle => ∀ u ∈ cycle, u < g.size) (fun s w hw hs => ?_)
        ⟨hstart, Nat.le_refl _⟩).imp_right fun hyields => ?_
      · obtain ⟨htracks, hlength⟩ := hs
        rw [← places]
        by_cases hback : w ∈ v :: path
        · cases hlookup : (places (v :: path)).lookup w with
          | none => exact absurd hback (lookup_places_eq_none.mp hlookup)
          | some start =>
            obtain ⟨hle, hcycle⟩ := of_lookup_places hlookup
            rw [if_pos (by simpa using hback), ← hcycle]
            refine ⟨?_, fun u hu => ?_⟩
            · simp only [Guarded.suffix, List.length_reverse, hle, if_true]
              rfl
            · exact hpath' u (List.mem_reverse.mp (List.mem_of_mem_drop hu))
        · rw [lookup_places_eq_none.mpr hback, if_neg (by simpa using hback)]
          obtain ⟨hsearch, hyields⟩ := ih hpath' (hg v w hw) htracks (by omega)
          exact ⟨hsearch, hyields.imp fun s' h => ⟨h.1, Nat.le_trans hlength h.2⟩⟩
      · exact hyields.imp fun s h => ⟨h.1, Nat.le_of_succ_le h.2⟩

/-- The search for a cycle looks up nothing that is missing, and a cycle that it finds is one of
vertices. -/
theorem cycle?_guarded (hg : g.Closed) (starts : List Nat) (hstarts : ∀ v ∈ starts, v < g.size) :
    Guarded.cycle? g starts = .ok (g.cycle? starts) ∧
      ∀ cycle, g.cycle? starts = some cycle → ∀ v ∈ cycle, v < g.size := by
  obtain ⟨hfold, hyields⟩ := Guarded.foldlM_lift (P := g.Tracks)
    (Q := fun cycle => ∀ u ∈ cycle, u < g.size) (fun s w hw htracks => by
      have hlevels : g.size < g.size + 1 + s.length := by omega
      have hpath : ∀ u ∈ ([] : List Nat), u < g.size := by simp
      obtain ⟨hsearch, hyields⟩ := searchCycle_guarded hg hpath (hstarts w hw) htracks hlevels
      exact ⟨hsearch, hyields.imp fun _ h => h.1⟩) (.nil g)
  rw [places] at hfold
  rw [Guarded.cycle?, hfold, Graph.cycle?]
  cases hsearch : starts.foldlM (g.searchCycle (g.size + 1) []) [] with
  | ok seen => exact ⟨rfl, by simp⟩
  | error cycle =>
    rw [hsearch] at hyields
    refine ⟨rfl, fun _ h => ?_⟩
    cases h
    exact hyields

end Graph

end Packrat

/-! ## Components -/

namespace Packrat

namespace Guarded

/-- `Graph.Survey.lower` with its look-up guarded. -/
def lower (s : Graph.Survey) (v number : Nat) : Guarded Graph.Survey := do
  let low ← demand .noEntry (s.lows.lookup v)
  return { s with lows := (v, min low number) :: s.lows }

/-- `Graph.Survey.leave` with its look-ups guarded. -/
def leave (s : Graph.Survey) (v : Nat) : Guarded Graph.Survey := do
  let low ← demand .noEntry (s.lows.lookup v)
  let number ← demand .noEntry (s.number? v)
  if low = number then return s.close v else return s

/-- `Graph.Survey.follow` with its look-ups guarded. -/
def follow (visit : Graph.Survey → Nat → Guarded Graph.Survey) (v : Nat) (s : Graph.Survey)
    (target : Nat) : Guarded Graph.Survey := do
  if (s.number? target).isNone then
    let s ← visit s target
    lower s v (← demand .noEntry (s.lows.lookup target))
  else if s.stack.contains target then lower s v (← demand .noEntry (s.number? target))
  else return s

/-- `Graph.survey` with its look-ups guarded. -/
def survey (g : Graph) : (levels : Nat) → Graph.Survey → Nat → Guarded Graph.Survey
  | 0, _, _ => .error .endless
  | levels + 1, s, v => do
    leave (← (← targets g v).foldlM (follow (survey g levels) v) (s.enter v)) v

/-- `Graph.components` with its look-ups guarded. -/
def components (g : Graph) : Guarded (List (List Nat)) := do
  let s ← g.vertices.foldlM (fun s v =>
    if (s.number? v).isSome then return s else survey g (g.size + 1) s v) ({} : Graph.Survey)
  return s.found.reverse

section

variable {g : Graph} {levels levels' v w : Nat} {s s' : Graph.Survey}

/-- Going on to a target comes to the same if visits succeed more often. -/
theorem follow_mono {visit visit' : Graph.Survey → Nat → Guarded Graph.Survey}
    (hvisit : ∀ s w s', visit s w = .ok s' → visit' s w = .ok s')
    (h : follow visit v s w = .ok s') : follow visit' v s w = .ok s' := by
  unfold follow at h ⊢
  split
  · rename_i hnew
    rw [if_pos hnew] at h
    obtain ⟨s₁, hvisited, hlowered⟩ := Except.of_bind_ok h
    rw [hvisit s w s₁ hvisited]
    exact hlowered
  · rename_i hnew
    rw [if_neg hnew] at h
    exact h

/-- Levels only cut a visit off: one that ends within some levels comes to the same within more. -/
theorem survey_mono (hle : levels ≤ levels') (h : survey g levels s v = .ok s') :
    survey g levels' s v = .ok s' := by
  induction levels generalizing levels' s v s' with
  | zero => cases h
  | succ levels ih =>
    obtain ⟨more, rfl⟩ : ∃ more, levels' = more + 1 := ⟨levels' - 1, by omega⟩
    rw [survey] at h ⊢
    obtain ⟨ts, htargets, hrest⟩ := Except.of_bind_ok h
    obtain ⟨s₁, hfollowed, hleft⟩ := Except.of_bind_ok hrest
    have hvisit : ∀ s w s', survey g levels s w = .ok s' → survey g more s w = .ok s' :=
      fun s w s' hvisited => ih (by omega) hvisited
    have hfollow := foldlM_mono (fun s w s' hfollow => follow_mono hvisit hfollow) hfollowed
    rw [htargets, ok_bind, hfollow]
    exact hleft

/-- `Guarded.components` with a number of levels of its own. -/
def componentsWithin (g : Graph) (levels : Nat) : Guarded (List (List Nat)) := do
  let s ← g.vertices.foldlM (fun s v =>
    if (s.number? v).isSome then return s else survey g levels s v) ({} : Graph.Survey)
  return s.found.reverse

/-- A search that is not cut off comes to the same with more levels. -/
theorem componentsWithin_mono {found : List (List Nat)} (hle : levels ≤ levels')
    (h : componentsWithin g levels = .ok found) : componentsWithin g levels' = .ok found := by
  rw [componentsWithin] at h ⊢
  obtain ⟨s, hsearched, hfound⟩ := Except.of_bind_ok h
  have hstep : ∀ (s : Graph.Survey) (v : Nat) s',
      (if (s.number? v).isSome then return s else survey g levels s v) = .ok s' →
        (if (s.number? v).isSome then return s else survey g levels' s v) = .ok s' := by
    intro s v s' hvisited
    split
    · rename_i hknown
      rwa [if_pos hknown] at hvisited
    · rename_i hnew
      rw [if_neg hnew] at hvisited
      exact survey_mono hle hvisited
  rw [foldlM_mono hstep hsearched]
  exact hfound

end

end Guarded

namespace Graph

namespace Survey

variable {g : Graph} {s s' s'' : Survey} {v w n : Nat} {l rest : List Nat}

/-- The vertices that were entered. -/
def entered (s : Survey) : List Nat := s.numbers.map Prod.fst

/-- A vertex has a number just when it has been entered. -/
theorem number?_isSome : (s.number? v).isSome = true ↔ v ∈ s.entered := by
  rw [number?, entered]
  induction s.numbers with
  | nil => simp
  | cons entry numbers ih =>
    obtain ⟨w, n⟩ := entry
    rw [List.lookup_cons, List.map_cons, List.mem_cons, ← ih]
    by_cases hvw : v = w
    · simp [hvw]
    · simp [hvw, beq_false_of_ne hvw]

/-- What is taken from the stack and what is left there make up the stack. -/
theorem splitAt_append (v : Nat) (l : List Nat) : (splitAt v l).1 ++ (splitAt v l).2 = l := by
  induction l with
  | nil => rfl
  | cons w l ih =>
    rw [splitAt]
    split
    · rfl
    · rw [List.cons_append, ih]

/-- From a stack that is not empty something is taken. -/
theorem splitAt_fst_ne_nil (h : l ≠ []) : (splitAt v l).1 ≠ [] := by
  cases l with
  | nil => exact absurd rfl h
  | cons w l =>
    rw [splitAt]
    split <;> simp

/-- What lies below a vertex is left. -/
theorem suffix_splitAt (h : v :: rest <:+ l) : rest <:+ (splitAt v l).2 := by
  induction l with
  | nil => simp at h
  | cons w l ih =>
    rw [splitAt]
    rcases List.suffix_cons_iff.mp h with heq | hsuffix
    · obtain ⟨rfl, rfl⟩ := List.cons_eq_cons.mp heq
      rw [if_pos rfl]
    · split
      · exact (List.suffix_cons v rest).trans hsuffix
      · exact ih hsuffix

/-- What holds of a search for components of a graph. -/
structure Sound (g : Graph) (s : Survey) : Prop where
  tracks : g.Tracks s.entered
  lows : ∀ v ∈ s.entered, ∃ low, s.lows.lookup v = some low
  stack : ∀ v ∈ s.stack, v < g.size
  found : ∀ component ∈ s.found, component ≠ [] ∧ ∀ v ∈ component, v < g.size

/-- Whether a search has gone on from another state: what was entered is kept, and what lies on
the stack is still there. -/
structure Grows (s s' : Survey) : Prop where
  entered : ∀ v ∈ s.entered, v ∈ s'.entered
  length : s.numbers.length ≤ s'.numbers.length
  stack : s.stack <:+ s'.stack

/-- A survey has grown out of itself. -/
theorem Grows.refl (s : Survey) : s.Grows s := ⟨fun _ h => h, Nat.le_refl _, List.suffix_rfl⟩

/-- A survey that grows twice has grown. -/
theorem Grows.trans (h : s.Grows s') (h' : s'.Grows s'') : s.Grows s'' :=
  ⟨fun v hv => h'.entered v (h.entered v hv), Nat.le_trans h.length h'.length,
    h.stack.trans h'.stack⟩

/-- A survey that has not begun is sound. -/
theorem Sound.empty (g : Graph) : Sound g {} where
  tracks := .nil g
  lows := by simp [entered]
  stack := by simp
  found := by simp

/-- A survey stays sound when a new vertex is entered. -/
theorem Sound.enter (h : s.Sound g) (hv : v < g.size) (hnew : v ∉ s.entered) :
    (s.enter v).Sound g where
  tracks := h.tracks.cons hv hnew
  lows w hw := by
    rw [Survey.enter, List.lookup_cons]
    by_cases hwv : w = v
    · exact ⟨s.numbers.length, by rw [hwv, beq_self_eq_true]⟩
    · rw [beq_false_of_ne hwv]
      exact h.lows w ((List.mem_cons.mp hw).resolve_left hwv)
  stack := List.forall_mem_cons.mpr ⟨hv, h.stack⟩
  found := h.found

/-- A survey stays sound when a vertex is found to lead back further. -/
theorem Sound.lower (h : s.Sound g) : (s.lower v n).Sound g where
  tracks := h.tracks
  lows w hw := by
    rw [Survey.lower, List.lookup_cons]
    by_cases hwv : w = v
    · exact ⟨_, by rw [hwv, beq_self_eq_true]⟩
    · rw [beq_false_of_ne hwv]
      exact h.lows w hw
  stack := h.stack
  found := h.found

/-- Lowering a vertex takes nothing away. -/
theorem grows_lower : s.Grows (s.lower v n) := ⟨fun _ h => h, Nat.le_refl _, List.suffix_rfl⟩

/-- Of a vertex that was entered, it can be looked up how far it leads back. -/
theorem lower_guarded (h : s.Sound g) (hv : v ∈ s.entered) :
    Guarded.lower s v n = .ok (s.lower v n) := by
  obtain ⟨low, hlow⟩ := h.lows v hv
  rw [Guarded.lower, Survey.lower, Survey.low, hlow]
  rfl

/-- A survey stays sound when a component is taken from a stack that is not empty. -/
theorem Sound.close (h : s.Sound g) (hstack : s.stack ≠ []) : (s.close v).Sound g := by
  have happend := splitAt_append v s.stack
  refine ⟨h.tracks, h.lows, fun w hw => h.stack w ?_, ?_⟩
  · rw [← happend]
    exact List.mem_append_right _ hw
  · refine List.forall_mem_cons.mpr ⟨⟨splitAt_fst_ne_nil hstack, fun w hw => h.stack w ?_⟩, h.found⟩
    rw [← happend]
    exact List.mem_append_left _ hw

end Survey

open Survey

variable {g : Graph} {s s' : Survey} {levels v w : Nat}

/-- A vertex that was entered is left without a look-up that fails. -/
theorem leave_guarded (hs : s.Sound g) (hv : v ∈ s.entered) (hstack : s.stack ≠ []) :
    Guarded.leave s v = .ok (s.leave v) ∧ (s.leave v).Sound g := by
  obtain ⟨low, hlow⟩ := hs.lows v hv
  obtain ⟨n, hn⟩ := Option.isSome_iff_exists.mp (number?_isSome.mpr hv)
  have hguarded : Guarded.leave s v = .ok (if low = n then s.close v else s) := by
    rw [Guarded.leave, hlow, hn]
    simp only [Guarded.demand, Guarded.ok_bind]
    split <;> rfl
  have hleave : s.leave v = if low = n then s.close v else s := by
    rw [Survey.leave, hn, Survey.low, hlow, Option.getD_some]
    exact if_congr (by rw [Option.some.injEq, eq_comm]) rfl rfl
  refine ⟨by rw [hguarded, hleave], ?_⟩
  rw [hleave]
  split
  · exact hs.close hstack
  · exact hs

/-- What was entered is kept, and what lies below the vertex on the stack is left there. -/
theorem of_leave (s : Survey) (v : Nat) : (s.leave v).numbers = s.numbers ∧
    ∀ rest, v :: rest <:+ s.stack → rest <:+ (s.leave v).stack := by
  unfold Survey.leave
  split
  · exact ⟨rfl, fun rest h => suffix_splitAt h⟩
  · exact ⟨rfl, fun rest h => (List.suffix_cons v rest).trans h⟩

/-- What a visit of a vertex comes to. -/
structure Visited (g : Graph) (s : Survey) (v : Nat) (s' : Survey) : Prop where
  sound : s'.Sound g
  grows : s.Grows s'
  entered : v ∈ s'.entered

/-- An edge is followed without a look-up that fails, if its target can be visited so. -/
theorem follow_guarded {visit : Survey → Nat → Guarded Survey} {visit' : Survey → Nat → Survey}
    (hvisit : w ∉ s.entered → visit s w = .ok (visit' s w) ∧ g.Visited s w (visit' s w))
    (hs : s.Sound g) (hv : v ∈ s.entered) :
    Guarded.follow visit v s w = .ok (s.follow visit' v w) ∧ (s.follow visit' v w).Sound g ∧
      s.Grows (s.follow visit' v w) := by
  unfold Guarded.follow Survey.follow
  cases hnumber : s.number? w with
  | none =>
    have hnew : w ∉ s.entered := fun h => by simp [← number?_isSome, hnumber] at h
    obtain ⟨hok, hvisited⟩ := hvisit hnew
    obtain ⟨low, hlow⟩ := hvisited.sound.lows w hvisited.entered
    have hlower := lower_guarded (n := (visit' s w).low w) hvisited.sound
      (hvisited.grows.entered v hv)
    rw [Survey.low, hlow] at hlower
    simp only [Option.isNone_none, if_true, hok, Guarded.ok_bind, hlow, Guarded.demand,
      Survey.low]
    exact ⟨hlower, hvisited.sound.lower, hvisited.grows.trans grows_lower⟩
  | some n =>
    simp only [Option.isNone_some, Bool.false_eq_true, if_false, Guarded.demand]
    split
    · exact ⟨lower_guarded hs hv, hs.lower, grows_lower⟩
    · exact ⟨rfl, hs, .refl s⟩

/-- A visit of a vertex that was not entered before meets no fault. -/
theorem survey_guarded (hg : g.Closed) (hv : v < g.size) (hs : s.Sound g) (hnew : v ∉ s.entered)
    (hlevels : g.size < levels + s.numbers.length) :
    Guarded.survey g levels s v = .ok (g.survey levels s v) ∧
      g.Visited s v (g.survey levels s v) := by
  induction levels generalizing v s with
  | zero =>
    have hlength := hs.tracks.length_le
    rw [entered, List.length_map] at hlength
    omega
  | succ levels ih =>
    have hstart : (s.enter v).Sound g := hs.enter hv hnew
    have hfollow : ∀ s', ∀ w ∈ g.targets v, s'.Sound g ∧ (s.enter v).Grows s' →
        Guarded.follow (Guarded.survey g levels) v s' w = .ok (s'.follow (g.survey levels) v w) ∧
          (s'.follow (g.survey levels) v w).Sound g ∧
          (s.enter v).Grows (s'.follow (g.survey levels) v w) := by
      rintro s' w hw ⟨hsound, hgrows⟩
      have hlength : s.numbers.length + 1 ≤ s'.numbers.length := hgrows.length
      obtain ⟨hok, hsound', hgrows'⟩ := follow_guarded
        (fun hnew => ih (hg v w hw) hsound hnew (by omega)) hsound
        (hgrows.entered v List.mem_cons_self)
      exact ⟨hok, hsound', hgrows.trans hgrows'⟩
    obtain ⟨hfold, hsound, hgrows⟩ := Guarded.foldlM_eq hfollow ⟨hstart, .refl _⟩
    have hentered := hgrows.entered v List.mem_cons_self
    obtain ⟨hleave, hleft⟩ := leave_guarded hsound hentered fun hempty => by
      have := hgrows.stack
      rw [hempty] at this
      simp [Survey.enter] at this
    rw [Guarded.survey, guarded_targets hv, Guarded.ok_bind, Graph.survey, hfold, Guarded.ok_bind]
    obtain ⟨hnumbers, hstack⟩ := of_leave
      ((g.targets v).foldl (Survey.follow (g.survey levels) v) (s.enter v)) v
    refine ⟨hleave, hleft, ⟨fun w hw => ?_, ?_, hstack _ hgrows.stack⟩, ?_⟩
    · rw [entered, hnumbers]
      exact hgrows.entered w (List.mem_cons_of_mem _ hw)
    · rw [hnumbers]
      exact Nat.le_of_succ_le hgrows.length
    · rw [entered, hnumbers]
      exact hentered

/-- The search for components meets no fault, and no component that it finds is empty. -/
theorem components_guarded (hg : g.Closed) : Guarded.components g = .ok g.components ∧
    ∀ component ∈ g.components, component ≠ [] ∧ ∀ v ∈ component, v < g.size := by
  have hvisit : ∀ s : Survey, ∀ v ∈ g.vertices, s.Sound g →
      (if (s.number? v).isSome then return s else Guarded.survey g (g.size + 1) s v) =
          .ok (if (s.number? v).isSome then s else g.survey (g.size + 1) s v) ∧
        (if (s.number? v).isSome then s else g.survey (g.size + 1) s v).Sound g := by
    intro s v hv hs
    split
    · exact ⟨rfl, hs⟩
    · rename_i hnew
      obtain ⟨hok, hvisited⟩ := survey_guarded hg (List.mem_range.mp hv) hs
        (fun h => hnew (number?_isSome.mpr h)) (by omega : g.size < g.size + 1 + s.numbers.length)
      exact ⟨hok, hvisited.sound⟩
  obtain ⟨hfold, hsound⟩ := Guarded.foldlM_eq hvisit (.empty g)
  refine ⟨?_, fun component hcomponent => hsound.found component (List.mem_reverse.mp hcomponent)⟩
  rw [Guarded.components, hfold]
  rfl

end Graph

end Packrat
