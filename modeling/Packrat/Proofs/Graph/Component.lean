import Packrat.Proofs.Guarded.Component

/-!
# Components are strongly connected

What the search takes from its stack is one component each time: the vertices that can be reached
from each other. The vertices that lie on the stack reach the one that is visited, and each of
those that were left there leads back to one with a lower number. So when a vertex leads back to
none below it, neither does anything above it on the stack, whatever can be reached from there
lies there or in a component that was found before, and all of it leads back to the vertex. As
nothing leads out of what was found before, the components come in order.
-/

namespace Packrat

namespace Graph

variable {g : Graph} {u v w : Nat} {l new below : List Nat}

/-- An edge leads from one of its ends to the other. -/
theorem Reaches.single (h : g.Adj v w) : g.Reaches v w := .step h (.refl w)

/-- What can be reached from something reachable can be reached. -/
theorem Reaches.trans (h : g.Reaches u v) (h' : g.Reaches v w) : g.Reaches u w := by
  induction h with
  | refl => exact h'
  | step first _ ih => exact .step first (ih h')

/-- Whether each of two vertices can be reached from the other. -/
def Joined (g : Graph) (v w : Nat) : Prop := g.Reaches v w ∧ g.Reaches w v

/-- Whether some vertices are all those that are joined to one of them. -/
def IsComponent (g : Graph) (l : List Nat) : Prop := ∃ v ∈ l, ∀ w, w ∈ l ↔ g.Joined v w

/-- In a component lie just those vertices that are joined to any one of it. -/
theorem IsComponent.mem_iff (h : g.IsComponent l) (hv : v ∈ l) : w ∈ l ↔ g.Joined v w := by
  obtain ⟨u, -, hl⟩ := h
  obtain ⟨huv, hvu⟩ := (hl v).mp hv
  rw [hl w]
  exact ⟨fun h => ⟨hvu.trans h.1, h.2.trans huv⟩, fun h => ⟨huv.trans h.1, h.2.trans hvu⟩⟩

namespace Survey

variable {s s' s'' : Survey} {n : Nat}

/-- The number of a vertex that was entered. -/
def num (s : Survey) (v : Nat) : Nat := (s.number? v).getD 0

/-- Whether the component of a vertex was found. -/
def Settled (s : Survey) (v : Nat) : Prop := ∃ c ∈ s.found, v ∈ c

/-- What holds of a search of a graph. -/
structure Valid (g : Graph) (s : Survey) : Prop where
  tracks : g.Tracks s.entered
  num_lt : ∀ v ∈ s.entered, s.num v < s.numbers.length
  nodup : s.stack.Nodup
  /-- What was entered lies on the stack or in a component. -/
  entered_iff : ∀ v, v ∈ s.entered ↔ v ∈ s.stack ∨ s.Settled v
  apart : ∀ v ∈ s.stack, ¬ s.Settled v
  /-- Nothing leads out of the components that were found. -/
  settled : ∀ v, s.Settled v → ∀ w, g.Adj v w → s.Settled w
  found : ∀ c ∈ s.found, g.IsComponent c
  /-- No vertex was found twice. -/
  once : s.found.flatten.Nodup
  /-- Nothing leads from a component to one that was found later. -/
  ordered : s.found.Pairwise fun later earlier => ∀ v ∈ earlier, ∀ w ∈ later, ¬ g.Reaches v w

/-- Whether a search has gone on from another state: what was entered keeps its number. -/
structure Keeps (s s' : Survey) : Prop where
  entered : ∀ v ∈ s.entered, v ∈ s'.entered
  length : s.numbers.length ≤ s'.numbers.length
  num : ∀ v ∈ s.entered, s'.num v = s.num v

/-- A survey keeps what it knows. -/
theorem Keeps.refl (s : Survey) : s.Keeps s := ⟨fun _ h => h, Nat.le_refl _, fun _ _ => rfl⟩

/-- What is kept twice is kept. -/
theorem Keeps.trans (h : s.Keeps s') (h' : s'.Keeps s'') : s.Keeps s'' where
  entered v hv := h'.entered v (h.entered v hv)
  length := Nat.le_trans h.length h'.length
  num v hv := (h'.num v (h.entered v hv)).trans (h.num v hv)

/-- What lies on the stack has been entered before. -/
theorem Valid.mem_entered (h : s.Valid g) (hv : v ∈ s.stack) : v ∈ s.entered :=
  (h.entered_iff v).mpr (.inl hv)

/-- Nothing leads out of the components that have been found. -/
theorem Valid.settled_of_reaches (h : s.Valid g) (hv : s.Settled v) (hw : g.Reaches v w) :
    s.Settled w := by
  induction hw with
  | refl => exact hv
  | step first _ ih => exact ih (h.settled _ hv _ first)

/-- At the start nothing has been entered, and all is as it should be. -/
theorem Valid.empty (g : Graph) : Valid g {} where
  tracks := .nil g
  num_lt := by simp [entered]
  nodup := List.nodup_nil
  entered_iff := by simp [entered, Settled]
  apart := by simp
  settled := by simp [Settled]
  found := by simp
  once := List.nodup_nil
  ordered := .nil

/-- What lies on a stack from a vertex on. -/
theorem splitAt_append_cons (h : v ∉ l) : splitAt v (l ++ v :: below) = (l ++ [v], below) := by
  induction l with
  | nil => simp [splitAt]
  | cons w l ih =>
    rw [List.mem_cons, not_or] at h
    rw [List.cons_append, splitAt, if_neg (Ne.symm h.1), ih h.2]
    rfl

section Entering

/-- A vertex is numbered by how many were entered before it. -/
theorem num_enter_self : (s.enter v).num v = s.numbers.length := by simp [num, number?, enter]

/-- Upon entering, a vertex leads back no further than to itself. -/
theorem low_enter_self : (s.enter v).low v = s.numbers.length := by simp [low, enter]

/-- To enter a vertex leaves the numbers of the others alone. -/
theorem num_enter (h : w ≠ v) : (s.enter v).num w = s.num w := by
  simp [num, number?, enter, List.lookup_cons, beq_false_of_ne h]

/-- To enter a vertex leaves alone how far the others lead back. -/
theorem low_enter (h : w ≠ v) : (s.enter v).low w = s.low w := by
  simp [low, enter, List.lookup_cons, beq_false_of_ne h]

/-- What is known of the vertices entered before stays known when a new one is entered. -/
theorem keeps_enter (hnew : v ∉ s.entered) : s.Keeps (s.enter v) where
  entered _ hw := List.mem_cons_of_mem v hw
  length := Nat.le_succ _
  num _ hw := num_enter (fun h => hnew (h ▸ hw))

/-- A survey stays as it should be when a new vertex is entered. -/
theorem Valid.enter (h : s.Valid g) (hv : v < g.size) (hnew : v ∉ s.entered) :
    (s.enter v).Valid g where
  tracks := h.tracks.cons hv hnew
  num_lt w hw := by
    rcases List.mem_cons.mp hw with rfl | hw
    · rw [num_enter_self]
      exact Nat.lt_succ_self _
    · rw [(keeps_enter hnew).num w hw]
      exact Nat.lt_succ_of_lt (h.num_lt w hw)
  nodup := List.nodup_cons.mpr ⟨fun hmem => hnew (h.mem_entered hmem), h.nodup⟩
  entered_iff w := by
    change w ∈ v :: s.entered ↔ w ∈ v :: s.stack ∨ s.Settled w
    rw [List.mem_cons, List.mem_cons, h.entered_iff w, or_assoc]
  apart w hw hsettled := by
    rcases List.mem_cons.mp hw with rfl | hw
    · exact hnew ((h.entered_iff w).mpr (.inr hsettled))
    · exact h.apart w hw hsettled
  settled := h.settled
  found := h.found
  once := h.once
  ordered := h.ordered

end Entering

section Lowering

/-- A vertex that is found to lead back to a lower number leads back that far. -/
theorem low_lower_self : (s.lower v n).low v = min (s.low v) n := by simp [low, lower]

/-- Only the vertex that is lowered leads back further than before. -/
theorem low_lower (h : w ≠ v) : (s.lower v n).low w = s.low w := by
  simp [low, lower, List.lookup_cons, beq_false_of_ne h]

/-- Lowering a vertex does not touch numbers, nor what has been entered. -/
theorem keeps_lower : s.Keeps (s.lower v n) := ⟨fun _ h => h, Nat.le_refl _, fun _ _ => rfl⟩

/-- A survey stays as it should be when a vertex is found to lead back further. -/
theorem Valid.lower (h : s.Valid g) : (s.lower v n).Valid g := { h with }

end Lowering

/-- The vertices above one on the stack that is being visited were left there. They can be reached
from it, and nothing in them leads below it to a number under a bound. -/
structure Pending (g : Graph) (s : Survey) (v : Nat) (new below : List Nat) (bound : Nat) :
    Prop where
  reached : ∀ u ∈ new, g.Reaches v u
  entered : ∀ u ∈ new, ∀ w, g.Adj u w → w ∈ s.entered
  back : ∀ u ∈ new, ∃ w ∈ s.stack, s.num w < s.num u ∧ g.Reaches u w
  bound_le : ∀ u ∈ new, ∀ w ∈ below, g.Adj u w → bound ≤ s.num w

/-- What was left on the stack stays so when the search goes on above it. -/
theorem Pending.keep {bound bound' : Nat} (h : Pending g s v new below bound)
    (hle : bound' ≤ bound) (hkeeps : s.Keeps s') (hnew : ∀ u ∈ new, u ∈ s.entered)
    (hbelow : ∀ u ∈ below, u ∈ s.entered)
    (hstack : ∀ u ∈ s.stack, u ∈ s'.stack ∧ s'.num u = s.num u) :
    Pending g s' v new below bound' where
  reached := h.reached
  entered u hu w huw := hkeeps.entered w (h.entered u hu w huw)
  back u hu := by
    obtain ⟨w, hw, hlt, huw⟩ := h.back u hu
    obtain ⟨hw', hnum⟩ := hstack w hw
    exact ⟨w, hw', by rwa [hnum, hkeeps.num u (hnew u hu)], huw⟩
  bound_le u hu w hw huw := by
    rw [hkeeps.num w (hbelow w hw)]
    exact Nat.le_trans hle (h.bound_le u hu w hw huw)

/-- What two visits have left on the stack is left there by both together. -/
theorem Pending.append {bound : Nat} (h : Pending g s v l below bound)
    (h' : Pending g s v new below bound) : Pending g s v (l ++ new) below bound where
  reached := List.forall_mem_append.mpr ⟨h.reached, h'.reached⟩
  entered := List.forall_mem_append.mpr ⟨h.entered, h'.entered⟩
  back := List.forall_mem_append.mpr ⟨h.back, h'.back⟩
  bound_le := List.forall_mem_append.mpr ⟨h.bound_le, h'.bound_le⟩

/-- How far the visit of a vertex has come that was begun in the state `s`: some targets were
followed, and `new` are the vertices that were left on the stack since. -/
structure Underway (g : Graph) (s : Survey) (v : Nat) (followed new : List Nat) (s' : Survey) :
    Prop where
  fresh : v ∉ s.entered
  begun : s.Valid g
  valid : s'.Valid g
  keeps : (s.enter v).Keeps s'
  lows : ∀ u ∈ s.entered, s'.low u = s.low u
  stack : s'.stack = new ++ v :: s.stack
  pending : Pending g s' v new s.stack (s'.low v)
  entered : ∀ w ∈ followed, w ∈ s'.entered
  low_le : ∀ w ∈ followed, w ∈ s.stack → s'.low v ≤ s'.num w
  low_le_num : s'.low v ≤ s'.num v
  low_eq : ∃ w ∈ s'.stack, s'.num w = s'.low v ∧ g.Reaches v w

/-- What the visit of a vertex comes to that was begun in the state `s`. Where the vertex is left
on the stack, it leads back to one with its lowest number. -/
structure Toured (g : Graph) (s : Survey) (v : Nat) (s' : Survey) : Prop where
  valid : s'.Valid g
  keeps : (s.enter v).Keeps s'
  lows : ∀ u ∈ s.entered, s'.low u = s.low u
  stack : ∃ new, s'.stack = new ++ s.stack ∧ Pending g s' v new s.stack (s'.low v)
  low_eq : s'.num v ≤ s'.low v ∨ ∃ w ∈ s'.stack, s'.num w = s'.low v ∧ g.Reaches v w

/-- The visit of a new vertex begins with no edge followed and nothing left on the stack above
it. -/
theorem Underway.enter (h : s.Valid g) (hv : v < g.size) (hnew : v ∉ s.entered) :
    Underway g s v [] [] (s.enter v) where
  fresh := hnew
  begun := h
  valid := h.enter hv hnew
  keeps := .refl _
  lows u hu := low_enter (fun h => hnew (h ▸ hu))
  stack := rfl
  pending := ⟨by simp, by simp, by simp, by simp⟩
  entered := by simp
  low_le := by simp
  low_le_num := by rw [low_enter_self, num_enter_self]
  low_eq := ⟨v, List.mem_cons_self, by rw [low_enter_self, num_enter_self], .refl v⟩

namespace Underway

variable {followed : List Nat}

/-- During the visit, the stack holds what the visit left there, the vertex itself and what was
there before it. -/
theorem mem_stack (h : Underway g s v followed new s') :
    u ∈ s'.stack ↔ u ∈ new ∨ u = v ∨ u ∈ s.stack := by
  rw [h.stack, List.mem_append, List.mem_cons]

/-- The vertex and what its visit has left above it lie on the stack. -/
theorem mem_stack_of_mem (h : Underway g s v followed new s') (hu : u ∈ new ++ [v]) :
    u ∈ s'.stack := by
  rw [h.stack, List.append_cons]
  exact List.mem_append_left _ hu

/-- The vertex that is visited has been entered. -/
theorem mem_entered (h : Underway g s v followed new s') : v ∈ s'.entered :=
  h.keeps.entered v List.mem_cons_self

/-- The number of the vertex is that with which its visit began. -/
theorem num_self (h : Underway g s v followed new s') : s'.num v = s.numbers.length := by
  rw [h.keeps.num v List.mem_cons_self, num_enter_self]

/-- What lies below the vertex was entered before it. -/
theorem num_lt (h : Underway g s v followed new s') (hu : u ∈ s.stack) : s'.num u < s'.num v := by
  have hentered := h.begun.mem_entered hu
  have hne : u ≠ v := fun huv => h.fresh (huv ▸ hentered)
  rw [h.num_self, h.keeps.num u (List.mem_cons_of_mem v hentered), num_enter hne]
  exact h.begun.num_lt u hentered

/-- What lies on the stack reaches the vertex: what was left there leads back to a lower number,
and that not for ever. -/
theorem reaches (h : Underway g s v followed new s') (hs : ∀ u ∈ s.stack, g.Reaches u v)
    (hu : u ∈ s'.stack) : g.Reaches u v := by
  induction hn : s'.num u using Nat.strongRecOn generalizing u with
  | ind n ih =>
    subst hn
    rcases h.mem_stack.mp hu with hu | rfl | hu
    · obtain ⟨w, hw, hlt, huw⟩ := h.pending.back u hu
      exact huw.trans (ih _ hlt hw rfl)
    · exact .refl u
    · exact hs u hu

/-- The lowest number of the vertex is lowered to one that it is found to lead back to behind a
further target. What was left on the stack behind that target goes with it. -/
theorem lower (h : Underway g s v followed new s') (hvalid : s''.Valid g) (hkeeps : s'.Keeps s'')
    (hlows : ∀ u ∈ s'.entered, s''.low u = s'.low u) (hstack : s''.stack = l ++ s'.stack)
    (hpending : Pending g s'' v l s.stack n) (hw : w ∈ s''.entered)
    (hn : w ∈ s.stack → n ≤ s''.num w)
    (heq : s''.num v ≤ n ∨ ∃ u ∈ s''.stack, s''.num u = n ∧ g.Reaches v u) :
    Underway g s v (followed ++ [w]) (l ++ new) (s''.lower v n) := by
  have hlow : (s''.lower v n).low v = min (s'.low v) n := by
    rw [low_lower_self, hlows v h.mem_entered]
  have hle : min (s'.low v) n ≤ s'.low v := Nat.min_le_left _ _
  have hentered : ∀ u ∈ s'.stack, u ∈ s'.entered := fun u hu => h.valid.mem_entered hu
  have hbelow : ∀ u ∈ s.stack, u ∈ s'.entered := fun u hu =>
    hentered u (h.mem_stack.mpr (.inr (.inr hu)))
  have hup : ∀ u ∈ s'.stack, u ∈ s''.stack ∧ s''.num u = s'.num u := fun u hu =>
    ⟨hstack ▸ List.mem_append_right l hu, hkeeps.num u (hentered u hu)⟩
  have hkept : Pending g s'' v new s.stack (min (s'.low v) n) :=
    h.pending.keep hle hkeeps (fun u hu => hentered u (h.mem_stack.mpr (.inl hu))) hbelow hup
  have hadded : Pending g s'' v l s.stack (min (s'.low v) n) :=
    { hpending with
      bound_le := fun u hu w hw huw =>
        Nat.le_trans (Nat.min_le_right _ _) (hpending.bound_le u hu w hw huw) }
  have hboth := hadded.append hkept
  refine ⟨h.fresh, h.begun, hvalid.lower, (h.keeps.trans hkeeps).trans keeps_lower,
    fun u hu => ?_, ?_, ?_, ?_, ?_, ?_, ?_⟩
  · have hne : u ≠ v := fun huv => h.fresh (huv ▸ hu)
    rw [low_lower hne, hlows u (h.keeps.entered u (List.mem_cons_of_mem v hu)), h.lows u hu]
  · rw [List.append_assoc, ← h.stack]
    exact hstack
  · rw [hlow]
    exact ⟨hboth.reached, hboth.entered, hboth.back, hboth.bound_le⟩
  · exact List.forall_mem_append.mpr
      ⟨fun u hu => hkeeps.entered u (h.entered u hu), List.forall_mem_singleton.mpr hw⟩
  · rw [hlow]
    refine List.forall_mem_append.mpr ⟨fun u hu hmem => ?_, List.forall_mem_singleton.mpr ?_⟩
    · exact (hkeeps.num u (hbelow u hmem)).symm ▸ Nat.le_trans hle (h.low_le u hu hmem)
    · exact fun hmem => Nat.le_trans (Nat.min_le_right _ _) (hn hmem)
  · rw [hlow]
    exact (hkeeps.num v h.mem_entered).symm ▸ Nat.le_trans hle h.low_le_num
  · rw [hlow]
    have hold : ∃ u ∈ s''.stack, s''.num u = s'.low v ∧ g.Reaches v u := by
      obtain ⟨u, hu, hnum, hreaches⟩ := h.low_eq
      exact ⟨u, (hup u hu).1, (hup u hu).2.trans hnum, hreaches⟩
    rcases Nat.le_total (s'.low v) n with hle | hle
    · rwa [Nat.min_eq_left hle]
    · rw [Nat.min_eq_right hle]
      rcases heq with hnum | heq
      · have hlow_le := h.low_le_num
        have hself := hkeeps.num v h.mem_entered
        obtain rfl : s'.low v = n := by omega
        exact hold
      · exact heq

/-- A target that was not entered before is visited. -/
theorem visit (h : Underway g s v followed new s') (hvw : g.Adj v w) (hnew : w ∉ s'.entered)
    (ht : Toured g s' w s'') :
    ∃ l, Underway g s v (followed ++ [w]) (l ++ new) (s''.lower v (s''.low w)) := by
  obtain ⟨l, hstack, hpending⟩ := ht.stack
  have hkeeps : s'.Keeps s'' := (keeps_enter hnew).trans ht.keeps
  have hw : w ∈ s''.entered := ht.keeps.entered w List.mem_cons_self
  refine ⟨l, h.lower ht.valid hkeeps ht.lows hstack ⟨fun u hu => ?_, hpending.entered,
    hpending.back, fun u hu x hx hux => ?_⟩ hw (fun hmem => ?_) ?_⟩
  · exact .step hvw (hpending.reached u hu)
  · exact hpending.bound_le u hu x (h.mem_stack.mpr (.inr (.inr hx))) hux
  · exact absurd (h.valid.mem_entered (h.mem_stack.mpr (.inr (.inr hmem)))) hnew
  · rcases ht.low_eq with hle | ⟨u, hu, hnum, hwu⟩
    · left
      have hlt := h.valid.num_lt v h.mem_entered
      have hself := hkeeps.num v h.mem_entered
      have hfirst : s''.num w = s'.numbers.length := by
        rw [ht.keeps.num w List.mem_cons_self, num_enter_self]
      omega
    · exact .inr ⟨u, hu, hnum, .step hvw hwu⟩

/-- A target that lies on the stack is one that the vertex leads back to. -/
theorem back (h : Underway g s v followed new s') (hvw : g.Adj v w) (hw : w ∈ s'.stack) :
    Underway g s v (followed ++ [w]) new (s'.lower v (s'.num w)) :=
  h.lower (l := []) h.valid (.refl s') (fun _ _ => rfl) rfl ⟨by simp, by simp, by simp, by simp⟩
    (h.valid.mem_entered hw) (fun _ => Nat.le_refl _) (.inr ⟨w, hw, rfl, .single hvw⟩)

/-- A target whose component was found changes nothing. -/
theorem pass (h : Underway g s v followed new s') (hw : w ∈ s'.entered) (hstack : w ∉ s'.stack) :
    Underway g s v (followed ++ [w]) new s' where
  __ := h
  entered := List.forall_mem_append.mpr ⟨h.entered, List.forall_mem_singleton.mpr hw⟩
  low_le := List.forall_mem_append.mpr ⟨h.low_le, List.forall_mem_singleton.mpr
    fun hmem => absurd (h.mem_stack.mpr (.inr (.inr hmem))) hstack⟩

/-- Going on to a target, if its visit comes to what one should. -/
theorem follow {visit : Survey → Nat → Survey} (h : Underway g s v followed new s')
    (hvw : g.Adj v w) (hvisit : w ∉ s'.entered → Toured g s' w (visit s' w)) :
    ∃ new', Underway g s v (followed ++ [w]) new' (s'.follow visit v w) := by
  unfold Survey.follow
  cases hnumber : s'.number? w with
  | none =>
    have hnew : w ∉ s'.entered := fun h => by simp [← number?_isSome, hnumber] at h
    obtain ⟨l, hl⟩ := h.visit hvw hnew (hvisit hnew)
    exact ⟨_, hl⟩
  | some n =>
    have hnum : s'.num w = n := by rw [num, hnumber, Option.getD_some]
    have hw : w ∈ s'.entered := number?_isSome.mp (by rw [hnumber, Option.isSome_some])
    dsimp only
    split
    · rename_i hstack
      exact ⟨_, hnum ▸ h.back hvw (List.contains_iff_mem.mp hstack)⟩
    · rename_i hstack
      exact ⟨_, h.pass hw fun hmem => hstack (List.contains_iff_mem.mpr hmem)⟩

/-- All targets of the vertex and of what was left above it on the stack were entered. -/
theorem entered_of_adj (h : Underway g s v followed new s')
    (hall : ∀ w, g.Adj v w → w ∈ followed) (hu : u ∈ new ++ [v]) (huw : g.Adj u w) :
    w ∈ s'.entered := by
  rcases List.mem_append.mp hu with hu | hu
  · exact h.pending.entered u hu w huw
  · obtain rfl := List.mem_singleton.mp hu
    exact h.entered w (hall w huw)

/-- Where the vertex leads back to none below it, nothing leads out of what lies on the stack from
it on, but to components that were found. -/
theorem closed (h : Underway g s v followed new s') (hall : ∀ w, g.Adj v w → w ∈ followed)
    (hlow : s'.num v = s'.low v) (hu : u ∈ new ++ [v]) (huw : g.Reaches u w) :
    w ∈ new ++ [v] ∨ s'.Settled w := by
  induction huw with
  | refl => exact .inl hu
  | @step u x w first rest ih =>
    have hx := (h.valid.entered_iff x).mp (h.entered_of_adj hall hu first)
    rcases hx with hstack | hsettled
    · refine ih ?_
      rcases h.mem_stack.mp hstack with hx | rfl | hx
      · exact List.mem_append_left _ hx
      · exact List.mem_append_right _ (List.mem_singleton_self x)
      · -- the number of a vertex below is lower than that of the vertex
        exfalso
        have hle : s'.low v ≤ s'.num x := by
          rcases List.mem_append.mp hu with hu | hu
          · exact h.pending.bound_le u hu x hx first
          · obtain rfl := List.mem_singleton.mp hu
            exact h.low_le x (hall x first) hx
        have hlt := h.num_lt hx
        omega
    · exact .inr (h.valid.settled_of_reaches hsettled rest)

/-- A vertex is not among what its own visit has left above it. -/
theorem not_mem_new (h : Underway g s v followed new s') : v ∉ new := by
  have hnodup := h.valid.nodup
  rw [h.stack] at hnodup
  exact fun hv => (List.nodup_append.mp hnodup).2.2 v hv v List.mem_cons_self rfl

/-- Where the vertex leads back to none below it, it makes a component with what was left above it
on the stack. -/
theorem isComponent (h : Underway g s v followed new s') (hall : ∀ w, g.Adj v w → w ∈ followed)
    (hlow : s'.num v = s'.low v) : g.IsComponent (new ++ [v]) := by
  have hv : v ∈ new ++ [v] := List.mem_append_right _ (List.mem_singleton_self v)
  have hback : ∀ u ∈ new ++ [v], g.Reaches u v := by
    intro u
    induction hn : s'.num u using Nat.strongRecOn generalizing u with
    | ind n ih =>
      subst hn
      intro hu
      rcases List.mem_append.mp hu with hnew | hself
      · obtain ⟨w, hw, hlt, huw⟩ := h.pending.back u hnew
        have hmem := (h.closed hall hlow hu huw).resolve_right (h.valid.apart w hw)
        exact huw.trans (ih _ hlt w rfl hmem)
      · rw [List.mem_singleton.mp hself]
        exact .refl v
  refine ⟨v, hv, fun w => ⟨fun hw => ⟨?_, hback w hw⟩, fun hw => ?_⟩⟩
  · rcases List.mem_append.mp hw with hnew | hself
    · exact h.pending.reached w hnew
    · rw [List.mem_singleton.mp hself]
      exact .refl v
  · refine (h.closed hall hlow hv hw.1).resolve_right fun hsettled => ?_
    exact h.valid.apart v (h.mem_stack_of_mem hv) (h.valid.settled_of_reaches hsettled hw.2)

/-- A vertex that has followed all of its edges and leads back to no lower number closes a
component: the visit ends with all that lies above the vertex taken from the stack. -/
theorem close (h : Underway g s v followed new s') (hall : ∀ w, g.Adj v w → w ∈ followed)
    (hlow : s'.num v = s'.low v) : Toured g s v (s'.close v) := by
  have hclose : s'.close v = { s' with stack := s.stack, found := (new ++ [v]) :: s'.found } := by
    rw [Survey.close, h.stack, splitAt_append_cons h.not_mem_new]
  have hsettled : ∀ u, (s'.close v).Settled u ↔ u ∈ new ++ [v] ∨ s'.Settled u := fun u => by
    rw [hclose]
    exact List.exists_mem_cons_iff _ _ _
  have hnodup := h.valid.nodup
  rw [h.stack, List.append_cons] at hnodup
  rw [hclose] at hsettled ⊢
  have hvalid : Valid g { s' with stack := s.stack, found := (new ++ [v]) :: s'.found } := {
    tracks := h.valid.tracks
    num_lt := h.valid.num_lt
    nodup := (List.nodup_append.mp hnodup).2.1
    entered_iff := fun u => by
      refine (h.valid.entered_iff u).trans ?_
      rw [hsettled, h.stack, List.append_cons, List.mem_append]
      tauto
    apart := fun u hu hmem => by
      rcases (hsettled u).mp hmem with hmem | hmem
      · exact (List.nodup_append.mp hnodup).2.2 u hmem u hu rfl
      · exact h.valid.apart u (h.mem_stack.mpr (.inr (.inr hu))) hmem
    settled := fun u hu w huw => by
      rw [hsettled] at hu ⊢
      rcases hu with hu | hu
      · exact h.closed hall hlow hu (.single huw)
      · exact .inr (h.valid.settled u hu w huw)
    found := List.forall_mem_cons.mpr ⟨h.isComponent hall hlow, h.valid.found⟩
    once := by
      rw [List.flatten_cons]
      refine List.nodup_append.mpr ⟨(List.nodup_append.mp hnodup).1, h.valid.once, ?_⟩
      rintro u hu w hw rfl
      exact h.valid.apart u (h.mem_stack_of_mem hu) (List.mem_flatten.mp hw)
    ordered := by
      refine List.pairwise_cons.mpr ⟨fun c hc u hu w hw huw => ?_, h.valid.ordered⟩
      have hfound := h.valid.settled_of_reaches ⟨c, hc, hu⟩ huw
      exact h.valid.apart w (h.mem_stack_of_mem hw) hfound }
  exact {
    valid := hvalid
    keeps := h.keeps.trans ⟨fun _ hu => hu, Nat.le_refl _, fun _ _ => rfl⟩
    lows := h.lows
    stack := ⟨[], rfl, by simp, by simp, by simp, by simp⟩
    low_eq := .inl (Nat.le_of_eq hlow) }

/-- Where the vertex leads back to one below it, it is left on the stack. -/
theorem stay (h : Underway g s v followed new s') (hall : ∀ w, g.Adj v w → w ∈ followed)
    (hlow : s'.num v ≠ s'.low v) : Toured g s v s' where
  valid := h.valid
  keeps := h.keeps
  lows := h.lows
  stack := by
    obtain ⟨w, hw, hnum, hvw⟩ := h.low_eq
    have hle := h.low_le_num
    refine ⟨new ++ [v], by rw [h.stack, List.append_cons], h.pending.append ⟨?_, ?_, ?_, ?_⟩⟩
    · exact List.forall_mem_singleton.mpr (.refl v)
    · exact List.forall_mem_singleton.mpr fun w hvw => h.entered w (hall w hvw)
    · exact List.forall_mem_singleton.mpr ⟨w, hw, by omega, hvw⟩
    · exact List.forall_mem_singleton.mpr fun w hw hvw => h.low_le w (hall w hvw) hw
  low_eq := .inr h.low_eq

/-- A vertex that has followed all of its edges and may lead back further than itself ends its
visit, closing a component or staying on the stack. -/
theorem leave (h : Underway g s v followed new s') (hall : ∀ w, g.Adj v w → w ∈ followed) :
    Toured g s v (s'.leave v) := by
  obtain ⟨n, hn⟩ := Option.isSome_iff_exists.mp (number?_isSome.mpr h.mem_entered)
  have hnum : s'.num v = n := by rw [num, hn, Option.getD_some]
  unfold Survey.leave
  split
  · rename_i hlow
    exact h.close hall (by rw [hnum]; exact Option.some.inj (hn.symm.trans hlow))
  · rename_i hlow
    exact h.stay hall fun heq => hlow (by rw [hn, ← hnum, heq])

end Underway

end Survey

open Survey

variable {s : Survey} {levels : Nat}

/-- The visit of a vertex that was not entered before, which everything on the stack reaches. -/
theorem survey_toured (hg : g.Closed) (hv : v < g.size) (hs : s.Valid g) (hnew : v ∉ s.entered)
    (hstack : ∀ u ∈ s.stack, g.Reaches u v) (hlevels : g.size < levels + s.numbers.length) :
    Toured g s v (g.survey levels s v) := by
  induction levels generalizing v s with
  | zero =>
    have hlength := hs.tracks.length_le
    rw [entered, List.length_map] at hlength
    omega
  | succ levels ih =>
    have hfollow : ∀ (ts followed new : List Nat) (s' : Survey), (∀ w ∈ ts, g.Adj v w) →
        Underway g s v followed new s' → ∃ new', Underway g s v (followed ++ ts) new'
          (ts.foldl (Survey.follow (g.survey levels) v) s') := by
      intro ts
      induction ts with
      | nil => exact fun followed new s' _ h => ⟨new, by rwa [List.append_nil]⟩
      | cons w ts ihts =>
        intro followed new s' hts h
        rw [List.forall_mem_cons] at hts
        have hlength : s.numbers.length + 1 ≤ s'.numbers.length := h.keeps.length
        obtain ⟨new', h'⟩ := h.follow hts.1 fun hw =>
          ih (hg v w hts.1) h.valid hw
            (fun u hu => (h.reaches hstack hu).trans (.single hts.1)) (by omega)
        obtain ⟨new'', h''⟩ := ihts _ _ _ hts.2 h'
        exact ⟨new'', by rwa [List.append_cons]⟩
    obtain ⟨new, h⟩ := hfollow (g.targets v) [] [] _ (fun w hw => hw) (.enter hs hv hnew)
    rw [Graph.survey]
    exact h.leave fun w hw => hw

/-- When the visit of a vertex ends that was begun with nothing on the stack, nothing lies there:
what was left would lead back to lower numbers for ever. -/
theorem Survey.Toured.stack_eq_nil {s' : Survey} (h : Toured g s v s') (hstack : s.stack = []) :
    s'.stack = [] := by
  obtain ⟨new, hnew, hpending⟩ := h.stack
  rw [hstack, List.append_nil] at hnew
  have hnone : ∀ u, u ∉ s'.stack := by
    intro u
    induction hn : s'.num u using Nat.strongRecOn generalizing u with
    | ind n ih =>
      subst hn
      intro hu
      obtain ⟨w, hw, hlt, -⟩ := hpending.back u (hnew ▸ hu)
      exact ih _ hlt w rfl hw
  exact List.eq_nil_iff_forall_not_mem.mpr hnone

/-- The search from some vertices settles them. -/
theorem settled_foldl (hg : g.Closed) {vs : List Nat} (hvs : ∀ v ∈ vs, v < g.size)
    (hs : s.Valid g) (hstack : s.stack = []) :
    let s' := vs.foldl (fun s v =>
      if (s.number? v).isSome then s else g.survey (g.size + 1) s v) s
    s'.Valid g ∧ s'.stack = [] ∧ (∀ v ∈ s.entered, v ∈ s'.entered) ∧ ∀ v ∈ vs, v ∈ s'.entered := by
  induction vs generalizing s with
  | nil => exact ⟨hs, hstack, fun _ hu => hu, by simp⟩
  | cons v vs ih =>
    rw [List.forall_mem_cons] at hvs
    rw [List.foldl_cons]
    split
    · rename_i hknown
      obtain ⟨hvalid, hstack', hkept, hothers⟩ := ih hvs.2 hs hstack
      exact ⟨hvalid, hstack', hkept, List.forall_mem_cons.mpr
        ⟨hkept v (number?_isSome.mp hknown), hothers⟩⟩
    · rename_i hnew
      rw [number?_isSome] at hnew
      have ht := survey_toured hg hvs.1 hs hnew (by simp [hstack])
        (by omega : g.size < g.size + 1 + s.numbers.length)
      obtain ⟨hvalid, hstack', hkept, hothers⟩ := ih hvs.2 ht.valid (ht.stack_eq_nil hstack)
      exact ⟨hvalid, hstack',
        fun u hu => hkept u (ht.keeps.entered u (List.mem_cons_of_mem v hu)),
        List.forall_mem_cons.mpr ⟨hkept v (ht.keeps.entered v List.mem_cons_self), hothers⟩⟩

/-- The search from all vertices ends with nothing on the stack. -/
theorem exists_valid_survey (hg : g.Closed) : ∃ s : Survey, g.components = s.found.reverse ∧
    s.Valid g ∧ s.stack = [] ∧ ∀ v < g.size, v ∈ s.entered := by
  obtain ⟨hvalid, hstack, -, hentered⟩ := settled_foldl hg
    (fun v (hv : v ∈ g.vertices) => List.mem_range.mp hv) (.empty g) rfl
  exact ⟨_, rfl, hvalid, hstack, fun v hv => hentered v (List.mem_range.mpr hv)⟩

/-- The search finds components only, and every vertex is in one of them. -/
theorem components_correct (hg : g.Closed) : (∀ c ∈ g.components, g.IsComponent c) ∧
    ∀ v < g.size, ∃ c ∈ g.components, v ∈ c := by
  obtain ⟨s, hfound, hvalid, hstack, hentered⟩ := exists_valid_survey hg
  rw [hfound]
  refine ⟨fun c hc => hvalid.found c (List.mem_reverse.mp hc), fun v hv => ?_⟩
  rcases (hvalid.entered_iff v).mp (hentered v hv) with hmem | ⟨c, hc, hvc⟩
  · rw [hstack] at hmem
    cases hmem
  · exact ⟨c, List.mem_reverse.mpr hc, hvc⟩

/-- A component comes behind all others that can be reached from it. -/
theorem pairwise_components (hg : g.Closed) :
    g.components.Pairwise fun earlier later => ∀ v ∈ earlier, ∀ w ∈ later, ¬ g.Reaches v w := by
  obtain ⟨s, hfound, hvalid, -⟩ := exists_valid_survey hg
  rw [hfound]
  exact List.pairwise_reverse.mpr hvalid.ordered

/-- No vertex is in two components, or in one of them twice. -/
theorem nodup_components (hg : g.Closed) : g.components.flatten.Nodup := by
  obtain ⟨s, hfound, hvalid, -⟩ := exists_valid_survey hg
  rw [hfound]
  exact (List.reverse_perm _).flatten.nodup_iff.mpr hvalid.once

/-- The components are a division of the vertices. -/
theorem flatten_components_perm (hg : g.Closed) : g.components.flatten.Perm g.vertices := by
  refine (List.perm_ext_iff_of_nodup (nodup_components hg) List.nodup_range).mpr fun v => ?_
  rw [List.mem_range, List.mem_flatten]
  constructor
  · rintro ⟨c, hc, hv⟩
    exact ((components_guarded hg).2 c hc).2 v hv
  · exact (components_correct hg).2 v

/-- Two vertices lie in one component if each can be reached from the other. -/
theorem mem_same_component_iff (hg : g.Closed) (hv : v < g.size) :
    (∃ c ∈ g.components, v ∈ c ∧ w ∈ c) ↔ g.Joined v w := by
  obtain ⟨hcomponents, hall⟩ := components_correct hg
  constructor
  · rintro ⟨c, hc, hvc, hwc⟩
    exact ((hcomponents c hc).mem_iff hvc).mp hwc
  · intro hjoined
    obtain ⟨c, hc, hvc⟩ := hall v hv
    exact ⟨c, hc, hvc, ((hcomponents c hc).mem_iff hvc).mpr hjoined⟩

/-- In a graph whose targets are vertices the search for components ends and looks up nothing that
is not there, and no number of levels above that of the vertices is too small or changes what is
found. No component is empty, and each vertex lies in one of them, once; two vertices lie in the
same one exactly if each can be reached from the other; and a component comes behind every other one
that can be reached from it. -/
theorem components_sorted (hg : g.Closed) :
    (∀ levels, g.size < levels → Guarded.componentsWithin g levels = .ok g.components) ∧
      (∀ c ∈ g.components, c ≠ []) ∧ g.components.flatten.Perm g.vertices ∧
      (∀ v < g.size, ∀ w < g.size, (∃ c ∈ g.components, v ∈ c ∧ w ∈ c) ↔
        g.Reaches v w ∧ g.Reaches w v) ∧
      ∀ (i j : Nat) (c d : List Nat), g.components[i]? = some c → g.components[j]? = some d →
        i ≠ j → (∃ v ∈ c, ∃ w ∈ d, g.Reaches v w) → j < i := by
  refine ⟨fun levels hlevels => ?_, fun c hc => ((components_guarded hg).2 c hc).1,
    flatten_components_perm hg, fun v hv w _ => mem_same_component_iff hg hv, ?_⟩
  · have hfound : Guarded.componentsWithin g (g.size + 1) = .ok g.components :=
      (components_guarded hg).1
    exact Guarded.componentsWithin_mono hlevels hfound
  · rintro i j c d hi hj hne ⟨v, hv, w, hw, hvw⟩
    -- an earlier component leads to no later one
    by_contra hle
    have hlt : i < j := by omega
    obtain ⟨hilt, rfl⟩ := List.getElem?_eq_some_iff.mp hi
    obtain ⟨hjlt, rfl⟩ := List.getElem?_eq_some_iff.mp hj
    have hapart := List.pairwise_iff_getElem.mp (pairwise_components hg) i j hilt hjlt hlt
    exact hapart v hv w hw hvw

/-- A cycle of three vertices that leads to one of two, and a vertex apart that leads to itself. -/
def twoCycles : Graph := #[[1], [2, 3], [0], [4], [3], [5]]

/-- The edges of the graph with two cycles lead to vertices of it. -/
theorem closed_twoCycles : twoCycles.Closed := by
  intro v w hvw
  by_cases hv : v < twoCycles.size
  · have hall : ∀ v < twoCycles.size, ∀ w ∈ twoCycles.targets v, w < twoCycles.size := by decide
    exact hall v hv w hvw
  · have hnone : twoCycles.targets v = [] := by
      rw [targets, Array.getElem?_eq_none (Nat.le_of_not_lt hv), Option.getD_none]
    rw [Adj, hnone] at hvw
    cases hvw

/-- The components of a graph with two cycles come with the one nothing leads out of first, each
with its last vertex first. -/
theorem components_sorted_twoCycles :
    twoCycles.Closed ∧ twoCycles.components = [[4, 3], [2, 1, 0], [5]] ∧
      (∀ levels, 6 < levels →
        Guarded.componentsWithin twoCycles levels = .ok [[4, 3], [2, 1, 0], [5]]) ∧
      (twoCycles.Reaches 0 2 ∧ twoCycles.Reaches 2 0) ∧ ¬ twoCycles.Joined 0 3 ∧
      ¬ twoCycles.Reaches 3 0 := by
  have hcomponents : twoCycles.components = [[4, 3], [2, 1, 0], [5]] := by decide +kernel
  obtain ⟨hlevels, -, -, hsame, hsorted⟩ := components_sorted closed_twoCycles
  rw [hcomponents] at hlevels hsame hsorted
  refine ⟨closed_twoCycles, hcomponents, hlevels, ?_, ?_, fun hreaches => ?_⟩
  · exact (hsame 0 (by decide) 2 (by decide)).mp (by decide)
  · exact fun hjoined => absurd ((hsame 0 (by decide) 3 (by decide)).mpr hjoined) (by decide)
  · have hlt := hsorted 0 1 [4, 3] [2, 1, 0] rfl rfl (by decide)
      ⟨3, by decide, 0, by decide, hreaches⟩
    omega

end Graph

end Packrat
