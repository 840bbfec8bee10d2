import Packrat.Program.Basic
import Packrat.Tree.Basic

/-!
# Error nodes

`Tree.Marked` says that text was skipped in error nodes only: such a node is empty or has a leaf of
skipped text as its only child, and there are no such leaves elsewhere. The nodes of a kind are
listed in document order, so their starts never go back.
-/

namespace Packrat

namespace Tree

mutual

/-- Whether every error node of a tree is empty or has one leaf of skipped text as its only child,
and no such leaf occurs elsewhere. -/
def Marked : Tree → Prop
  | leaf kind _ => kind ≠ skippedKind
  | node kind children =>
    if kind = errorKind then children = [] ∨ ∃ text, children = [leaf skippedKind text]
    else MarkedAll children

/-- The same for all of some trees. -/
def MarkedAll : List Tree → Prop
  | [] => True
  | t :: ts => t.Marked ∧ MarkedAll ts

end

/-- Trees are marked when each of them is. -/
theorem markedAll_iff {ts : List Tree} : MarkedAll ts ↔ ∀ t ∈ ts, t.Marked := by
  induction ts with
  | nil => simp [MarkedAll]
  | cons t ts ih => simp [MarkedAll, ih]

/-- Trees one behind the other are marked when those before and those behind are. -/
theorem markedAll_append {as bs : List Tree} :
    MarkedAll (as ++ bs) ↔ MarkedAll as ∧ MarkedAll bs := by
  simp only [markedAll_iff, List.forall_mem_append]

variable {wanted start : Nat}

/-- The nodes of a kind in trees in a row are those of the first and those of the others. -/
theorem spansAmong_append (as bs : List Tree) :
    spansAmong wanted start (as ++ bs) =
      spansAmong wanted start as ++ spansAmong wanted (start + sizeAmong as) bs := by
  induction as generalizing start with
  | nil => simp [spansAmong, sizeAmong]
  | cons a as ih =>
    rw [List.cons_append, spansAmong, spansAmong, ih, sizeAmong, List.append_assoc, Nat.add_assoc]

/-- Leaves have no nodes in them. -/
theorem spansAmong_eq_nil_of_leaves {ts : List Tree}
    (h : ∀ t ∈ ts, ∃ kind text, t = leaf kind text) : spansAmong wanted start ts = [] := by
  induction ts generalizing start with
  | nil => rfl
  | cons t ts ih =>
    rw [List.forall_mem_cons] at h
    obtain ⟨⟨kind, text, rfl⟩, hts⟩ := h
    rw [spansAmong, ih hts]
    rfl

mutual

/-- Whether a tree has nodes of a kind does not depend on where it stands. -/
theorem spansOf_eq_nil_of {start start' : Nat} :
    (t : Tree) → t.spansOf wanted start = [] → t.spansOf wanted start' = []
  | leaf _ _, _ => rfl
  | node k children, h => by
    simp only [spansOf] at h ⊢
    split at h
    · cases h
    · rename_i hk
      rw [if_neg hk]
      exact spansAmong_eq_nil_of children h

/-- Whether there are nodes of a kind does not depend on where the trees start. -/
theorem spansAmong_eq_nil_of {start start' : Nat} :
    (ts : List Tree) → spansAmong wanted start ts = [] → spansAmong wanted start' ts = []
  | [], _ => rfl
  | t :: ts, h => by
    rw [spansAmong, List.append_eq_nil_iff] at h ⊢
    exact ⟨spansOf_eq_nil_of t h.1, spansAmong_eq_nil_of ts h.2⟩

end

mutual

/-- The nodes in a tree begin within it, and end no earlier than they begin. -/
theorem start_mem_spansOf {start : Nat} : (t : Tree) → ∀ span ∈ t.spansOf wanted start,
    start ≤ span.1 ∧ span.1 ≤ start + t.size ∧ span.1 ≤ span.2
  | leaf _ _, span, h => nomatch h
  | node k children, span, h => by
    simp only [spansOf] at h
    split at h
    · rcases List.mem_cons.mp h with rfl | h
      · simp
      · exact start_mem_spansAmong children span h
    · exact start_mem_spansAmong children span h

/-- Nodes start where the trees are, and do not end before they start. -/
theorem start_mem_spansAmong {start : Nat} : (ts : List Tree) →
    ∀ span ∈ spansAmong wanted start ts,
      start ≤ span.1 ∧ span.1 ≤ start + sizeAmong ts ∧ span.1 ≤ span.2
  | [], span, h => nomatch h
  | t :: ts, span, h => by
    rw [spansAmong, List.mem_append] at h
    rw [sizeAmong]
    rcases h with h | h
    · have := start_mem_spansOf t span h
      omega
    · have := start_mem_spansAmong ts span h
      omega

end

mutual

/-- The nodes of a kind come in the order in which they begin. -/
theorem pairwise_spansOf {start : Nat} :
    (t : Tree) → (t.spansOf wanted start).Pairwise fun a b => a.1 ≤ b.1
  | leaf _ _ => .nil
  | node k children => by
    simp only [spansOf]
    split
    · exact .cons (fun span h => (start_mem_spansAmong children span h).1)
        (pairwise_spansAmong children)
    · exact pairwise_spansAmong children

/-- The nodes of a kind are listed by their starts. -/
theorem pairwise_spansAmong {start : Nat} :
    (ts : List Tree) → (spansAmong wanted start ts).Pairwise fun a b => a.1 ≤ b.1
  | [] => .nil
  | t :: ts => by
    rw [spansAmong, List.pairwise_append]
    refine ⟨pairwise_spansOf t, pairwise_spansAmong ts, fun a ha b hb => ?_⟩
    have := start_mem_spansOf t a ha
    have := start_mem_spansAmong ts b hb
    omega

end

end Tree

end Packrat
