/-!
# Trees

A tree keeps every character of the text it was made from: its leaves, in order, spell the text.
Kinds are numbers in the table of the program that made the tree.
-/

namespace Packrat

/-- A tree over a text. -/
inductive Tree where
  | leaf (kind : Nat) (text : String)
  | node (kind : Nat) (children : List Tree)
  deriving Repr, Inhabited

namespace Tree

mutual

/-- Whether two trees are the same. -/
def same : Tree → Tree → Bool
  | leaf k s, leaf l t => k == l && s == t
  | node k as, node l bs => k == l && sameAll as bs
  | _, _ => false

/-- Whether two lists of trees are the same. -/
def sameAll : List Tree → List Tree → Bool
  | [], [] => true
  | a :: as, b :: bs => a.same b && sameAll as bs
  | _, _ => false

end

mutual

/-- A tree is the same as itself. -/
theorem same_refl : (a : Tree) → a.same a = true
  | leaf _ _ => by simp [same]
  | node _ as => by simp [same, sameAll_refl as]

/-- Trees in a list are the same as themselves. -/
theorem sameAll_refl : (as : List Tree) → sameAll as as = true
  | [] => by simp [sameAll]
  | a :: as => by simp [sameAll, same_refl a, sameAll_refl as]

end

mutual

/-- Trees that are found to be the same are equal. -/
theorem eq_of_same : (a b : Tree) → a.same b = true → a = b
  | leaf _ _, b, h => by cases b <;> simp_all [same]
  | node _ as, b, h => by
    cases b <;> simp only [same, Bool.false_eq_true, Bool.and_eq_true, beq_iff_eq] at h
    rw [h.1, eq_of_sameAll as _ h.2]

/-- Lists of trees that are found to be the same are equal. -/
theorem eq_of_sameAll : (as bs : List Tree) → sameAll as bs = true → as = bs
  | [], bs, h => by cases bs <;> simp_all [sameAll]
  | a :: as, bs, h => by
    cases bs <;> simp only [sameAll, Bool.false_eq_true, Bool.and_eq_true] at h
    rw [eq_of_same a _ h.1, eq_of_sameAll as _ h.2]

end

/-- Comparing trees decides equality. -/
theorem same_iff (a b : Tree) : a.same b = true ↔ a = b :=
  ⟨eq_of_same a b, fun h => h ▸ same_refl a⟩

instance : DecidableEq Tree := fun a b => decidable_of_iff _ (same_iff a b)

/-- The kind of a tree. -/
def kind : Tree → Nat
  | leaf k _ => k
  | node k _ => k

mutual

/-- The number of bytes that the leaves spell. -/
def size : Tree → Nat
  | leaf _ text => text.utf8ByteSize
  | node _ children => sizeAmong children

/-- The number of bytes that the leaves of some trees spell. -/
def sizeAmong : List Tree → Nat
  | [] => 0
  | t :: ts => t.size + sizeAmong ts

end

mutual

/-- The texts of the leaves, in order. -/
def leaves : Tree → List String
  | leaf _ text => [text]
  | node _ children => leavesAmong children

/-- The texts of the leaves of some trees. -/
def leavesAmong : List Tree → List String
  | [] => []
  | t :: ts => t.leaves ++ leavesAmong ts

end

/-- The text that the leaves spell. -/
def text (t : Tree) : String := String.join t.leaves

mutual

/-- The byte ranges of the nodes of a kind in a tree that starts at an offset, in document
order. -/
def spansOf (wanted : Nat) (start : Nat) : Tree → List (Nat × Nat)
  | leaf _ _ => []
  | node k children =>
    let inner := spansAmong wanted start children
    if k = wanted then (start, start + sizeAmong children) :: inner else inner

/-- The byte ranges of the nodes of a kind in trees that follow each other. -/
def spansAmong (wanted : Nat) (start : Nat) : List Tree → List (Nat × Nat)
  | [] => []
  | t :: ts => t.spansOf wanted start ++ spansAmong wanted (start + t.size) ts

end

end Tree

end Packrat
