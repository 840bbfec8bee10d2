import Packrat.Tree.Basic
import Packrat.Proofs.Text.Position

/-!
# Trees that tile a text

`Tree.Tiles` says that a tree covers a stretch of a text: every leaf is a stretch of its own with
the text that stands there, and the children of a node follow each other from the start of the
node to its end. A tree that tiles a stretch spells it.
-/

namespace Packrat

namespace Tree

mutual

/-- Whether a tree covers a stretch of a text. -/
def Tiles (text : Text) : Tree → (start stop : Nat) → Prop
  | leaf _ written, start, stop =>
    start < stop ∧ text.isBoundary start = true ∧ text.isBoundary stop = true ∧
      written = text.slice start stop
  | node _ children, start, stop => TilesAll text children start stop

/-- Whether trees that follow each other cover a stretch of a text. -/
def TilesAll (text : Text) : List Tree → (start stop : Nat) → Prop
  | [], start, stop => start = stop
  | t :: ts, start, stop => ∃ middle, t.Tiles text start middle ∧ TilesAll text ts middle stop

end

variable {text : Text}

/-- No trees cover no text. -/
theorem tilesAll_nil (text : Text) (p : Nat) : TilesAll text [] p p := rfl

/-- One tree covers what it covers. -/
theorem tilesAll_singleton {t : Tree} {start stop : Nat} :
    TilesAll text [t] start stop ↔ t.Tiles text start stop := by
  simp [TilesAll]

/-- Trees in a row cover what the first of them and the others cover. -/
theorem tilesAll_append {as bs : List Tree} {start stop : Nat} :
    TilesAll text (as ++ bs) start stop ↔
      ∃ middle, TilesAll text as start middle ∧ TilesAll text bs middle stop := by
  induction as generalizing start with
  | nil => simp [TilesAll]
  | cons a as ih =>
    simp only [List.cons_append, TilesAll, ih]
    constructor
    · rintro ⟨p, ha, q, has, hbs⟩
      exact ⟨q, ⟨p, ha, has⟩, hbs⟩
    · rintro ⟨q, ⟨p, ha, has⟩, hbs⟩
      exact ⟨p, ha, q, has, hbs⟩

/-- Trees one behind the other cover one stretch behind the other. -/
theorem TilesAll.append {as bs : List Tree} {start middle stop : Nat}
    (has : TilesAll text as start middle) (hbs : TilesAll text bs middle stop) :
    TilesAll text (as ++ bs) start stop :=
  tilesAll_append.mpr ⟨middle, has, hbs⟩

mutual

/-- No tree ends before it begins. -/
theorem Tiles.le {start stop : Nat} : (t : Tree) → t.Tiles text start stop → start ≤ stop
  | leaf _ _, h => Nat.le_of_lt h.1
  | node _ children, h => TilesAll.le children h

/-- Trees that follow each other do not end before they begin. -/
theorem TilesAll.le {start stop : Nat} : (ts : List Tree) → TilesAll text ts start stop →
    start ≤ stop
  | [], h => Nat.le_of_eq h
  | t :: ts, ⟨_, ht, hts⟩ => Nat.le_trans (Tiles.le t ht) (TilesAll.le ts hts)

end

mutual

/-- A tree that begins at a boundary ends at one. -/
theorem Tiles.isBoundary {start stop : Nat} (hstart : text.isBoundary start = true) :
    (t : Tree) → t.Tiles text start stop → text.isBoundary stop = true
  | leaf _ _, h => h.2.2.1
  | node _ children, h => TilesAll.isBoundary hstart children h

/-- What covers a stretch that starts at a boundary ends at a boundary. -/
theorem TilesAll.isBoundary {start stop : Nat} (hstart : text.isBoundary start = true) :
    (ts : List Tree) → TilesAll text ts start stop → text.isBoundary stop = true
  | [], h => h ▸ hstart
  | t :: ts, ⟨_, ht, hts⟩ => TilesAll.isBoundary (Tiles.isBoundary hstart t ht) ts hts

end

mutual

/-- A tree is as large as the stretch that it covers. -/
theorem Tiles.size_eq {start stop : Nat} :
    (t : Tree) → t.Tiles text start stop → start + t.size = stop
  | leaf _ _, ⟨hlt, hstart, hstop, hwritten⟩ => by
    rw [size, hwritten, Text.utf8ByteSize_slice hstart hstop (by omega)]
    omega
  | node _ children, h => TilesAll.size_eq children h

/-- The bytes that trees spell are those of the stretch that they cover. -/
theorem TilesAll.size_eq {start stop : Nat} :
    (ts : List Tree) → TilesAll text ts start stop → start + sizeAmong ts = stop
  | [], h => h
  | t :: ts, ⟨_, ht, hts⟩ => by
    have hhead := Tiles.size_eq t ht
    have htail := TilesAll.size_eq ts hts
    rw [sizeAmong]
    omega

end

mutual

/-- The leaves of a tree spell the stretch that it covers. -/
theorem Tiles.join_leaves {start stop : Nat} (hstart : text.isBoundary start = true) :
    (t : Tree) → t.Tiles text start stop → String.join t.leaves = text.slice start stop
  | leaf _ _, h => by
    rw [leaves, h.2.2.2]
    simp [String.join]
  | node _ children, h => TilesAll.join_leaves hstart children h

/-- The leaves of trees spell the stretch that the trees cover. -/
theorem TilesAll.join_leaves {start stop : Nat} (hstart : text.isBoundary start = true) :
    (ts : List Tree) → TilesAll text ts start stop →
      String.join (leavesAmong ts) = text.slice start stop
  | [], h => by
    have h : start = stop := h
    rw [h, Text.slice_self]
    rfl
  | t :: ts, ⟨middle, ht, hts⟩ => by
    have hmiddle := Tiles.isBoundary hstart t ht
    rw [leavesAmong, String.join_append, Tiles.join_leaves hstart t ht,
      TilesAll.join_leaves hmiddle ts hts]
    exact Text.slice_append_slice hstart hmiddle (TilesAll.isBoundary hmiddle ts hts)
      (Tiles.le t ht) (TilesAll.le ts hts)

end

mutual

/-- No leaf of a tree that covers a stretch is empty. -/
theorem Tiles.leaves_ne_empty {start stop : Nat} :
    (t : Tree) → t.Tiles text start stop → ∀ written ∈ t.leaves, written ≠ ""
  | leaf _ written, ⟨hlt, hstart, hstop, hwritten⟩, s, hs, hempty => by
    have hs : s = written := by simpa [leaves] using hs
    have hsize := Text.utf8ByteSize_slice hstart hstop (by omega)
    rw [← hwritten, ← hs, hempty] at hsize
    have : ("" : String).utf8ByteSize = 0 := rfl
    omega
  | node _ children, h, s, hs, hempty => TilesAll.leaves_ne_empty children h s hs hempty

/-- No leaf of trees that cover a stretch is empty. -/
theorem TilesAll.leaves_ne_empty {start stop : Nat} :
    (ts : List Tree) → TilesAll text ts start stop → ∀ written ∈ leavesAmong ts, written ≠ ""
  | [], _, s, hs, _ => by simp [leavesAmong] at hs
  | t :: ts, ⟨_, ht, hts⟩, s, hs, hempty => by
    rw [leavesAmong, List.mem_append] at hs
    rcases hs with hs | hs
    · exact Tiles.leaves_ne_empty t ht s hs hempty
    · exact TilesAll.leaves_ne_empty ts hts s hs hempty

end

end Tree

end Packrat
