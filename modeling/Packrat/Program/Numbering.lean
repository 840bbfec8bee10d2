import Std.Data.HashMap

/-!
# Numberings

Distinct items in the order in which they were first added, numbered from zero. An item that was
added before keeps its number.
-/

namespace Packrat

/-- Distinct items with their numbers. -/
structure Numbering (α : Type) [BEq α] [LawfulBEq α] [Hashable α] where
  items : Array α := #[]
  numbers : Std.HashMap α Nat := {}
  /-- The number of an item is its place. -/
  numbers_eq : ∀ (a : α) (i : Nat), numbers[a]? = some i ↔ items[i]? = some a := by simp

namespace Numbering

variable {α : Type} [BEq α] [LawfulBEq α] [Hashable α]

/-- No items. -/
def empty : Numbering α := {}

/-- The number of an item. -/
def number? (n : Numbering α) (a : α) : Option Nat := n.numbers[a]?

/-- How many items there are. -/
def size (n : Numbering α) : Nat := n.items.size

/-- A new item gets the next number, which is where it stands. -/
theorem numbers_insert {n : Numbering α} {a : α} (h : n.numbers[a]? = none) (b : α) (i : Nat) :
    (n.numbers.insert a n.items.size)[b]? = some i ↔ (n.items.push a)[i]? = some b := by
  rw [Std.HashMap.getElem?_insert, Array.getElem?_push]
  have known := n.numbers_eq b i
  by_cases hab : a = b
  · subst hab
    by_cases hi : i = n.items.size
    · simp [hi]
    · have : n.items[i]? ≠ some a := fun hc => by simp [known.2 hc] at h
      simp [hi, Ne.symm hi, this]
  · have hab' : (a == b) = false := by simpa using hab
    by_cases hi : i = n.items.size
    · subst hi
      have : n.items[n.items.size]? = none := Array.getElem?_eq_none (Nat.le_refl _)
      rw [this] at known
      simp only [hab', Bool.false_eq_true, if_false, if_true]
      simp [hab, known]
    · simp [hab', hi, known]

/-- Adds an item, unless it is there. -/
def add : Numbering α → α → Numbering α
  | ⟨items, numbers, numbers_eq⟩, a =>
    match h : numbers[a]? with
    | some _ => ⟨items, numbers, numbers_eq⟩
    | none =>
      have fresh := numbers_insert (n := ⟨items, numbers, numbers_eq⟩) h
      let place := items.size
      ⟨items.push a, numbers.insert a place, fresh⟩

end Numbering

end Packrat
