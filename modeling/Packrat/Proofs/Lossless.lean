import Packrat.Proofs.Parse.Items
import Packrat.Proofs.Parse.Reuse

/-!
# Trees spell their texts

A parse makes a tree over all of the text, whatever the program and the limits are, and so does
every parse of an edited text, whatever the results are that it starts from. The results of the
earlier parse fit the earlier text; those that are carried over fit the edited one.
-/

namespace Packrat

/-- The results of parses, traced or not, and of parses of edited texts by some programs, each with
its text. The programs and the options may differ from step to step. -/
inductive Produced (among : Program → Prop) : Parsed → (text : String) → Prop
  | parse {p : Program} (o : ParseOptions) {text : String} (hp : among p)
      (hsize : text.utf8ByteSize < UInt32.size) : Produced among (p.parse o text) text
  | traced {p : Program} (o : ParseOptions) {text : String} (hp : among p)
      (hsize : text.utf8ByteSize < UInt32.size) : Produced among (p.parseTraced o text) text
  | reparse {p : Program} (o : ParseOptions) {old new : Parsed} {before after : String}
      {edit : Edit} (hp : among p) (hold : Produced among old before)
      (happly : edit.apply (Text.ofString before) = .ok after)
      (hsize : after.utf8ByteSize < UInt32.size) (hnew : p.reparse o old edit = .ok new) :
      Produced among new after

namespace Produced

variable {among : Program → Prop} {r : Parsed} {text : String}

/-- What has been parsed is no larger than offsets can tell. -/
theorem size_lt (h : Produced among r text) : (Text.ofString text).size < maxOffset := by
  have hsize : text.utf8ByteSize < UInt32.size := by
    cases h <;> assumption
  simp only [UInt32.size] at hsize
  simp only [Text.size_ofString, maxOffset, UInt64.size]
  omega

/-- A tree that covers a text spells it. -/
theorem text_eq_of_tiles
    (h : r.tree.Tiles (.ofString text) 0 (Text.ofString text).size) : r.text = text := by
  rw [Parsed.text, Tree.text, Tree.Tiles.join_leaves (Text.isBoundary_zero _) _ h,
    Text.slice_ofString]

/-- The tree covers the text and the results fit it, however the parse started. -/
theorem fits (h : Produced among r text) :
    r.tree.Tiles (.ofString text) 0 (Text.ofString text).size ∧
      Results.Fit (.ofString text) r.results := by
  induction h with
  | @parse p => exact p.parseWith_fits (by simp [Results.Fit])
  | @traced p => exact p.parseWith_fits (by simp [Results.Fit])
  | @reparse p o old new before after edit hp hold happly hsize hnew ih =>
    obtain ⟨text, htext, rfl⟩ := Program.reparse_eq_ok.mp hnew
    rw [text_eq_of_tiles ih.1, happly] at htext
    cases htext
    refine p.parseWith_fits ?_
    split
    · exact ih.2.carryOver happly hold.size_lt
    · simp [Results.Fit]

/-- The text that a parse keeps is the one that was parsed. -/
theorem text_eq (h : Produced among r text) : r.text = text :=
  text_eq_of_tiles h.fits.1

/-- The leaves of a tree spell the text that was parsed, the tree goes from its start to its end,
the children of every node follow each other from the start of the node to its end, and no leaf
is empty. -/
theorem lossless (h : Produced among r text) :
    r.tree.text = text ∧ r.tree.size = text.utf8ByteSize ∧
      r.tree.Tiles (.ofString text) 0 text.utf8ByteSize ∧
      ∀ written ∈ r.tree.leaves, written ≠ "" := by
  have htiles := h.fits.1
  have hspelled : r.tree.text = text := h.text_eq
  have hsize := Tree.Tiles.size_eq _ htiles
  rw [Nat.zero_add] at hsize
  rw [Text.size_ofString] at htiles hsize
  exact ⟨hspelled, hsize, htiles, Tree.Tiles.leaves_ne_empty _ htiles⟩

/-- Parsing again when an item was put in between others, with an error behind them. -/
theorem lossless_items : ∃ r,
    Program.items.reparse {} Program.itemsBefore (.insertion 1 "a") = .ok r ∧
      r.tree.text = "aaaaé" ∧ r.tree.size = 6 ∧ r.tree.Tiles (.ofString "aaaaé") 0 6 ∧
      (∀ written ∈ r.tree.leaves, written ≠ "") ∧
      [.hit 1 0 (some 1), .hit 1 3 (some 4), .hit 1 4 none] ⊆
        (Program.items.parseWith {} Program.itemsKnown true (.ofString "aaaaé")).log := by
  have hold : Produced (· = .items) Program.itemsBefore "aaaé" :=
    .parse { maxRounds := some 1 } rfl (by decide)
  have happly : (Edit.insertion 1 "a").apply (Text.ofString "aaaé") = .ok "aaaaé" := rfl
  obtain ⟨r, hr⟩ : ∃ r,
      Program.items.reparse {} Program.itemsBefore (.insertion 1 "a") = .ok r :=
    ⟨_, Program.reparse_eq_ok.mpr ⟨"aaaaé", by rw [hold.text_eq, happly], rfl⟩⟩
  have hnew : Produced (· = .items) r "aaaaé" := .reparse {} rfl hold happly (by decide) hr
  obtain ⟨htext, hsize, htiles, hleaves⟩ := hnew.lossless
  exact ⟨r, hr, htext, hsize, htiles, hleaves, Program.itemsKnown_hits⟩

end Produced

end Packrat
