import Packrat.Program.Lexical
import Packrat.Proofs.Terminal.Longest

/-!
# Terminals take the longest match

At every offset of every text a literal is taken exactly where the text goes on with it, and a
pattern takes the longest stretch that its expression matches there, with the looks in it asking
about the whole text. An automaton that knows where matches end finds the same. A scan looks as far
as its match reaches at least, at something when it fails, and one byte behind the text at most.
-/

namespace Packrat

/-- The lengths of the matches of a terminal at an offset of a text. -/
def Terminal.lengths (text : Text) (position : Nat) : Terminal → Set Nat
  | literal s => {n | s.toList <+: text.charsFrom position ∧ n = s.utf8ByteSize}
  | pattern p => {n | p.regex.Spans text position (position + n)}

/-- Whether a scan at an offset of a text takes the greatest of some lengths and looks far enough,
but not beyond the end of the text. -/
structure Scan.IsExact (scan : Scan) (text : Text) (position : Nat) (lengths : Set Nat) : Prop where
  isLongest : IsLongest lengths scan.length
  length_le_reach : ∀ n, scan.length = some n → position + n ≤ position + scan.reach
  reach_pos : scan.length = none → position < position + scan.reach
  reach_le : position + scan.reach ≤ text.size + 1

/-- Whether an automaton can start at an offset of a text and reports the matches there. -/
def Automaton.Knows (d : Automaton) (text : Text) (position : Nat) (lengths : Set Nat) : Prop :=
  ∃ start, d.start? (byteBefore? text position) = some start ∧
    d.Reports start (text.bytes.drop position) lengths

/-- An automaton that knows where matches end takes the longest of them. -/
theorem Automaton.isExact_scanAt {d : Automaton} {text : Text} {position : Nat} {lengths : Set Nat}
    (hp : text.isBoundary position = true) (hall : ∀ n ∈ lengths, position + n ≤ text.size)
    (h : d.Knows text position lengths) :
    (d.scanAt text position).IsExact text position lengths := by
  obtain ⟨start, hstart, hreports⟩ := h
  obtain ⟨xs, ys, hsplit⟩ := Text.isBoundary_iff.mp hp
  have hbytes : (text.bytes.drop position).length = utf8Length ys := by
    rw [hsplit.drop_bytes, length_utf8]
  have hsize := hsplit.size_eq
  have hreach := d.reach_walk 0 none start (text.bytes.drop position)
  have hscan : d.scanAt text position = d.walk 0 none start (text.bytes.drop position) := by
    rw [scanAt, hstart]
  rw [hscan]
  refine ⟨hreports.isLongest fun n hn => ?_, fun n hn => ?_, fun _ => ?_, ?_⟩
  · have hle := hall n hn
    omega
  · have hlt := length_lt_reach_walk (by simp) hn
    omega
  · exact Nat.lt_add_of_pos_right hreach.1
  · omega

namespace Terminal

variable {t : Terminal} {form : TerminalForm} {text : Text} {position : Nat}

/-- A pattern that comes of a grammar has bounds in order. -/
theorem inOrder_of_terminal {p : Pattern} (h : form.terminal = .ok (pattern p)) :
    p.regex.InOrder := by
  cases form with
  | literal s => cases h
  | pattern source flags =>
    cases hread : Pattern.read source flags with
    | error e =>
      rw [TerminalForm.terminal, hread] at h
      cases h
    | ok p' =>
      rw [TerminalForm.terminal, hread] at h
      cases h
      obtain ⟨regex, hparse, hread⟩ := Except.of_bind_ok hread
      split at hread
      · cases hread
      · cases hread
        exact Regex.inOrder_of_parse hparse

/-- No match reaches beyond the text. -/
theorem le_of_mem_lengths {n : Nat} (hp : text.isBoundary position = true)
    (h : n ∈ t.lengths text position) : position + n ≤ text.size := by
  cases t with
  | literal s =>
    obtain ⟨xs, ys, hsplit⟩ := Text.isBoundary_iff.mp hp
    obtain ⟨⟨zs, hfront⟩, rfl⟩ := h
    rw [hsplit.charsFrom] at hfront
    rw [hsplit.size_eq, ← hfront, utf8Length_append, utf8Length_toList]
    omega
  | pattern p => exact Text.le_size_of_isBoundary h.isBoundary.2

/-- A terminal at a boundary takes the longest of all its matches there. -/
theorem isLongest_scanAt (ht : form.terminal = .ok t) (hp : text.isBoundary position = true) :
    IsLongest (t.lengths text position) (t.scanAt text position).length := by
  obtain ⟨xs, ys, hsplit⟩ := Text.isBoundary_iff.mp hp
  rw [scanAt, hsplit.spot?]
  cases t with
  | literal s =>
    simp only [lengths, hsplit.charsFrom, scan, length_literalScan, utf8Length_toList, Nat.zero_add]
    split
    · rename_i hfront
      exact ⟨⟨hfront, rfl⟩, fun n hn => Nat.le_of_eq hn.2⟩
    · rename_i hfront
      exact Set.eq_empty_of_forall_notMem fun n hn => hfront hn.1
  | pattern p => exact Regex.isLongest_scan (inOrder_of_terminal ht) hsplit

/-- A terminal takes its longest match, and so does every automaton that reports its matches. -/
theorem scanAt_takes_longest (ht : form.terminal = .ok t) (hp : text.isBoundary position = true) :
    (t.scanAt text position).IsExact text position (t.lengths text position) ∧
      ∀ d : Automaton, d.Knows text position (t.lengths text position) →
        (d.scanAt text position).IsExact text position (t.lengths text position) := by
  constructor
  · exact {
      isLongest := isLongest_scanAt ht hp
      length_le_reach := fun n h => Nat.add_le_add_left (length_le_reach_scanAt h) _
      reach_pos := fun h => Nat.lt_add_of_pos_right (reach_pos_scanAt h)
      reach_le := reach_scanAt_le hp }
  · exact fun d hknows => d.isExact_scanAt hp (fun n hn => le_of_mem_lengths hp hn) hknows

/-- An automaton for one letter. In its states the letter has not been read, has just been read, has
been read one byte ago, and cannot be read any more. -/
def letterAutomaton : Automaton where
  State := Fin 4
  start? _ := some 0
  next state byte := if state = 0 ∧ byte = 97 then 1 else if state = 1 then 2 else 3
  atEnd state := if state = 1 then 2 else 3
  isMatch state := state = 2
  hasStopped state := state = 3

/-- One letter is found as the longest match by the scan and by an automaton. -/
theorem scanAt_takes_longest_letter :
    ((pattern ⟨"a", .chars (.singleton 'a')⟩).scanAt (.ofString "ab") 0).IsExact (.ofString "ab") 0
        {n | (Regex.chars (.singleton 'a')).Spans (.ofString "ab") 0 (0 + n)} ∧
      (letterAutomaton.scanAt (.ofString "ab") 0).IsExact (.ofString "ab") 0
        {n | (Regex.chars (.singleton 'a')).Spans (.ofString "ab") 0 (0 + n)} := by
  have hlengths : ∀ n, (Regex.chars (.singleton 'a')).Spans (.ofString "ab") 0 (0 + n) ↔ n = 1 := by
    intro n
    rw [Regex.spans_chars]
    constructor
    · rintro ⟨xs, c, ys, ⟨-, hn⟩, hc⟩
      obtain rfl := CharSet.contains_singleton.mp hc
      exact (Nat.zero_add n).symm.trans hn
    · rintro rfl
      exact ⟨[], 'a', ['b'], ⟨⟨rfl, rfl⟩, rfl⟩, by decide⟩
  have hreports : letterAutomaton.Reports (0 : Fin 4) [97, 98]
      {n | (Regex.chars (.singleton 'a')).Spans (.ofString "ab") 0 (0 + n)} := by
    simp only [hlengths]
    refine ⟨?_, by decide, ?_⟩
    · intro read byte rest hread
      rcases read with _ | ⟨a, _ | ⟨b, _ | _⟩⟩
      · cases hread
        decide
      · cases hread
        decide
      · cases hread
      · cases hread
    · intro read rest hread hstopped
      rcases read with _ | ⟨a, _ | ⟨b, _ | _⟩⟩
      · exact absurd hstopped (by decide)
      · cases hread
        exact absurd hstopped (by decide)
      · cases hread
        exact absurd hstopped (by decide)
      · cases hread
  have hterminal : (TerminalForm.pattern "a" none).terminal =
      .ok (pattern ⟨"a", .chars (.singleton 'a')⟩) := rfl
  have hexact := scanAt_takes_longest hterminal (Text.isBoundary_zero (.ofString "ab"))
  exact ⟨hexact.1, hexact.2 letterAutomaton ⟨(0 : Fin 4), rfl, hreports⟩⟩

end Terminal

end Packrat
