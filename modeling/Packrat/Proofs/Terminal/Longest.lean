import Mathlib.Order.Bounds.Basic
import Packrat.Proofs.Regex.Liveness
import Packrat.Proofs.Terminal.Bytes
import Packrat.Terminal

/-!
# The longest match is found

A scan keeps what may be left of a match and the longest match that has ended. At every character
these two tell all matches from the position: those that have ended before, and those that some rest
still leads to. So what is found at the end is the longest of all.
-/

namespace Packrat

/-- Whether a length is the greatest of some, or absent because there are none. -/
def IsLongest (lengths : Set Nat) : Option Nat → Prop
  | some n => IsGreatest lengths n
  | none => lengths = ∅

namespace IsLongest

variable {lengths : Set Nat} {n offset : Nat} {last length length' : Option Nat} {found : Bool}

/-- There is one longest match at most. -/
theorem unique (h : IsLongest lengths length) (h' : IsLongest lengths length') :
    length = length' := by
  cases length with
  | none =>
    obtain rfl : lengths = ∅ := h
    cases length' with
    | none => rfl
    | some n => exact absurd h'.1 (Set.notMem_empty n)
  | some m =>
    cases length' with
    | none =>
      obtain rfl : lengths = ∅ := h'
      exact absurd h.1 (Set.notMem_empty m)
    | some n => rw [IsGreatest.unique h h']

/-- A length that is looked at behind all others is the greatest if it is one of the lengths. -/
theorem extend (hfound : found = true ↔ offset ∈ lengths)
    (h : IsLongest {n | n ∈ lengths ∧ n < offset} last) :
    IsLongest {n | n ∈ lengths ∧ n ≤ offset} (if found then some offset else last) := by
  split
  · rename_i hin
    exact ⟨⟨hfound.mp hin, Nat.le_refl _⟩, fun n hn => hn.2⟩
  · rename_i hout
    have hsame : {n | n ∈ lengths ∧ n ≤ offset} = {n | n ∈ lengths ∧ n < offset} := by
      ext n
      refine and_congr_right fun hn => ⟨fun hle => ?_, Nat.le_of_lt⟩
      exact Nat.lt_of_le_of_ne hle fun heq => hout (hfound.mpr (heq ▸ hn))
    rwa [hsame]

/-- The lengths up to an offset are all if there are none behind it. -/
theorem of_le (h : IsLongest {n | n ∈ lengths ∧ n ≤ offset} length)
    (hnone : ∀ n ∈ lengths, n ≤ offset) : IsLongest lengths length := by
  have hsame : {n | n ∈ lengths ∧ n ≤ offset} = lengths :=
    Set.ext fun n => and_iff_left_of_imp (hnone n)
  rwa [hsame] at h

end IsLongest

namespace Regex

variable {states : List Regex} {text : Text} {position offset : Nat} {xs cs : List Char}
  {lengths : Set Nat} {last : Option Nat}

/-- Whether some rests of a match tell which lengths there are from an offset on. -/
def Tells (states : List Regex) (text : Text) (position offset : Nat) (lengths : Set Nat) : Prop :=
  (∀ s ∈ states, s.InOrder) ∧ ∀ n, offset ≤ n →
    (n ∈ lengths ↔ ∃ s ∈ states, s.Spans text (position + offset) (position + n))

/-- A match ends at an offset if some rest matches nothing there. -/
theorem Tells.any_matchesEmpty (h : Tells states text position offset lengths)
    (hsplit : text.Splits (position + offset) xs cs) :
    states.any (·.matchesEmpty (.of xs.getLast?) (.of cs.head?)) = true ↔ offset ∈ lengths := by
  rw [h.2 offset (Nat.le_refl _), List.any_eq_true]
  refine exists_congr fun s => and_congr_right fun hs => ?_
  rw [spans_self_iff (h.1 s hs) hsplit.isBoundary, hsplit.junction]

section Next

variable {c : Char}

/-- What is longer than an offset takes the next character. -/
theorem Tells.mem_iff {n : Nat} (h : Tells states text position offset lengths)
    (hsplit : text.Splits (position + offset) xs (c :: cs)) (hn : offset < n) :
    n ∈ lengths ↔ ∃ x ∈ states.flatMap (·.heads (.of xs.getLast?) (.ofChar c)),
      x.1.contains c = true ∧ x.2.Spans text (position + offset + c.utf8Size) (position + n) := by
  have hne : position + n ≠ position + offset := by omega
  have hheads : ∀ s ∈ states, (s.Spans text (position + offset) (position + n) ↔
      ∃ x ∈ s.heads (.of xs.getLast?) (.ofChar c), x.1.contains c = true ∧
        x.2.Spans text (position + offset + c.utf8Size) (position + n)) := by
    intro s hs
    have hiff := spans_heads (h.1 s hs) hsplit (q := position + n)
    rw [and_iff_left hne, hsplit.junction] at hiff
    exact hiff
  rw [h.2 n (Nat.le_of_lt hn)]
  simp only [List.mem_flatMap]
  constructor
  · rintro ⟨s, hs, hspans⟩
    obtain ⟨x, hx, htakes⟩ := (hheads s hs).mp hspans
    exact ⟨x, ⟨s, hs, hx⟩, htakes⟩
  · rintro ⟨x, ⟨s, hs, hx⟩, htakes⟩
    exact ⟨s, hs, (hheads s hs).mpr ⟨x, hx, htakes⟩⟩

/-- A rest that goes on behind a character is live there. -/
theorem isLive_of_spans_behind {r : Regex} {p q : Nat} (hsplit : text.Splits p xs (c :: cs))
    (h : r.Spans text (p + c.utf8Size) q) : r.isLive (.ofChar c) = true := by
  have hnext : text.Splits (p + c.utf8Size) (xs ++ [c]) cs := hsplit.next
  have hlive := isLive_of_spans h
  rw [hnext.junction, List.getLast?_concat] at hlive
  exact hlive

/-- The rests behind a character tell what is longer. -/
theorem Tells.residuals (h : Tells states text position offset lengths)
    (hsplit : text.Splits (position + offset) xs (c :: cs)) :
    Tells (Regex.residuals (states.flatMap (·.heads (.of xs.getLast?) (.ofChar c))) c) text
      position (offset + c.utf8Size) lengths := by
  have hpos := c.utf8Size_pos
  constructor
  · intro s hs
    obtain ⟨x, hx, -, -, rfl⟩ := mem_residuals.mp hs
    obtain ⟨s, hs, hx⟩ := List.mem_flatMap.mp hx
    exact inOrder_of_mem_heads (h.1 s hs) x hx
  · intro n hn
    rw [h.mem_iff hsplit (by omega), ← Nat.add_assoc]
    constructor
    · rintro ⟨x, hx, hc, hspans⟩
      exact ⟨x.2, mem_residuals.mpr ⟨x, hx, hc, isLive_of_spans_behind hsplit hspans, rfl⟩, hspans⟩
    · rintro ⟨s, hs, hspans⟩
      obtain ⟨x, hx, hc, -, rfl⟩ := mem_residuals.mp hs
      exact ⟨x, hx, hc, hspans⟩

end Next

/-- The scan finds the longest match. -/
theorem isLongest_scanFrom (htells : Tells states text position offset lengths)
    (hsplit : text.Splits (position + offset) xs cs)
    (hlast : IsLongest {n | n ∈ lengths ∧ n < offset} last) :
    IsLongest lengths (scanFrom states (.of xs.getLast?) offset last cs).length := by
  induction cs generalizing states xs offset last with
  | nil =>
    refine (hlast.extend (htells.any_matchesEmpty hsplit)).of_le fun n hn => ?_
    by_contra hlt
    -- no match ends behind the text
    obtain ⟨s, -, hspans⟩ := (htells.2 n (by omega)).mp hn
    have hle := Text.le_size_of_isBoundary hspans.isBoundary.2
    rw [hsplit.size_eq, utf8Length_nil] at hle
    omega
  | cons c cs ih =>
    have hended := hlast.extend (htells.any_matchesEmpty hsplit)
    simp only [scanFrom]
    split
    · rename_i k hstop
      refine hended.of_le fun n hn => ?_
      by_contra hlt
      obtain ⟨x, hx, hc, hspans⟩ := (htells.mem_iff hsplit (by omega)).mp hn
      exact absurd (isLive_of_spans_behind hsplit hspans)
        (Bool.eq_false_iff.mp (not_live_of_stopsWithin hstop hx hc))
    · have hnext : text.Splits (position + (offset + c.utf8Size)) (xs ++ [c]) cs := by
        rw [← Nat.add_assoc]
        exact hsplit.next
      have hsame : {n | n ∈ lengths ∧ n < offset + c.utf8Size} =
          {n | n ∈ lengths ∧ n ≤ offset} := by
        ext n
        refine and_congr_right fun hn => ⟨fun hlt => ?_, fun hle => ?_⟩
        · by_contra hle
          obtain ⟨x, -, -, hspans⟩ := (htells.mem_iff hsplit (by omega)).mp hn
          have hle := hspans.le
          omega
        · have hpos := c.utf8Size_pos
          omega
      have hscan := ih (htells.residuals hsplit) hnext (hsame ▸ hended)
      rw [List.getLast?_concat] at hscan
      exact hscan

/-- A scan at an offset of a text finds the longest match of the expression there. -/
theorem isLongest_scan {r : Regex} {p : Nat} (hr : r.InOrder) (hsplit : text.Splits p xs cs) :
    IsLongest {n | r.Spans text p (p + n)} (r.scan xs.getLast? cs).length := by
  have htells : Tells [r] text p 0 {n | r.Spans text p (p + n)} :=
    ⟨by simpa using hr, fun n _ => by simp⟩
  exact isLongest_scanFrom htells hsplit (by simp [IsLongest])

end Regex

/-- A literal is found where the characters begin with it. -/
theorem length_literalScan (literal rest : List Char) (offset : Nat) :
    (literalScan literal rest offset).length =
      if literal <+: rest then some (offset + utf8Length literal) else none := by
  induction literal generalizing rest offset with
  | nil => simp [literalScan]
  | cons c cs ih =>
    cases rest with
    | nil => simp [literalScan]
    | cons d ds =>
      rw [literalScan]
      by_cases hcd : c = d
      · simp [hcd, ih, List.cons_prefix_cons, Nat.add_assoc]
      · simp [hcd, List.cons_prefix_cons]

end Packrat

/-!
## Longest matches by reading bytes

An automaton reads a text byte by byte and tells one byte late that a match has ended, or at the end
of the text. It is read on after a match, as there may be a longer one, until it stops. If it stops
only where no more matches end, what it has told last is the longest match.
-/

namespace Packrat

/-- An automaton that reads bytes. It starts behind a byte or at the start of a text, and may refuse
to. -/
structure Automaton where
  State : Type
  start? : Option UInt8 → Option State
  next : State → UInt8 → State
  atEnd : State → State
  isMatch : State → Bool
  hasStopped : State → Bool

namespace Automaton

variable {d : Automaton}

/-- The state behind some bytes. -/
def after (d : Automaton) (state : d.State) (bytes : List UInt8) : d.State :=
  bytes.foldl d.next state

/-- Reads the rest of a text, with the longest match found so far. -/
def walk (d : Automaton) (offset : Nat) (last : Option Nat) : d.State → List UInt8 → Scan
  | state, [] => ⟨if d.isMatch (d.atEnd state) then some offset else last, offset + 1⟩
  | state, byte :: bytes =>
    let state := d.next state byte
    if d.isMatch state then d.walk (offset + 1) (some offset) state bytes
    else if d.hasStopped state then ⟨last, offset + 1⟩
    else d.walk (offset + 1) last state bytes

/-- The byte before an offset. -/
def byteBefore? (text : Text) : Nat → Option UInt8
  | 0 => none
  | p + 1 => text.bytes[p]?

/-- Reads a text from an offset on. -/
def scanAt (d : Automaton) (text : Text) (position : Nat) : Scan :=
  match d.start? (byteBefore? text position) with
  | some state => d.walk 0 none state (text.bytes.drop position)
  | none => ⟨none, 1⟩

/-- Whether an automaton enters a matching state one byte, or the end of the text, after the end of
each match, and stops only where no more matches end. -/
structure Reports (d : Automaton) (start : d.State) (bytes : List UInt8) (lengths : Set Nat) :
    Prop where
  isMatch : ∀ read byte rest, bytes = read ++ byte :: rest →
    (d.isMatch (d.after start (read ++ [byte])) = true ↔ read.length ∈ lengths)
  isMatch_atEnd : d.isMatch (d.atEnd (d.after start bytes)) = true ↔ bytes.length ∈ lengths
  hasStopped : ∀ read rest, bytes = read ++ rest → d.hasStopped (d.after start read) = true →
    ∀ n ∈ lengths, n < read.length

variable {start : d.State} {read rest : List UInt8} {lengths : Set Nat} {last : Option Nat}
  {offset : Nat}

/-- What is told last is the longest match. -/
theorem Reports.isLongest_walk (h : d.Reports start (read ++ rest) lengths)
    (hall : ∀ n ∈ lengths, n ≤ read.length + rest.length)
    (hlast : IsLongest {n | n ∈ lengths ∧ n < read.length} last) :
    IsLongest lengths (d.walk read.length last (d.after start read) rest).length := by
  induction rest generalizing read last with
  | nil =>
    rw [List.append_nil] at h
    exact (hlast.extend h.isMatch_atEnd).of_le fun n hn => by simpa using hall n hn
  | cons byte rest ih =>
    have hnext : d.next (d.after start read) byte = d.after start (read ++ [byte]) := by
      rw [after, after, List.foldl_concat]
    have hread : read ++ byte :: rest = (read ++ [byte]) ++ rest := by simp
    have hended := hlast.extend (h.isMatch read byte rest rfl)
    have hsame : {n | n ∈ lengths ∧ n ≤ read.length} =
        {n | n ∈ lengths ∧ n < (read ++ [byte]).length} := by
      ext n
      simp only [List.length_append, List.length_singleton, Set.mem_ofPred_eq, Nat.lt_succ_iff]
    have hrest : ∀ last, IsLongest {n | n ∈ lengths ∧ n < (read ++ [byte]).length} last →
        IsLongest lengths
          (d.walk (read.length + 1) last (d.after start (read ++ [byte])) rest).length := by
      intro last hlast
      have hwalk := ih (hread ▸ h) (by simpa [Nat.add_assoc, Nat.add_comm 1] using hall) hlast
      simpa using hwalk
    simp only [walk, hnext]
    split
    · rename_i hmatch
      rw [if_pos hmatch, hsame] at hended
      exact hrest _ hended
    · rename_i hmatch
      rw [if_neg hmatch, hsame] at hended
      split
      · rename_i hstop
        have hfew := h.hasStopped (read ++ [byte]) rest hread hstop
        have hwhole : {n | n ∈ lengths ∧ n < (read ++ [byte]).length} = lengths :=
          Set.ext fun n => and_iff_left_of_imp (hfew n)
        rwa [hwhole] at hended
      · exact hrest _ hended

/-- An automaton that reports all ends of matches finds the longest one. -/
theorem Reports.isLongest {bytes : List UInt8} (h : d.Reports start bytes lengths)
    (hall : ∀ n ∈ lengths, n ≤ bytes.length) :
    IsLongest lengths (d.walk 0 none start bytes).length := by
  have hreports : d.Reports start ([] ++ bytes) lengths := h
  have hnone : IsLongest {n | n ∈ lengths ∧ n < ([] : List UInt8).length} none := by
    simp [IsLongest]
  exact hreports.isLongest_walk (by simpa using hall) hnone

/-- A walk looks at a byte at least, or at the end of the text, and at no more than that. -/
theorem reach_walk (d : Automaton) (offset : Nat) (last : Option Nat) (state : d.State)
    (bytes : List UInt8) : offset < (d.walk offset last state bytes).reach ∧
      (d.walk offset last state bytes).reach ≤ offset + bytes.length + 1 := by
  induction bytes generalizing offset last state with
  | nil => simp [walk]
  | cons byte bytes ih =>
    simp only [walk, List.length_cons]
    split
    · have := ih (offset + 1) (some offset) (d.next state byte)
      omega
    · split
      · simp only
        omega
      · have := ih (offset + 1) last (d.next state byte)
        omega

/-- A match that a walk finds ends before the end of what was looked at. -/
theorem length_lt_reach_walk {state : d.State} {bytes : List UInt8} {n : Nat}
    (hlast : ∀ m, last = some m → m ≤ offset)
    (h : (d.walk offset last state bytes).length = some n) :
    n < (d.walk offset last state bytes).reach := by
  induction bytes generalizing offset last state with
  | nil =>
    simp only [walk] at h ⊢
    split at h
    · cases h
      exact Nat.lt_succ_self _
    · exact Nat.lt_succ_of_le (hlast n h)
  | cons byte bytes ih =>
    simp only [walk] at h ⊢
    by_cases hmatch : d.isMatch (d.next state byte) = true
    · simp only [if_pos hmatch] at h ⊢
      exact ih (by simp) h
    · simp only [if_neg hmatch] at h ⊢
      split at h
      · rename_i hstop
        rw [if_pos hstop]
        exact Nat.lt_succ_of_le (hlast n h)
      · rename_i hstop
        rw [if_neg hstop]
        exact ih (fun m hm => Nat.le_succ_of_le (hlast m hm)) h

/-- A walk depends on nothing but what it looked at. -/
theorem walk_of_take {state : d.State} {us vs : List UInt8} {n : Nat} (h : vs.take n = us.take n)
    (hreach : (d.walk offset last state us).reach ≤ offset + n) :
    d.walk offset last state vs = d.walk offset last state us := by
  obtain ⟨m, rfl⟩ : ∃ m, n = m + 1 := by
    have hlooked := (d.reach_walk offset last state us).1
    exact ⟨n - 1, by omega⟩
  induction us generalizing offset last state vs m with
  | nil =>
    cases vs with
    | nil => rfl
    | cons byte vs => simp at h
  | cons byte us ih =>
    cases vs with
    | nil => simp at h
    | cons byte' vs =>
      simp only [List.take_succ_cons, List.cons.injEq] at h
      obtain ⟨rfl, hrest⟩ := h
      simp only [walk] at hreach ⊢
      -- a walk that goes on looks further, so there is a byte left to share
      have hgoes : ∀ last, (d.walk (offset + 1) last (d.next state byte') us).reach ≤
            offset + (m + 1) →
          d.walk (offset + 1) last (d.next state byte') vs =
            d.walk (offset + 1) last (d.next state byte') us := by
        intro last hreach
        have hlooked := (d.reach_walk (offset + 1) last (d.next state byte') us).1
        obtain ⟨k, rfl⟩ : ∃ k, m = k + 1 := ⟨m - 1, by omega⟩
        exact ih k hrest (by omega)
      split
      · rename_i hmatch
        rw [if_pos hmatch] at hreach
        exact hgoes _ hreach
      · rename_i hmatch
        rw [if_neg hmatch] at hreach
        split
        · rfl
        · rename_i hstop
          rw [if_neg hstop] at hreach
          exact hgoes _ hreach

end Automaton

end Packrat
