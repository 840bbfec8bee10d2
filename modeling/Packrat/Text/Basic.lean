/-!
# Texts and their positions

Every position in this library is a byte offset into the UTF-8 form of a text. A `Text` keeps,
for each byte offset, what lies there: `spot?` answers with the character before the offset and
the characters from it on, or with nothing when the offset falls inside a character or beyond
the end. The field `table_eq` says that the table is exactly the walk `spotFrom?` along the
characters.
-/

namespace Packrat

/-- The number of bytes that a list of characters takes in UTF-8. -/
def utf8Length : List Char → Nat
  | [] => 0
  | c :: cs => c.utf8Size + utf8Length cs

/-- Characters one behind the other take the bytes of both. -/
@[simp] theorem utf8Length_append (xs ys : List Char) :
    utf8Length (xs ++ ys) = utf8Length xs + utf8Length ys := by
  induction xs with
  | nil => simp [utf8Length]
  | cons c xs ih => simp [utf8Length, ih, Nat.add_assoc]

/-- The leading characters whose first byte lies among the first `n` bytes. -/
def takeBytes : List Char → Nat → List Char
  | [], _ => []
  | _ :: _, 0 => []
  | c :: cs, n + 1 => c :: takeBytes cs (n + 1 - c.utf8Size)

/-- What lies at a position: the character before it and the characters from it on. -/
structure Spot where
  before : Option Char
  rest : List Char
  deriving Repr, DecidableEq

/-- The spot `n` bytes into `rest`, when `before` precedes `rest`. -/
def spotFrom? (before : Option Char) : (rest : List Char) → (n : Nat) → Option Spot
  | rest, 0 => some ⟨before, rest⟩
  | [], _ + 1 => none
  | c :: cs, n + 1 =>
    if n + 1 < c.utf8Size then none else spotFrom? (some c) cs (n + 1 - c.utf8Size)

namespace Text

/-- The spots of `rest` by byte offset, appended to those of what comes before it. -/
def spotTable (before : Option Char) : List Char → Array (Option Spot) → Array (Option Spot)
  | [], table => table.push (some ⟨before, []⟩)
  | c :: cs, table =>
    spotTable (some c) cs
      (table.push (some ⟨before, c :: cs⟩) ++ Array.replicate (c.utf8Size - 1) none)

/-- Filling in the spots of `rest` leaves earlier entries alone and lists `spotFrom?` after them. -/
theorem spotTable_getElem? (before : Option Char) (rest : List Char)
    (table : Array (Option Spot)) (p : Nat) :
    (spotTable before rest table)[p]?.join =
      if p < table.size then table[p]?.join else spotFrom? before rest (p - table.size) := by
  induction rest generalizing before table with
  | nil =>
    rw [spotTable, Array.getElem?_push]
    by_cases hlt : p < table.size
    · have hne : p ≠ table.size := by omega
      simp [hlt, hne]
    · rcases Nat.lt_or_ge table.size p with h | h
      · obtain ⟨k, hk⟩ : ∃ k, p - table.size = k + 1 := ⟨p - table.size - 1, by omega⟩
        have hne : p ≠ table.size := by omega
        simp [hlt, hne, hk, spotFrom?]
      · have heq : p = table.size := by omega
        subst heq
        simp [spotFrom?]
  | cons c cs ih =>
    have hpos : 0 < c.utf8Size := Char.utf8Size_pos c
    rw [spotTable, ih]
    have hsize : (table.push (some ⟨before, c :: cs⟩) ++
        Array.replicate (c.utf8Size - 1) none).size = table.size + c.utf8Size := by
      simp; omega
    rw [hsize]
    by_cases hlt : p < table.size
    · have h1 : p < table.size + c.utf8Size := by omega
      have h2 : p < table.size + 1 := by omega
      simp [hlt, h1, h2, Array.getElem?_append, Array.getElem_push_lt]
    · obtain ⟨n, hn⟩ : ∃ n, p = table.size + n := ⟨p - table.size, by omega⟩
      subst hn
      have hsub : table.size + n - table.size = n := by omega
      simp only [hlt, if_false, hsub]
      cases n with
      | zero =>
        simp [hpos, spotFrom?, Array.getElem?_append]
      | succ n =>
        by_cases hin : n + 1 < c.utf8Size
        · have h1 : table.size + (n + 1) < table.size + c.utf8Size := by omega
          have h2 : ¬ table.size + (n + 1) < table.size + 1 := by omega
          have h3 : table.size + (n + 1) - (table.size + 1) < c.utf8Size - 1 := by omega
          simp [h1, h3, spotFrom?, hin, Array.getElem?_append]
        · have h1 : ¬ table.size + (n + 1) < table.size + c.utf8Size := by omega
          have h2 : table.size + (n + 1) - (table.size + c.utf8Size) = n + 1 - c.utf8Size := by
            omega
          simp only [h1, if_false, h2, spotFrom?, hin]

end Text

/-- A text, with its spots found by byte offset. -/
structure Text where
  chars : List Char
  size : Nat
  table : Array (Option Spot)
  size_eq : size = utf8Length chars
  table_eq : ∀ p, table[p]?.join = spotFrom? none chars p

namespace Text

/-- A string as a text. -/
def ofString (s : String) : Text where
  chars := s.toList
  size := utf8Length s.toList
  table := spotTable none s.toList #[]
  size_eq := rfl
  table_eq p := by simp [spotTable_getElem?]

/-- The text as a string. -/
def toString (t : Text) : String := String.ofList t.chars

/-- What lies at a byte offset, unless the offset splits a character or is past the end. -/
def spot? (t : Text) (p : Nat) : Option Spot := t.table[p]?.join

/-- The table of a text has at each offset what lies there. -/
theorem spot?_eq (t : Text) (p : Nat) : t.spot? p = spotFrom? none t.chars p := t.table_eq p

/-- Whether a byte offset lies between two characters, or at either end. -/
def isBoundary (t : Text) (p : Nat) : Bool := (t.spot? p).isSome

/-- The characters from a byte offset on. -/
def charsFrom (t : Text) (p : Nat) : List Char :=
  match t.spot? p with
  | some spot => spot.rest
  | none => []

/-- The text between two byte offsets. -/
def slice (t : Text) (start stop : Nat) : String :=
  String.ofList (takeBytes (t.charsFrom start) (stop - start))

/-- The byte offset after the character at `p`. -/
def next (t : Text) (p : Nat) : Nat :=
  match t.charsFrom p with
  | c :: _ => p + c.utf8Size
  | [] => p + 1

/-- The byte offsets of the characters of `cs` that start at `p`, and the end. -/
def boundariesFrom (p : Nat) : List Char → List Nat
  | [] => [p]
  | c :: cs => p :: boundariesFrom (p + c.utf8Size) cs

/-- All offsets between characters, both ends included. -/
def boundaries (t : Text) : List Nat := boundariesFrom 0 t.chars

end Text

end Packrat
