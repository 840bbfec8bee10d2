import Packrat.Unicode.CharSet

/-!
# Tables of character properties

A property table is a list of rows: the names of a property or property value, and the
characters that have it in a plain notation of hexadecimal ranges such as `41-5A 5F`. Names are
compared loosely, as Unicode's own matching rule for symbols asks.
-/

namespace Packrat.Unicode

/-- The value of a hexadecimal digit. -/
def hexDigit? (c : Char) : Option Nat :=
  if '0' ≤ c ∧ c ≤ '9' then some (c.toNat - '0'.toNat)
  else if 'a' ≤ c ∧ c ≤ 'f' then some (c.toNat - 'a'.toNat + 10)
  else if 'A' ≤ c ∧ c ≤ 'F' then some (c.toNat - 'A'.toNat + 10)
  else none

/-- The number that hexadecimal digits spell. -/
def hexValue (digits : List Char) : Nat :=
  digits.foldl (fun n c => 16 * n + (hexDigit? c).getD 0) 0

/-- The words of a table, which stand between blanks and line ends. -/
def words (table : String) : List (List Char) :=
  (table.toList.splitOnP fun c => c == ' ' || c == '\n').filter fun w => !w.isEmpty

/-- One range in the notation of the tables: `41-5A`, or `5F` for a single code point. -/
def readRange (word : List Char) : Nat × Nat :=
  let lo := word.takeWhile (· != '-')
  match word.dropWhile (· != '-') with
  | _ :: hi => (hexValue lo, hexValue hi)
  | [] => (hexValue lo, hexValue lo)

/-- The ranges that a table lists. -/
def readRanges (table : String) : List (Nat × Nat) := (words table).map readRange

/-- The names of a property or property value, and the table of its characters. -/
structure PropertyRow where
  names : List String
  table : String

namespace PropertyRow

/-- The characters that a row lists. -/
def toCharSet (row : PropertyRow) : CharSet := .ofRanges (readRanges row.table)

end PropertyRow

/-- A name without case, blanks, hyphens, underscores and characters outside ASCII. -/
def squeeze (name : List Char) : List Char :=
  (name.filter fun c => c.toNat < 128 && c != ' ' && c != '-' && c != '_').map Char.toLower

/-- A property name as it is compared: squeezed and without a leading `is`. What is left of
`isc` keeps the prefix, since it would otherwise read as the category `c`. -/
def looseName (name : String) : String :=
  match name.toList with
  | i :: s :: rest =>
    if (i == 'i' || i == 'I') && (s == 's' || s == 'S') then
      let bare := squeeze rest
      String.ofList (if bare = ['c'] then ['i', 's', 'c'] else bare)
    else String.ofList (squeeze (i :: s :: rest))
  | short => String.ofList (squeeze short)

/-- The row that carries a name, given in its loose form. -/
def findRow? (rows : List PropertyRow) (loose : String) : Option PropertyRow :=
  rows.find? fun row => row.names.any fun name => looseName name == loose

end Packrat.Unicode
