import Mathlib
import Packrat.Json.Reader

/-!
# The texts of a value

A value has many texts. Blanks stand between its parts as one likes, a character of a string stands
for itself or is escaped in one of several ways, and a number may be written with a fraction or an
exponent. `Writes` relates a value to all of its texts and knows nothing of how they are read.
-/

namespace Packrat

mutual

/-- How deeply arrays and objects nest in a value. -/
def JsonValue.depth : JsonValue → Nat
  | .array items => JsonValue.depthOfItems items + 1
  | .object fields => JsonValue.depthOfFields fields + 1
  | _ => 0

/-- How deeply arrays and objects nest in the items of an array. -/
def JsonValue.depthOfItems : List JsonValue → Nat
  | [] => 0
  | item :: items => max item.depth (JsonValue.depthOfItems items)

/-- How deeply arrays and objects nest in the values of an object. -/
def JsonValue.depthOfFields : List (String × JsonValue) → Nat
  | [] => 0
  | (_, value) :: fields => max value.depth (JsonValue.depthOfFields fields)

end

namespace Json

/-- Characters that may stand between the parts of a value. -/
def Blank (cs : List Char) : Prop := ∀ c ∈ cs, c ∈ [' ', '\n', '\t', '\r']

/-- There may be no blanks at all. -/
theorem blank_nil : Blank [] := by simp [Blank]

/-- A digit that stands for a number below 16, in lower or in upper case. -/
def HexDigit (n : Nat) (c : Char) : Prop :=
  "0123456789abcdef".toList[n]? = some c ∨ "0123456789ABCDEF".toList[n]? = some c

/-- Four hexadecimal digits for a number. -/
inductive WritesUnit : Nat → List Char → Prop
  | digits {k m n p : Nat} {a b c d : Char} :
    HexDigit k a → HexDigit m b → HexDigit n c → HexDigit p d →
      WritesUnit (((k * 16 + m) * 16 + n) * 16 + p) [a, b, c, d]

/-- The letters that stand for a character behind a backslash. -/
def escapes : List (Char × Char) :=
  [('"', '"'), ('\\', '\\'), ('/', '/'), ('b', '\x08'), ('f', '\x0c'), ('n', '\n'), ('r', '\r'),
    ('t', '\t')]

/-- The ways to write a character in a string: as it is, by a letter behind a backslash, by its
number, or by the numbers of the two surrogates that UTF-16 has for it. -/
inductive WritesChar : Char → List Char → Prop
  | plain {c : Char} : 0x20 ≤ c.toNat → c ≠ '"' → c ≠ '\\' → WritesChar c [c]
  | letter {l c : Char} : (l, c) ∈ escapes → WritesChar c ['\\', l]
  | unit {c : Char} {digits : List Char} : WritesUnit c.toNat digits →
    WritesChar c ('\\' :: 'u' :: digits)
  | pair {c : Char} {high low : Nat} {digits digits' : List Char} :
    high < 0x400 → low < 0x400 → c.toNat = 0x10000 + high * 0x400 + low →
      WritesUnit (0xD800 + high) digits → WritesUnit (0xDC00 + low) digits' →
        WritesChar c ('\\' :: 'u' :: (digits ++ '\\' :: 'u' :: digits'))

/-- What stands behind the opening quote of a string, with the closing one. -/
inductive WritesText : List Char → List Char → Prop
  | close : WritesText [] ['"']
  | char {c : Char} {cs w ws : List Char} : WritesChar c w → WritesText cs ws →
    WritesText (c :: cs) (w ++ ws)

/-- One digit or more. -/
def Digits (cs : List Char) : Prop := cs ≠ [] ∧ ∀ c ∈ cs, c.isDigit = true

/-- The digits behind the point, with the point. -/
inductive WritesFraction : Option (List Char) → List Char → Prop
  | absent : WritesFraction none []
  | digits {ds : List Char} : Digits ds → WritesFraction (some ds) ('.' :: ds)

/-- The exponent with its letter. -/
inductive WritesExponent : Option (Bool × List Char) → List Char → Prop
  | absent : WritesExponent none []
  | unsigned {e : Char} {ds : List Char} : e ∈ ['e', 'E'] → Digits ds →
    WritesExponent (some (false, ds)) (e :: ds)
  | plus {e : Char} {ds : List Char} : e ∈ ['e', 'E'] → Digits ds →
    WritesExponent (some (false, ds)) (e :: '+' :: ds)
  | minus {e : Char} {ds : List Char} : e ∈ ['e', 'E'] → Digits ds →
    WritesExponent (some (true, ds)) (e :: '-' :: ds)

/-- A numeral without a sign. More than one digit before the point start with no zero. -/
inductive WritesNumeral : Numeral → List Char → Prop
  | parts {n : Numeral} {fraction exponent : List Char} :
    Digits n.whole → (n.whole.head? = some '0' → n.whole = ['0']) →
      WritesFraction n.fraction fraction → WritesExponent n.exponent exponent →
        WritesNumeral n (n.whole ++ (fraction ++ exponent))

/-- What stands behind an opening bracket: parts with commas between them, and the closing bracket.
Without `isFirst` there are parts before these. -/
inductive Listing {α : Type} (close : Char) (Part : α → List Char → Prop) :
    (isFirst : Bool) → List α → List Char → Prop
  | done {isFirst : Bool} {b : List Char} : Blank b → Listing close Part isFirst [] (b ++ [close])
  | first {a : α} {as : List α} {b w ws : List Char} :
    Blank b → Part a w → Listing close Part false as ws →
      Listing close Part true (a :: as) (b ++ (w ++ ws))
  | next {a : α} {as : List α} {b b' w ws : List Char} :
    Blank b → Blank b' → Part a w → Listing close Part false as ws →
      Listing close Part false (a :: as) (b ++ ',' :: (b' ++ (w ++ ws)))

mutual

/-- The texts of a value, without blanks around them. A number that is no natural number below
2^64 is within the range of 64-bit floating point. -/
inductive Writes : JsonValue → List Char → Prop
  | null : Writes .null ['n', 'u', 'l', 'l']
  | yes : Writes (.bool true) ['t', 'r', 'u', 'e']
  | no : Writes (.bool false) ['f', 'a', 'l', 's', 'e']
  | natural {ds w : List Char} : WritesNumeral ⟨ds, none, none⟩ w → decimalValue ds < 2 ^ 64 →
    Writes (.natural (decimalValue ds)) w
  | positive {n : Numeral} {w : List Char} : WritesNumeral n w → n.overflows = false →
    (n.fraction ≠ none ∨ n.exponent ≠ none ∨ 2 ^ 64 ≤ decimalValue n.whole) → Writes .otherNumber w
  | negative {n : Numeral} {w : List Char} : WritesNumeral n w → n.overflows = false →
    Writes .otherNumber ('-' :: w)
  | string {text : String} {w : List Char} : WritesText text.toList w →
    Writes (.string text) ('"' :: w)
  | array {items : List JsonValue} {w : List Char} : Listing ']' Writes true items w →
    Writes (.array items) ('[' :: w)
  | object {fields : List (String × JsonValue)} {w : List Char} :
    Listing '\x7d' WritesField true fields w → Writes (.object fields) ('\x7b' :: w)

/-- The texts of a field, without blanks around them. -/
inductive WritesField : String × JsonValue → List Char → Prop
  | named {name : String} {value : JsonValue} {n b b' w : List Char} :
    WritesText name.toList n → Blank b → Blank b' → Writes value w →
      WritesField (name, value) ('"' :: (n ++ (b ++ ':' :: (b' ++ w))))

end

/-- A whole text is one of a value, with blanks around it. -/
def IsTextOf (text : String) (value : JsonValue) : Prop :=
  ∃ b w b', Blank b ∧ Writes value w ∧ Blank b' ∧ text.toList = b ++ (w ++ b')

end Json

end Packrat
