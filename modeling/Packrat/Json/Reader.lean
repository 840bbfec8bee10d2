import Packrat.Json.Basic
import Packrat.Text.Basic

/-!
# Reading JSON

Readers take a value from the front of some characters and hand on the rest, or tell what is
wrong with the text; the fault that is found first in reading order is the one that is told.
`readValue` reads a value that is looked at, `skipValue` one that is not: a value that is skipped
may nest without limit, and its numbers and escapes stand for nothing.
-/

namespace Packrat.Json

/-- Reads a value from the front of some characters. -/
abbrev Reader (α : Type) := List Char → Except JsonFault (α × List Char)

/-- Whether a character may stand between the parts of a value. -/
def isBlank (c : Char) : Bool := c == ' ' || c == '\n' || c == '\t' || c == '\r'

/-- Drops the blanks at the front. -/
def skipBlanks (cs : List Char) : List Char := cs.dropWhile isBlank

/-- Reads the rest of a word such as `true`. -/
def readWord : (word : List Char) → List Char → Except JsonFault (List Char)
  | [], cs => .ok cs
  | _ :: _, [] => .error .unfinished
  | w :: ws, c :: cs => if w = c then readWord ws cs else .error .malformed

/-- The value of a hexadecimal digit. -/
def hexValue? (c : Char) : Option Nat :=
  if c.isDigit then some (c.toNat - '0'.toNat)
  else if 'a' ≤ c ∧ c ≤ 'f' then some (c.toNat - 'a'.toNat + 10)
  else if 'A' ≤ c ∧ c ≤ 'F' then some (c.toNat - 'A'.toNat + 10)
  else none

/-- Reads four hexadecimal digits. Where fewer than four bytes are left, the text is unfinished,
whatever they are. -/
def readUnit : Reader Nat
  | a :: b :: c :: d :: cs =>
    match hexValue? a, hexValue? b, hexValue? c, hexValue? d with
    | some a, some b, some c, some d => .ok (((a * 16 + b) * 16 + c) * 16 + d, cs)
    | _, _, _, _ => .error .malformed
  | cs => if utf8Length cs < 4 then .error .unfinished else .error .malformed

/-- The character that a letter stands for behind a backslash. -/
def simpleEscape? : Char → Option Char
  | '"' => some '"'
  | '\\' => some '\\'
  | '/' => some '/'
  | 'b' => some '\x08'
  | 'f' => some '\x0c'
  | 'n' => some '\n'
  | 'r' => some '\r'
  | 't' => some '\t'
  | _ => none

/-- Reads the character that starts with a unit of UTF-16: a surrogate needs its other half. -/
def readSurrogate (unit : Nat) (cs : List Char) : Except JsonFault (Char × List Char) :=
  if 0xDC00 ≤ unit ∧ unit ≤ 0xDFFF then .error .malformed
  else if unit < 0xD800 ∨ 0xDBFF < unit then .ok (Char.ofNat unit, cs)
  else
    match cs with
    | [] => .error .unfinished
    | '\\' :: [] => .error .unfinished
    | '\\' :: 'u' :: cs => do
      let (low, cs) ← readUnit cs
      if 0xDC00 ≤ low ∧ low ≤ 0xDFFF then
        return (Char.ofNat ((unit - 0xD800) * 0x400 + (low - 0xDC00) + 0x10000), cs)
      else .error .malformed
    | _ => .error .malformed

/-- Reads the characters of a string behind its opening quote. Without `strict`, what an escape by
number stands for does not matter. -/
def readStringFrom (strict : Bool) : Nat → Reader (List Char)
  | 0, _ => .error .unfinished
  | _ + 1, [] => .error .unfinished
  | fuel + 1, c :: cs =>
    if c == '"' then .ok ([], cs)
    else if c == '\\' then
      match cs with
      | [] => .error .unfinished
      | 'u' :: cs => do
        let (unit, cs) ← readUnit cs
        let (c, cs) ← if strict then readSurrogate unit cs else .ok ('u', cs)
        let (text, cs) ← readStringFrom strict fuel cs
        return (c :: text, cs)
      | letter :: cs =>
        match simpleEscape? letter with
        | some c => do
          let (text, cs) ← readStringFrom strict fuel cs
          return (c :: text, cs)
        | none => .error .malformed
    else if c.toNat < 0x20 then .error .malformed
    else do
      let (text, cs) ← readStringFrom strict fuel cs
      return (c :: text, cs)

/-- Reads a string behind its opening quote. -/
def readString : Reader String := fun cs => do
  let (text, cs) ← readStringFrom true (cs.length + 1) cs
  return (String.ofList text, cs)

/-- Drops a string behind its opening quote. -/
def skipString (cs : List Char) : Except JsonFault (List Char) := do
  let (_, cs) ← readStringFrom false (cs.length + 1) cs
  return cs

/-- The number that decimal digits spell. -/
def decimalValue (digits : List Char) : Nat :=
  digits.foldl (fun n c => 10 * n + (c.toNat - '0'.toNat)) 0

/-- The fault where a digit was to come. What is skipped is never told to be unfinished there. -/
def missingDigit (strict : Bool) : List Char → JsonFault
  | [] => if strict then .unfinished else .malformed
  | _ => .malformed

/-- A number as it is written: the digits before and after the point, and the exponent. -/
structure Numeral where
  whole : List Char
  fraction : Option (List Char)
  exponent : Option (Bool × List Char)

/-- Reads the digits before the point. -/
def readWhole (strict : Bool) : Reader (List Char) := fun cs =>
  match cs.takeWhile Char.isDigit with
  | [] => .error (missingDigit strict cs)
  | '0' :: _ :: _ => .error .malformed
  | whole => .ok (whole, cs.drop whole.length)

/-- Reads the digits behind the point, if there is one. -/
def readFraction (strict : Bool) : Reader (Option (List Char)) := fun cs =>
  match cs with
  | '.' :: cs =>
    match cs.takeWhile Char.isDigit with
    | [] => .error (missingDigit strict cs)
    | digits => .ok (some digits, cs.drop digits.length)
  | cs => .ok (none, cs)

/-- Passes the sign of an exponent and tells whether it is negative. -/
def passSign : List Char → Bool × List Char
  | '+' :: cs => (false, cs)
  | '-' :: cs => (true, cs)
  | cs => (false, cs)

/-- Reads the exponent, if there is one. -/
def readExponent (strict : Bool) : Reader (Option (Bool × List Char)) := fun cs =>
  match cs with
  | e :: cs =>
    if e == 'e' || e == 'E' then
      let (negative, cs) := passSign cs
      match cs.takeWhile Char.isDigit with
      | [] => .error (missingDigit strict cs)
      | digits => .ok (some (negative, digits), cs.drop digits.length)
    else .ok (none, e :: cs)
  | [] => .ok (none, [])

/-- Reads a numeral without its sign. -/
def readNumeral (strict : Bool) : Reader Numeral := fun cs => do
  let (whole, cs) ← readWhole strict cs
  let (fraction, cs) ← readFraction strict cs
  let (exponent, cs) ← readExponent strict cs
  return (⟨whole, fraction, exponent⟩, cs)

/-- The least number that is too great for 64-bit floating point. -/
def floatBound : Nat := Nat.pow 2 1024 - Nat.pow 2 970

/-- Whether a numeral is too great for 64-bit floating point. A numeral with an exponent far out of
reach is not computed. -/
def Numeral.overflows (n : Numeral) : Bool :=
  let fraction := n.fraction.getD []
  let significand := decimalValue (n.whole ++ fraction)
  let scale : Int := match n.exponent with
    | some (negative, digits) =>
      (if negative then -(decimalValue digits : Int) else decimalValue digits) - fraction.length
    | none => -fraction.length
  if significand = 0 then false
  else if scale + n.whole.length + fraction.length < 300 then false
  else if 400 < scale then true
  else if 0 ≤ scale then floatBound ≤ significand * Nat.pow 10 scale.toNat
  else floatBound * Nat.pow 10 (-scale).toNat ≤ significand

/-- Reads a number behind its sign. -/
def readNumber (negative : Bool) : Reader JsonValue := fun cs => do
  let (n, cs) ← readNumeral true cs
  if n.overflows then .error .malformed
  else if n.fraction.isNone && n.exponent.isNone && !negative &&
      decimalValue n.whole < UInt64.size then
    return (.natural (decimalValue n.whole), cs)
  else return (.otherNumber, cs)

/-- Passes to the next item of an array, or tells that there is none and passes the bracket. -/
def nextItem (isFirst : Bool) (cs : List Char) : Except JsonFault (Bool × List Char) :=
  match skipBlanks cs with
  | [] => .error .unfinished
  | ']' :: cs => .ok (false, cs)
  | c :: cs =>
    if isFirst then .ok (true, c :: cs)
    else if c == ',' then
      match skipBlanks cs with
      | [] => .error .unfinished
      | ']' :: _ => .error .malformed
      | cs => .ok (true, cs)
    else .error .malformed

/-- Passes to the text of the next name of an object, or tells that there is none and passes the
brace. -/
def nextName (isFirst : Bool) (cs : List Char) : Except JsonFault (Bool × List Char) :=
  match skipBlanks cs with
  | [] => .error .unfinished
  | '\x7d' :: cs => .ok (false, cs)
  | c :: cs =>
    if isFirst then (if c == '"' then .ok (true, cs) else .error .malformed)
    else if c == ',' then
      match skipBlanks cs with
      | [] => .error .unfinished
      | '"' :: cs => .ok (true, cs)
      | _ => .error .malformed
    else .error .malformed

/-- Passes the colon behind a name. -/
def passColon (cs : List Char) : Except JsonFault (List Char) :=
  match skipBlanks cs with
  | [] => .error .unfinished
  | ':' :: cs => .ok cs
  | _ => .error .malformed

/-- How deeply arrays and objects may nest. -/
def depthLimit : Nat := 127

/-- Reads the items of an array by a reader for one of them. -/
def readItems {α : Type} (read : Reader α) : (fuel : Nat) → (isFirst : Bool) → Reader (List α)
  | 0, _, _ => .error .unfinished
  | fuel + 1, isFirst, cs => do
    match ← nextItem isFirst cs with
    | (false, cs) => return ([], cs)
    | (true, cs) =>
      let (item, cs) ← read cs
      let (items, cs) ← readItems read fuel false cs
      return (item :: items, cs)

/-- Reads the fields of an object by a reader for their values. -/
def readFields {α : Type} (read : Reader α) :
    (fuel : Nat) → (isFirst : Bool) → Reader (List (String × α))
  | 0, _, _ => .error .unfinished
  | fuel + 1, isFirst, cs => do
    match ← nextName isFirst cs with
    | (false, cs) => return ([], cs)
    | (true, cs) =>
      let (name, cs) ← readString cs
      let (value, cs) ← read (← passColon cs)
      let (fields, cs) ← readFields read fuel false cs
      return ((name, value) :: fields, cs)

/-- Reads a value that is no array and no object. -/
def readScalar (cs : List Char) : Except JsonFault (JsonValue × List Char) :=
  match cs with
  | [] => .error .unfinished
  | 'n' :: cs => do return (.null, ← readWord ['u', 'l', 'l'] cs)
  | 't' :: cs => do return (.bool true, ← readWord ['r', 'u', 'e'] cs)
  | 'f' :: cs => do return (.bool false, ← readWord ['a', 'l', 's', 'e'] cs)
  | '"' :: cs => do
    let (text, cs) ← readString cs
    return (.string text, cs)
  | '-' :: cs => readNumber true cs
  | c :: cs => if c.isDigit then readNumber false (c :: cs) else .error .malformed

/-- Reads a value in which arrays and objects nest at most `depth` deep. -/
def readValue : (depth : Nat) → Reader JsonValue
  | 0, cs =>
    match skipBlanks cs with
    | '[' :: _ => .error .malformed
    | '\x7b' :: _ => .error .malformed
    | cs => readScalar cs
  | depth + 1, cs =>
    match skipBlanks cs with
    | '[' :: cs => do
      let (items, cs) ← readItems (readValue depth) (cs.length + 1) true cs
      return (.array items, cs)
    | '\x7b' :: cs => do
      let (fields, cs) ← readFields (readValue depth) (cs.length + 1) true cs
      return (.object fields, cs)
    | cs => readScalar cs

/-- What a skipped value stands in. -/
inductive Enclosure where
  | array
  | object
  deriving Repr, DecidableEq

/-- Drops a value that is no array and no object. -/
def skipScalar (cs : List Char) : Except JsonFault (List Char) :=
  match cs with
  | [] => .error .unfinished
  | 'n' :: cs => readWord ['u', 'l', 'l'] cs
  | 't' :: cs => readWord ['r', 'u', 'e'] cs
  | 'f' :: cs => readWord ['a', 'l', 's', 'e'] cs
  | '"' :: cs => skipString cs
  | '-' :: cs => do return (← readNumeral false cs).2
  | c :: cs =>
    if c.isDigit then do return (← readNumeral false (c :: cs)).2 else .error .malformed

/-- Drops a value that is no array and no object, or the bracket that opens one. -/
def skipOpening (cs : List Char) : Except JsonFault (Option Enclosure × List Char) :=
  match skipBlanks cs with
  | '[' :: cs => .ok (some .array, cs)
  | '\x7b' :: cs => .ok (some .object, cs)
  | cs => do return (none, ← skipScalar cs)

/-- Passes to the next value that stands in an array or an object, or tells that there is none and
passes the closing bracket. -/
def nextValue (enclosure : Enclosure) (isFirst : Bool) (cs : List Char) :
    Except JsonFault (Bool × List Char) :=
  match enclosure with
  | .array => nextItem isFirst cs
  | .object => do
    match ← nextName isFirst cs with
    | (false, cs) => return (false, cs)
    | (true, cs) => return (true, ← passColon (← skipString cs))

/-- Drops the rest of the arrays and objects that are open, the innermost first. -/
def skipOpen : (fuel : Nat) → List Enclosure → (isFirst : Bool) → List Char →
    Except JsonFault (List Char)
  | 0, _, _, _ => .error .unfinished
  | _ + 1, [], _, cs => .ok cs
  | fuel + 1, enclosure :: outer, isFirst, cs => do
    match ← nextValue enclosure isFirst cs with
    | (false, cs) => skipOpen fuel outer false cs
    | (true, cs) =>
      match ← skipOpening cs with
      | (some inner, cs) => skipOpen fuel (inner :: enclosure :: outer) true cs
      | (none, cs) => skipOpen fuel (enclosure :: outer) false cs

/-- Drops a value, however deeply it nests. Every step over an open array or object passes a
character, so as many steps as there are characters are enough. -/
def skipValue (cs : List Char) : Except JsonFault (List Char) := do
  match ← skipOpening cs with
  | (some enclosure, cs) => skipOpen (cs.length + 1) [enclosure] true cs
  | (none, cs) => return cs

/-- The fault of a value that is of another kind than the one asked for. A value that is no array
and no object is read first, so what is wrong within it is told instead. -/
def wrongKind (cs : List Char) : JsonFault :=
  match skipBlanks cs with
  | '[' :: _ => .misshapen
  | '\x7b' :: _ => .misshapen
  | cs =>
    match readScalar cs with
    | .ok _ => .misshapen
    | .error fault => fault

/-- Reads a string where nothing else may stand. -/
def readText : Reader String := fun cs =>
  match skipBlanks cs with
  | '"' :: cs => readString cs
  | cs => .error (wrongKind cs)

/-- Reads a string or null. -/
def readText? : Reader (Option String) := fun cs =>
  match skipBlanks cs with
  | 'n' :: cs => do return (none, ← readWord ['u', 'l', 'l'] cs)
  | cs => do
    let (text, cs) ← readText cs
    return (some text, cs)

/-- Reads an array of things of one kind. -/
def readArray {α : Type} (depth : Nat) (read : Reader α) : Reader (List α) := fun cs =>
  match skipBlanks cs, depth with
  | '[' :: _, 0 => .error .malformed
  | '[' :: cs, _ + 1 => readItems read (cs.length + 1) true cs
  | cs, _ => .error (wrongKind cs)

end Packrat.Json
