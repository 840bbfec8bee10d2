import Packrat.Json.Basic

/-!
# Printing JSON

Values are printed without blanks, or one field or item to a line with two blanks for each level.
Fields are printed in the order they have; `sorted` puts the fields of a value, and of the values
below it, in the order of their names.
-/

namespace Packrat.JsonValue

/-- Four hexadecimal digits in lower case. -/
def fourHexDigits (n : Nat) : List Char :=
  let digits := Nat.toDigits 16 n
  List.replicate (4 - digits.length) '0' ++ digits

/-- A character as it stands in a JSON string. -/
def escapeChar (c : Char) : List Char :=
  match c with
  | '"' => ['\\', '"']
  | '\\' => ['\\', '\\']
  | '\x08' => ['\\', 'b']
  | '\x0c' => ['\\', 'f']
  | '\n' => ['\\', 'n']
  | '\r' => ['\\', 'r']
  | '\t' => ['\\', 't']
  | c => if c.toNat < 0x20 then '\\' :: 'u' :: fourHexDigits c.toNat else [c]

/-- A JSON string. -/
def renderString (s : String) : String :=
  String.ofList ('"' :: s.toList.flatMap escapeChar ++ ['"'])

mutual

/-- A value without blanks. -/
def compact : JsonValue → String
  | null => "null"
  | bool value => if value then "true" else "false"
  | natural value => toString value
  | otherNumber => "0.5"
  | string text => renderString text
  | array items => "[" ++ ",".intercalate (compactItems items) ++ "]"
  | object fields => "\x7b" ++ ",".intercalate (compactFields fields) ++ "\x7d"

/-- The items of an array without blanks. -/
def compactItems : List JsonValue → List String
  | [] => []
  | item :: items => item.compact :: compactItems items

/-- The fields of an object without blanks. -/
def compactFields : List (String × JsonValue) → List String
  | [] => []
  | (name, value) :: fields => (renderString name ++ ":" ++ value.compact) :: compactFields fields

end

/-- The blanks in front of a line at some level. -/
def indentation (level : Nat) : String := String.ofList (List.replicate (2 * level) ' ')

/-- Lines between brackets, each ended by a comma but the last. -/
def bracketed (opening closing : String) (level : Nat) (lines : List String) : String :=
  match lines with
  | [] => opening ++ closing
  | lines =>
    opening ++ "\n" ++ ",\n".intercalate (lines.map (indentation (level + 1) ++ ·)) ++ "\n" ++
      indentation level ++ closing

mutual

/-- A value with a line for each field and item. -/
def pretty (level : Nat) : JsonValue → String
  | array items => bracketed "[" "]" level (prettyItems (level + 1) items)
  | object fields => bracketed "\x7b" "\x7d" level (prettyFields (level + 1) fields)
  | value => value.compact

/-- The items of an array, one to a line. -/
def prettyItems (level : Nat) : List JsonValue → List String
  | [] => []
  | item :: items => item.pretty level :: prettyItems level items

/-- The fields of an object, one to a line. -/
def prettyFields (level : Nat) : List (String × JsonValue) → List String
  | [] => []
  | (name, value) :: fields =>
    (renderString name ++ ": " ++ value.pretty level) :: prettyFields level fields

end

mutual

/-- The value with the fields of every object in the order of their names. -/
def sorted : JsonValue → JsonValue
  | array items => array (sortedItems items)
  | object fields => object ((sortedFields fields).mergeSort fun a b => a.1 ≤ b.1)
  | value => value

/-- The items of an array with their fields in order. -/
def sortedItems : List JsonValue → List JsonValue
  | [] => []
  | item :: items => item.sorted :: sortedItems items

/-- The fields of an object with the fields below them in order. -/
def sortedFields : List (String × JsonValue) → List (String × JsonValue)
  | [] => []
  | (name, value) :: fields => (name, value.sorted) :: sortedFields fields

end

end Packrat.JsonValue
