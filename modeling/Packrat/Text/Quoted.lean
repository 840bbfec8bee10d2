import Packrat.Unicode.Lookup

/-!
# Quoted text

A text between double quotes, as labels and printed trees show it: quotes, backslashes and the
common controls are escaped, and so is every character that would not show or that would join
the one before it.
-/

namespace Packrat.Quoted

/-- The digits of a number in lower-case hexadecimal. -/
def hexDigits (n : Nat) : List Char := Nat.toDigits 16 n

/-- Whether a character is shown as it is. -/
def isShown (c : Char) : Bool :=
  if c.toNat < 128 then 0x20 ≤ c.toNat && c.toNat < 0x7F
  else Unicode.printable.contains c && !Unicode.graphemeExtend.contains c

/-- A character as it stands between quotes. -/
def escape (c : Char) : List Char :=
  match c with
  | '"' => ['\\', '"']
  | '\\' => ['\\', '\\']
  | '\t' => ['\\', 't']
  | '\r' => ['\\', 'r']
  | '\n' => ['\\', 'n']
  | '\x00' => ['\\', '0']
  | c => if isShown c then [c] else ['\\', 'u', '\x7b'] ++ hexDigits c.toNat ++ ['\x7d']

end Packrat.Quoted

namespace Packrat

/-- A text between double quotes. -/
def quoted (s : String) : String :=
  String.ofList ('"' :: s.toList.flatMap Quoted.escape ++ ['"'])

end Packrat
