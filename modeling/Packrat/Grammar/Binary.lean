import Packrat.Grammar.Basic

/-!
# The binary form of grammars

Numbers are written seven bits to a byte, the lowest first, with the high bit on every byte but
the last. Texts and lists are led by their lengths, optional values by 0 or 1, and expressions by
the number of their kind. `encode` writes a grammar and `decode` reads one from the front of some
bytes, accepting longer spellings of a number too.
-/

namespace Packrat

/-- Why bytes do not begin with a grammar. -/
inductive BinaryError where
  | unexpectedEnd
  | badNumber
  | badBool
  | badOption
  | badText
  | badKind
  deriving Repr, DecidableEq

namespace BinaryError

/-- The error in words. -/
def message : BinaryError → String
  | unexpectedEnd => "Hit the end of buffer, expected more data"
  | badNumber => "Found a varint that didn't terminate. Is the usize too big for this platform?"
  | badBool => "Found a bool that wasn't 0 or 1"
  | badOption => "Found an Option discriminant that wasn't 0 or 1"
  | badText => "Tried to parse invalid utf-8"
  | badKind => "Serde Deserialization Error"

end BinaryError

namespace Binary

/-- Writes a number. -/
def number (n : Nat) : List UInt8 :=
  if n < 128 then [UInt8.ofNat n] else UInt8.ofNat (n % 128 + 128) :: number (n / 128)

/-- Writes a truth value. -/
def bool (b : Bool) : List UInt8 := [if b then 1 else 0]

/-- Writes a text. -/
def text (s : String) : List UInt8 := number s.utf8ByteSize ++ s.toUTF8.data.toList

/-- Writes an optional value. -/
def option {α : Type} (write : α → List UInt8) : Option α → List UInt8
  | none => [0]
  | some a => 1 :: write a

/-- Writes a list. -/
def list {α : Type} (write : α → List UInt8) (items : List α) : List UInt8 :=
  number items.length ++ items.flatMap write

mutual

/-- Writes an expression. -/
def rule : Rule → List UInt8
  | .blank => [0]
  | .literal s => 1 :: text s
  | .pattern source flags => 2 :: text source ++ option text flags
  | .symbol name => 3 :: text name
  | .seq members => 4 :: number members.length ++ rules members
  | .choice members => 5 :: number members.length ++ rules members
  | .repetition content min max =>
    6 :: rule content ++ number min.toNat ++ option (fun n => number n.toNat) max
  | .token content immediate => 7 :: rule content ++ bool immediate
  | .renamed content name named => 8 :: rule content ++ text name ++ bool named
  | .field name content => 9 :: text name ++ rule content

/-- Writes expressions one after another. -/
def rules : List Rule → List UInt8
  | [] => []
  | r :: rs => rule r ++ rules rs

end

/-- Writes a rule with its name. -/
def namedRule (r : String × Rule) : List UInt8 := text r.1 ++ rule r.2

/-- Reads a value from the front of some bytes and leaves the rest. -/
abbrev Reader := StateT (List UInt8) (Except BinaryError)

/-- Reads a byte. -/
def readByte : Reader UInt8
  | [] => .error .unexpectedEnd
  | b :: bytes => .ok (b, bytes)

/-- Reads so many bytes. -/
def readBytes (size : Nat) : Reader (List UInt8) := fun bytes =>
  if bytes.length < size then .error .unexpectedEnd else .ok (bytes.take size, bytes.drop size)

/-- Reads a number of at most `count` bytes, the last of which is at most `lastMax` if there are
that many. `shift` and `value` tell what was read before. -/
def readNumberFrom (lastMax : Nat) : (count shift value : Nat) → Reader Nat
  | 0, _, _ => throw .badNumber
  | count + 1, shift, value => do
    let b ← readByte
    let value := value + (b.toNat % 128) <<< shift
    if b.toNat < 128 then
      if count = 0 ∧ lastMax < b.toNat then throw .badNumber else return value
    else readNumberFrom lastMax count (shift + 7) value

/-- Reads a number of 64 bits. -/
def readLong : Reader Nat := readNumberFrom 0x01 10 0 0

/-- Reads a number of 32 bits. -/
def readWord : Reader UInt32 := return UInt32.ofNat (← readNumberFrom 0x0f 5 0 0)

/-- Reads a truth value. -/
def readBool : Reader Bool := do
  match (← readByte).toNat with
  | 0 => return false
  | 1 => return true
  | _ => throw .badBool

/-- Reads a text. -/
def readText : Reader String := do
  let bytes ← readBytes (← readLong)
  match String.fromUTF8? ⟨bytes.toArray⟩ with
  | some s => return s
  | none => throw .badText

/-- Reads an optional value. -/
def readOption {α : Type} (read : Reader α) : Reader (Option α) := do
  match (← readByte).toNat with
  | 0 => return none
  | 1 => return some (← read)
  | _ => throw .badOption

/-- Reads a number of values. -/
def readMany {α : Type} (read : Reader α) : Nat → Reader (List α)
  | 0 => return []
  | n + 1 => return (← read) :: (← readMany read n)

/-- Reads a list. -/
def readList {α : Type} (read : Reader α) : Reader (List α) := do
  readMany read (← readLong)

/-- Reads what stands behind the number of a kind of expressions, given how to read the expressions
in it. -/
def readContent (read : Reader Rule) : (kind : Nat) → Reader Rule
  | 0 => return .blank
  | 1 => return .literal (← readText)
  | 2 => return .pattern (← readText) (← readOption readText)
  | 3 => return .symbol (← readText)
  | 4 => return .seq (← readList read)
  | 5 => return .choice (← readList read)
  | 6 => return .repetition (← read) (← readWord) (← readOption readWord)
  | 7 => return .token (← read) (← readBool)
  | 8 => return .renamed (← read) (← readText) (← readBool)
  | 9 => return .field (← readText) (← read)
  | _ => throw .badKind

/-- Reads an expression of at most so many levels. -/
def readRule : (levels : Nat) → Reader Rule
  | 0 => throw .unexpectedEnd
  | levels + 1 => do readContent (readRule levels) (← readWord).toNat

/-- Reads an expression. Every expression takes a byte, so as many levels as there are bytes are
enough. -/
def readAnyRule : Reader Rule := fun bytes => readRule (bytes.length + 1) bytes

/-- Reads a rule with its name. -/
def readNamedRule : Reader (String × Rule) := return (← readText, ← readAnyRule)

/-- Reads a grammar. -/
def readGrammar : Reader Grammar := return {
  name := ← readText
  start := ← readOption readText
  rules := ← readList readNamedRule
  extras := ← readList readAnyRule
  inlined := ← readList readText
  supertypes := ← readList readText
  word := ← readOption readText
  externals := ← readList readAnyRule }

end Binary

namespace Grammar

/-- The binary form of a grammar. -/
def encode (g : Grammar) : List UInt8 :=
  Binary.text g.name ++ Binary.option Binary.text g.start ++
    Binary.list Binary.namedRule g.rules ++
    Binary.list Binary.rule g.extras ++ Binary.list Binary.text g.inlined ++
    Binary.list Binary.text g.supertypes ++ Binary.option Binary.text g.word ++
    Binary.list Binary.rule g.externals

/-- The grammar that some bytes begin with. -/
def decode (bytes : List UInt8) : Except BinaryError Grammar := Binary.readGrammar.run' bytes

end Grammar

end Packrat
