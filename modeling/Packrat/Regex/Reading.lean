import Packrat.Regex.Written
import Packrat.Unicode.Lookup

/-!
# Reading regular expressions

`Written.read?` reads an expression from its characters, or finds that it is none. Every function
takes the characters that are left and hands on those behind what it read. In the mode that
ignores blanks, blanks and comments may stand between any two characters of an expression.
-/

namespace Packrat.Regex

open Packrat.Unicode (hexDigit? hexValue)

/-- Whether a character is a blank of any kind. -/
def isBlank (c : Char) : Bool := Unicode.whiteSpace.contains c

/-- Whether a character is a hexadecimal digit. -/
def isHexDigit (c : Char) : Bool := (hexDigit? c).isSome

/-- Drops blanks and comments. -/
def dropBlanks : (inComment : Bool) → List Char → List Char
  | _, [] => []
  | true, c :: cs => dropBlanks (c != '\n') cs
  | false, c :: cs =>
    if isBlank c then dropBlanks false cs
    else if c == '#' then dropBlanks true cs
    else c :: cs

/-- Drops blanks and comments in the mode that ignores them. -/
def skip (blankless : Bool) (cs : List Char) : List Char :=
  if blankless then dropBlanks false cs else cs

/-- The next character that counts, where a comment sign itself is taken for a blank. -/
def peekPast (blankless : Bool) (cs : List Char) : Option Char :=
  if blankless then
    match cs.dropWhile isBlank with
    | '#' :: rest => (rest.dropWhile isBlank).head?
    | rest => rest.head?
  else cs.head?

/-- The characters with a meaning of their own, which a backslash takes away. -/
def isMeta (c : Char) : Bool := "\\.+*?()|[]\x7b\x7d^$#&-~".toList.contains c

/-- The characters that a backslash leaves as they are. -/
def isEscapable (c : Char) : Bool :=
  isMeta c || (c.toNat < 128 && !c.isAlphanum && c != '<' && c != '>')

/-- A character by its number. -/
def charOfNat? (n : Nat) : Option Char :=
  if n.isValidChar then some (Char.ofNat n) else none

/-- Reads exactly `n` hexadecimal digits. -/
def readHexDigits (blankless : Bool) : Nat → List Char → Option (List Char × List Char)
  | 0, cs => some ([], cs)
  | n + 1, c :: cs =>
    if isHexDigit c then do
      let (digits, rest) ← readHexDigits blankless n (skip blankless cs)
      return (c :: digits, rest)
    else none
  | _ + 1, [] => none

/-- Reads characters up to a closing brace, which is taken too. -/
def readBraced (blankless : Bool) : Nat → List Char → Option (List Char × List Char)
  | 0, _ => none
  | fuel + 1, cs =>
    match skip blankless cs with
    | [] => none
    | '\x7d' :: rest => some ([], rest)
    | c :: rest => do
      let (inner, rest) ← readBraced blankless fuel rest
      return (c :: inner, rest)

/-- Reads the number behind `\x`, `\u` or `\U`: in braces, or with as many digits as the letter
asks for. -/
def readHex (blankless : Bool) (letter : Char) (cs : List Char) : Option (Literal × List Char) :=
  match skip blankless cs with
  | '\x7b' :: rest => do
    let (digits, rest) ← readBraced blankless (rest.length + 1) rest
    if digits.isEmpty || !digits.all isHexDigit then none
    let c ← charOfNat? (hexValue digits)
    return (⟨c, false⟩, skip blankless rest)
  | rest => do
    let count := if letter == 'x' then 2 else if letter == 'u' then 4 else 8
    let (digits, rest) ← readHexDigits blankless count rest
    let c ← charOfNat? (hexValue digits)
    return (⟨c, letter == 'x'⟩, rest)

/-- Splits at the first place where `mark` stands. -/
def splitAtMark? (mark : List Char) : List Char → Option (List Char × List Char)
  | [] => none
  | c :: cs =>
    if mark.isPrefixOf (c :: cs) then some ([], (c :: cs).drop mark.length)
    else (splitAtMark? mark cs).map fun parts => (c :: parts.1, parts.2)

/-- The signs that may stand between a property and its value. The first one that occurs counts,
and all mean the same: only the letter before the braces tells whether a class is negated. -/
def valueMarks : List (List Char) := [['!', '='], [':'], ['=']]

/-- The query that the text between the braces of a property class makes. -/
def propertyQuery (inner : List Char) : PropertyQuery :=
  match valueMarks.findSome? fun mark => splitAtMark? mark inner with
  | some (name, value) => .valued (.ofList name) (.ofList value)
  | none => .named (.ofList inner)

/-- Reads what follows `\p`. -/
def readProperty (blankless : Bool) (cs : List Char) : Option (PropertyQuery × List Char) :=
  match skip blankless cs with
  | [] => none
  | '\x7b' :: rest => do
    let (inner, rest) ← readBraced blankless (rest.length + 1) rest
    return (propertyQuery inner, rest)
  | c :: rest =>
    if c == '\\' then none else some (.named (String.singleton c), skip blankless rest)

/-- What a backslash and the characters after it can be. -/
inductive Escape where
  | literal (literal : Literal)
  | assertion (kind : Assertion)
  | perl (negated : Bool) (kind : PerlClass)
  | property (negated : Bool) (query : PropertyQuery)

/-- The word looks that have names. -/
def wordLookNamed? (name : List Char) : Option WordLook :=
  if name = "start".toList then some .start
  else if name = "end".toList then some .stop
  else if name = "start-half".toList then some .startHalf
  else if name = "end-half".toList then some .stopHalf
  else none

/-- Whether a character may stand in the name of a word look. -/
def isLookNameChar (c : Char) : Bool := c.isAlpha || c == '-'

/-- Reads the letters and dashes of the name of a word look. -/
def readLookName (blankless : Bool) : Nat → List Char → List Char × List Char
  | 0, cs => ([], cs)
  | fuel + 1, c :: cs =>
    if isLookNameChar c then
      let (name, rest) := readLookName blankless fuel (skip blankless cs)
      (c :: name, rest)
    else ([], c :: cs)
  | _ + 1, [] => ([], [])

/-- Reads what follows `\b`: the name of a word look in braces, or nothing. A brace before
anything but a name is left for a repetition. -/
def readWordLook (blankless : Bool) (cs : List Char) : Option (WordLook × List Char) :=
  match cs with
  | '\x7b' :: inner =>
    match skip blankless inner with
    | [] => none
    | c :: rest =>
      if isLookNameChar c then
        match readLookName blankless (rest.length + 1) (c :: rest) with
        | (name, '\x7d' :: rest) => do return (← wordLookNamed? name, rest)
        | _ => none
      else some (.boundary, cs)
  | _ => some (.boundary, cs)

/-- Reads what follows a backslash. -/
def readEscape (blankless : Bool) : List Char → Option (Escape × List Char)
  | [] => none
  | c :: cs =>
    match c with
    | 'x' | 'u' | 'U' => do
      let (literal, rest) ← readHex blankless c cs
      return (.literal literal, rest)
    | 'p' | 'P' => do
      let (query, rest) ← readProperty blankless cs
      return (.property (c == 'P') query, rest)
    | 'd' => some (.perl false .digit, cs)
    | 'D' => some (.perl true .digit, cs)
    | 's' => some (.perl false .space, cs)
    | 'S' => some (.perl true .space, cs)
    | 'w' => some (.perl false .word, cs)
    | 'W' => some (.perl true .word, cs)
    | 'a' => some (.literal ⟨'\x07', false⟩, cs)
    | 'f' => some (.literal ⟨'\x0c', false⟩, cs)
    | 't' => some (.literal ⟨'\t', false⟩, cs)
    | 'n' => some (.literal ⟨'\n', false⟩, cs)
    | 'r' => some (.literal ⟨'\r', false⟩, cs)
    | 'v' => some (.literal ⟨'\x0b', false⟩, cs)
    | 'A' => some (.assertion .textStart, cs)
    | 'z' => some (.assertion .textEnd, cs)
    | 'b' => do
      let (kind, rest) ← readWordLook blankless cs
      return (.assertion (.word kind), rest)
    | 'B' => some (.assertion (.word .inside), cs)
    | '<' => some (.assertion (.word .start), cs)
    | '>' => some (.assertion (.word .stop), cs)
    | _ => if isEscapable c then some (.literal ⟨c, false⟩, cs) else none

/-- The ranges of the named ASCII classes. -/
def asciiClass? (name : List Char) : Option (List (Nat × Nat)) :=
  match String.ofList name with
  | "alnum" => some [(0x30, 0x39), (0x41, 0x5A), (0x61, 0x7A)]
  | "alpha" => some [(0x41, 0x5A), (0x61, 0x7A)]
  | "ascii" => some [(0x00, 0x7F)]
  | "blank" => some [(0x09, 0x09), (0x20, 0x20)]
  | "cntrl" => some [(0x00, 0x1F), (0x7F, 0x7F)]
  | "digit" => some [(0x30, 0x39)]
  | "graph" => some [(0x21, 0x7E)]
  | "lower" => some [(0x61, 0x7A)]
  | "print" => some [(0x20, 0x7E)]
  | "punct" => some [(0x21, 0x2F), (0x3A, 0x40), (0x5B, 0x60), (0x7B, 0x7E)]
  | "space" => some [(0x09, 0x0D), (0x20, 0x20)]
  | "upper" => some [(0x41, 0x5A)]
  | "word" => some [(0x30, 0x39), (0x41, 0x5A), (0x5F, 0x5F), (0x61, 0x7A)]
  | "xdigit" => some [(0x30, 0x39), (0x41, 0x46), (0x61, 0x66)]
  | _ => none

/-- Reads a named ASCII class such as `[:alpha:]`, behind its opening bracket. -/
def readAsciiClass (cs : List Char) : Option (SetItem × List Char) :=
  match cs with
  | ':' :: inner =>
    let negated := inner.head? == some '^'
    let inner := if negated then inner.drop 1 else inner
    match inner.dropWhile (· != ':') with
    | ':' :: ']' :: rest =>
      (asciiClass? (inner.takeWhile (· != ':'))).map fun ranges => (.ascii negated ranges, rest)
    | _ => none
  | _ => none

/-- Reads what opens a class behind its bracket: `^`, then dashes, then a bracket that stands for
itself if nothing came before it. -/
def readSetOpening (blankless : Bool) (cs : List Char) :
    Option (Bool × List SetItem × List Char) :=
  let (negated, cs) := match skip blankless cs with
    | '^' :: rest => (true, skip blankless rest)
    | rest => (false, rest)
  let (items, cs) := dashes cs.length cs
  match items, cs with
  | _, [] => none
  | [], ']' :: rest => some (negated, [.literal ⟨']', false⟩], skip blankless rest)
  | items, cs => some (negated, items, cs)
where
  /-- The dashes at the front, as items. -/
  dashes : Nat → List Char → List SetItem × List Char
    | fuel + 1, '-' :: rest =>
      let (items, rest) := dashes fuel (skip blankless rest)
      (.literal ⟨'-', false⟩ :: items, rest)
    | _, rest => ([], rest)

/-- Reads one end of a range, or an item that is no character. -/
def readSetPrimitive (blankless : Bool) : List Char → Option (Escape × List Char)
  | [] => none
  | '\\' :: rest => readEscape blankless rest
  | c :: rest => some (.literal ⟨c, false⟩, rest)

/-- An escape as an item of a class. -/
def Escape.toSetItem? : Escape → Option SetItem
  | .literal l => some (.literal l)
  | .perl negated kind => some (.perl negated kind)
  | .property negated query => some (.property negated query)
  | .assertion _ => none

/-- Reads an item of a class, which may be a range. -/
def readSetRange (blankless : Bool) (cs : List Char) : Option (SetItem × List Char) := do
  let (first, rest) ← readSetPrimitive blankless cs
  match skip blankless rest with
  | [] => none
  | '-' :: more =>
    let next := peekPast blankless more
    if next == some ']' || next == some '-' then
      return (← first.toSetItem?, '-' :: more)
    let (last, rest) ← readSetPrimitive blankless (skip blankless more)
    match first, last with
    | .literal first, .literal last =>
      if first.char ≤ last.char then some (.range first last, rest) else none
    | _, _ => none
  | rest => return (← first.toSetItem?, rest)

/-- Joins what stands on the left of an operation with what follows it. -/
def joinOperand : Option (SetOp × SetExpr) → SetExpr → SetExpr
  | some (op, left), right => .op op left right
  | none, right => right

/-- The operation on sets that the characters begin with, if they do. -/
def readSetOp : List Char → Option (SetOp × List Char)
  | '&' :: '&' :: rest => some (.intersection, rest)
  | '-' :: '-' :: rest => some (.difference, rest)
  | '~' :: '~' :: rest => some (.symmetricDifference, rest)
  | _ => none

/-- Reads the items of a class up to its closing bracket. `items` are those of the current
operand, last one first, and `left` is what stands before it. -/
def readSet (blankless : Bool) : Nat → List Char → List SetItem → Option (SetOp × SetExpr) →
    Option (SetExpr × List Char)
  | 0, _, _, _ => none
  | fuel + 1, cs, items, left =>
    match skip blankless cs with
    | [] => none
    | '[' :: rest =>
      match readAsciiClass rest with
      | some (item, rest) => readSet blankless fuel rest (item :: items) left
      | none => do
        let (negated, first, rest) ← readSetOpening blankless rest
        let (inner, rest) ← readSet blankless fuel rest first.reverse none
        readSet blankless fuel rest (.nested negated inner :: items) left
    | ']' :: rest => some (joinOperand left (.union items.reverse), rest)
    | cs =>
      match readSetOp cs with
      | some (op, rest) =>
        readSet blankless fuel rest [] (some (op, joinOperand left (.union items.reverse)))
      | none => do
        let (item, rest) ← readSetRange blankless cs
        readSet blankless fuel rest (item :: items) left

/-- Reads a class behind its opening bracket. -/
def readBracketed (blankless : Bool) (cs : List Char) : Option (Written × List Char) := do
  let (negated, first, rest) ← readSetOpening blankless cs
  let (set, rest) ← readSet blankless (cs.length + 1) rest first.reverse none
  return (.bracketed negated set, rest)

/-- Reads a decimal number, around which blanks may stand in every mode. -/
def readDecimal (blankless : Bool) (cs : List Char) : Option Nat × List Char :=
  let cs := cs.dropWhile isBlank
  let (digits, rest) := digitsOf (cs.length + 1) cs
  let value := digits.foldl (fun n c => 10 * n + (c.toNat - '0'.toNat)) 0
  (if digits.isEmpty || UInt32.size ≤ value then none else some value, rest.dropWhile isBlank)
where
  /-- The digits at the front. -/
  digitsOf : Nat → List Char → List Char × List Char
    | fuel + 1, c :: rest =>
      if c.isDigit then
        let (digits, rest) := digitsOf fuel (skip blankless rest)
        (c :: digits, rest)
      else ([], c :: rest)
    | _, rest => ([], rest)

/-- Reads the bounds of a counted repetition behind its opening brace. -/
def readBounds (blankless : Bool) (cs : List Char) :
    Option ((Nat × Option Nat) × List Char) := do
  let (least, rest) := readDecimal blankless (skip blankless cs)
  let least ← least
  match rest with
  | '\x7d' :: rest => some ((least, some least), rest)
  | ',' :: rest =>
    match skip blankless rest with
    | '\x7d' :: rest => some ((least, none), rest)
    | rest =>
      match readDecimal blankless rest with
      | (some most, '\x7d' :: rest) =>
        if least ≤ most then some ((least, some most), rest) else none
      | _ => none
  | _ => none

/-- Drops the question mark that makes a repetition lazy. -/
def dropLazy : List Char → List Char
  | '?' :: rest => rest
  | rest => rest

/-- The flag that a letter stands for. -/
def flag? : Char → Option Flag
  | 'i' => some .caseInsensitive
  | 'm' => some .multiLine
  | 's' => some .dotMatchesNewLine
  | 'U' => some .swapGreed
  | 'u' => some .unicode
  | 'R' => some .crlf
  | 'x' => some .ignoreWhitespace
  | _ => none

/-- Reads flags up to a colon or a closing parenthesis, which is left. No item may come twice,
and the last one may not be the dash. -/
def readFlags : List Char → (seen : List FlagItem) → Option (List FlagItem × List Char)
  | [], _ => none
  | c :: rest, seen =>
    if c == ':' || c == ')' then
      if seen.head? == some .negation then none else some (seen.reverse, c :: rest)
    else do
      let item ← if c == '-' then some .negation else (flag? c).map .flag
      if seen.contains item then none
      readFlags rest (item :: seen)

/-- Whether a character may stand in the name of a group. -/
def isNameChar (isFirst : Bool) (c : Char) : Bool :=
  c == '_' || Unicode.alphabetic.contains c ||
    (!isFirst && (c == '.' || c == '[' || c == ']' || Unicode.number.contains c))

/-- Reads the name of a group up to its closing angle bracket. -/
def readName (cs : List Char) : Option (List Char × List Char) :=
  match cs.takeWhile (· != '>'), cs.dropWhile (· != '>') with
  | first :: more, '>' :: rest =>
    if isNameChar true first && more.all (isNameChar false) then some (first :: more, rest)
    else none
  | _, _ => none

/-- What the characters behind an opening parenthesis open: flags, a group that captures nothing, or
one that captures and may have a name. -/
inductive Opening where
  | flags (items : List FlagItem)
  | group (flags : List FlagItem)
  | capture (name : Option (List Char))

/-- Reads what a parenthesis opens. -/
def readOpening (cs : List Char) : Option (Opening × List Char) :=
  match cs with
  | '?' :: '=' :: _ | '?' :: '!' :: _ | '?' :: '<' :: '=' :: _ | '?' :: '<' :: '!' :: _ => none
  | '?' :: 'P' :: '<' :: rest | '?' :: '<' :: rest => do
    let (name, rest) ← readName rest
    return (.capture (some name), rest)
  | '?' :: rest => do
    let (items, rest) ← readFlags rest []
    match rest with
    | ')' :: rest => if items.isEmpty then none else some (.flags items, rest)
    | _ :: rest => some (.group items, rest)
    | [] => none
  | rest => some (.capture none, rest)

/-- What the reader carries along: whether blanks are ignored, and the names of groups. -/
structure ReadMode where
  blankless : Bool
  names : List (List Char)

/-- An escape as an expression. -/
def Escape.toWritten : Escape → Written
  | .literal l => .literal l
  | .assertion kind => .assertion kind
  | .perl negated kind => .perl negated kind
  | .property negated query => .property negated query

/-- Applies a repetition to the last part, if there is one that can be repeated. -/
def repeatLast (min : Nat) (max : Option Nat) : List Written → Option (List Written)
  | part :: parts => if part.isRepeatable then some (.repetition part min max :: parts) else none
  | [] => none

/-- Reads branches up to a closing parenthesis, which is left, or the end. `branches` and `parts`
are the finished branches and the parts of the current one, last one first. -/
def readBranches : Nat → ReadMode → List Char → (branches parts : List Written) →
    Option (Written × ReadMode × List Char)
  | 0, _, _, _, _ => none
  | fuel + 1, mode, cs, branches, parts =>
    match skip mode.blankless cs with
    | [] => some (close branches parts, mode, [])
    | ')' :: rest => some (close branches parts, mode, ')' :: rest)
    | '|' :: rest => readBranches fuel mode rest (.ofParts parts.reverse :: branches) []
    | '(' :: rest => do
      let (opening, rest) ← readOpening (skip mode.blankless rest)
      match opening with
      | .flags items =>
        let blankless := (flagSetting? .ignoreWhitespace true items).getD mode.blankless
        readBranches fuel { mode with blankless } rest branches (.flags items :: parts)
      | .group items =>
        let blankless := (flagSetting? .ignoreWhitespace true items).getD mode.blankless
        let (inner, after, rest) ← readBranches fuel { mode with blankless } rest [] []
        match rest with
        | ')' :: rest =>
          readBranches fuel ⟨mode.blankless, after.names⟩ rest branches
            (.group items inner :: parts)
        | _ => none
      | .capture name =>
        if name.any mode.names.contains then none
        let (inner, after, rest) ←
          readBranches fuel { mode with names := name.toList ++ mode.names } rest [] []
        match rest with
        | ')' :: rest =>
          readBranches fuel ⟨mode.blankless, after.names⟩ rest branches (.capture inner :: parts)
        | _ => none
    | '[' :: rest => do
      let (item, rest) ← readBracketed mode.blankless rest
      readBranches fuel mode rest branches (item :: parts)
    | '?' :: rest => do
      readBranches fuel mode (dropLazy rest) branches (← repeatLast 0 (some 1) parts)
    | '*' :: rest => do
      readBranches fuel mode (dropLazy rest) branches (← repeatLast 0 none parts)
    | '+' :: rest => do
      readBranches fuel mode (dropLazy rest) branches (← repeatLast 1 none parts)
    | '\x7b' :: rest => do
      let (bounds, rest) ← readBounds mode.blankless rest
      readBranches fuel mode (dropLazy (skip mode.blankless rest)) branches
        (← repeatLast bounds.1 bounds.2 parts)
    | '\\' :: rest => do
      let (escape, rest) ← readEscape mode.blankless rest
      readBranches fuel mode rest branches (escape.toWritten :: parts)
    | '.' :: rest => readBranches fuel mode rest branches (.dot :: parts)
    | '^' :: rest => readBranches fuel mode rest branches (.assertion .lineStart :: parts)
    | '$' :: rest => readBranches fuel mode rest branches (.assertion .lineEnd :: parts)
    | c :: rest => readBranches fuel mode rest branches (.literal ⟨c, false⟩ :: parts)
where
  /-- The expression of some branches and the parts of the last one. -/
  close (branches parts : List Written) : Written :=
    .ofBranches (Written.ofParts parts.reverse :: branches).reverse

/-- Reads a whole expression. -/
def Written.read? (source : String) : Option Written := do
  let cs := source.toList
  let (written, _, rest) ← readBranches (cs.length + 1) ⟨false, []⟩ cs [] []
  if rest.isEmpty && written.depth ≤ nestLimit then some written else none

end Packrat.Regex
