import Packrat.Regex.Reading
import Packrat.Unicode.Folding

/-!
# What written expressions mean

`Written.toRegex?` gives a written expression its meaning under flags. A flag switched inside an
expression holds up to the end of the group around it. With Unicode switched off, an expression
speaks of ASCII only, and one that would match half a character has no meaning.
-/

namespace Packrat.Regex

/-- How the text of an expression is read. -/
structure Flags where
  caseInsensitive : Bool
  multiLine : Bool
  dotMatchesNewLine : Bool
  unicode : Bool
  crlf : Bool
  deriving Repr, DecidableEq

namespace Flags

/-- How an expression is read when no flag is switched. -/
def standard : Flags := ⟨false, false, false, true, false⟩

/-- The flags after some of them are switched. -/
def switch (flags : Flags) (items : List FlagItem) : Flags where
  caseInsensitive := (flagSetting? .caseInsensitive true items).getD flags.caseInsensitive
  multiLine := (flagSetting? .multiLine true items).getD flags.multiLine
  dotMatchesNewLine := (flagSetting? .dotMatchesNewLine true items).getD flags.dotMatchesNewLine
  unicode := (flagSetting? .unicode true items).getD flags.unicode
  crlf := (flagSetting? .crlf true items).getD flags.crlf

end Flags

/-- A class with its case variants and its complement taken as asked. A complement reaches beyond
ASCII, so without Unicode there is none. -/
def foldAndNegate (flags : Flags) (negated : Bool) (set : CharSet) : Option CharSet :=
  if flags.unicode then
    let set := if flags.caseInsensitive then set.caseClosure else set
    some (if negated then set.complement else set)
  else if negated then none
  else some (if flags.caseInsensitive then set.asciiCaseClosure else set)

/-- The characters of a class written as one letter. -/
def perlSet (flags : Flags) (negated : Bool) (kind : PerlClass) : Option CharSet :=
  if flags.unicode then
    let set := match kind with
      | .digit => Unicode.digit
      | .space => Unicode.whiteSpace
      | .word => Unicode.word
    some (if negated then set.complement else set)
  else if negated then none
  else match kind with
    | .digit => some (.ofRanges [(0x30, 0x39)])
    | .space => some (.ofRanges [(0x09, 0x0D), (0x20, 0x20)])
    | .word => some (.ofRanges [(0x30, 0x39), (0x41, 0x5A), (0x5F, 0x5F), (0x61, 0x7A)])

/-- The characters of a property class. -/
def propertySet (flags : Flags) (negated : Bool) (query : PropertyQuery) : Option CharSet :=
  if flags.unicode then
    match query with
    | .named name => Unicode.named? name >>= foldAndNegate flags negated
    | .valued property value => Unicode.valued? property value >>= foldAndNegate flags negated
  else none

/-- The character of a literal inside a class. Without Unicode it has to be an ASCII one. -/
def classChar? (flags : Flags) (l : Literal) : Option Char :=
  if flags.unicode || l.char.toNat < 128 then some l.char else none

mutual

/-- The characters of an item of a class. -/
def SetItem.toCharSet? (flags : Flags) : SetItem → Option CharSet
  | .literal l => (classChar? flags l).map .singleton
  | .range first last => do return .range (← classChar? flags first) (← classChar? flags last)
  | .ascii negated ranges => foldAndNegate flags negated (.ofRanges ranges)
  | .perl negated kind => perlSet flags negated kind
  | .property negated query => propertySet flags negated query
  | .nested negated set => do foldAndNegate flags negated (← set.toCharSet? flags)

/-- The characters of the contents of a class. -/
def SetExpr.toCharSet? (flags : Flags) : SetExpr → Option CharSet
  | .union items => (itemSets? flags items).map .unions
  | .op op left right => do
    let left ← left.toCharSet? flags
    let right ← right.toCharSet? flags
    let left := if flags.caseInsensitive then close flags left else left
    let right := if flags.caseInsensitive then close flags right else right
    match op with
    | .intersection => return left.inter right
    | .difference => return left.diff right
    | .symmetricDifference => return left.symmDiff right
where
  /-- The set with its case variants. -/
  close (flags : Flags) (set : CharSet) : CharSet :=
    if flags.unicode then set.caseClosure else set.asciiCaseClosure

/-- The characters of each of some items. -/
def itemSets? (flags : Flags) : List SetItem → Option (List CharSet)
  | [] => some []
  | item :: items => do return (← item.toCharSet? flags) :: (← itemSets? flags items)

end

/-- What a literal outside a class matches. -/
def literalRegex? (flags : Flags) (l : Literal) : Option Regex :=
  if !flags.unicode && l.asByte && 128 ≤ l.char.toNat then none
  else if flags.caseInsensitive then
    if flags.unicode then some (.chars (CharSet.singleton l.char).caseClosure)
    else some (.chars (CharSet.singleton l.char).asciiCaseClosure)
  else some (.chars (.singleton l.char))

/-- What the dot matches: everything, or everything but the ends of lines. -/
def dotRegex? (flags : Flags) : Option Regex :=
  if !flags.unicode then none
  else if flags.dotMatchesNewLine then some (.chars .full)
  else if flags.crlf then some (.chars (CharSet.ofRanges [(0x0A, 0x0A), (0x0D, 0x0D)]).complement)
  else some (.chars (CharSet.singleton '\n').complement)

/-- The look that an assertion stands for. -/
def assertionLook (flags : Flags) : Assertion → Look
  | .lineStart =>
    if flags.multiLine then (if flags.crlf then .crlfStart else .lineStart) else .textStart
  | .lineEnd => if flags.multiLine then (if flags.crlf then .crlfEnd else .lineEnd) else .textEnd
  | .textStart => .textStart
  | .textEnd => .textEnd
  | .word kind => .word kind flags.unicode

mutual

/-- The meaning of a written expression, and the flags behind it. -/
def Written.meaning? (flags : Flags) : Written → Option (Regex × Flags)
  | .empty => some (.empty, flags)
  | .flags items => some (.empty, flags.switch items)
  | .literal l => (literalRegex? flags l).map (·, flags)
  | .dot => (dotRegex? flags).map (·, flags)
  | .assertion kind => some (.look (assertionLook flags kind), flags)
  | .perl negated kind => (perlSet flags negated kind).map fun set => (.chars set, flags)
  | .property negated query => (propertySet flags negated query).map fun set => (.chars set, flags)
  | .bracketed negated set => do
    let set ← foldAndNegate flags negated (← set.toCharSet? flags)
    return (.chars set, flags)
  | .repetition body min max => do
    let (body, flags) ← body.meaning? flags
    return (body.repeated min max, flags)
  | .group items body => do
    let (body, _) ← body.meaning? (flags.switch items)
    return (body, flags)
  | .capture body => do
    let (body, _) ← body.meaning? flags
    return (body.captured, flags)
  | .alternation branches => do
    let (branches, flags) ← meanings? flags branches
    return (.choice branches, flags)
  | .concat parts => do
    let (parts, flags) ← meanings? flags parts
    return (.sequence parts, flags)

/-- The meanings of some expressions in a row, each under the flags behind the one before. -/
def meanings? (flags : Flags) : List Written → Option (List Regex × Flags)
  | [] => some ([], flags)
  | part :: parts => do
    let (first, flags) ← part.meaning? flags
    let (rest, flags) ← meanings? flags parts
    return (first :: rest, flags)

end

/-- The meaning of a written expression under flags, if it has one. -/
def Written.toRegex? (flags : Flags) (written : Written) : Option Regex :=
  (written.meaning? flags).map (·.1)

end Packrat.Regex
