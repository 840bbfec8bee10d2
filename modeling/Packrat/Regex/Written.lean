import Packrat.Regex.Basic

/-!
# The written form of regular expressions

An expression as it is written: groups, repetitions, character classes with their set operations,
and the flags that switch how the text after them is read. `Written.depth` is how deeply the parts
of an expression nest; expressions beyond `nestLimit` are refused.
-/

namespace Packrat.Regex

/-- The flags that may be switched inside an expression. -/
inductive Flag where
  | caseInsensitive
  | multiLine
  | dotMatchesNewLine
  | swapGreed
  | unicode
  | crlf
  | ignoreWhitespace
  deriving Repr, DecidableEq

/-- One character between `(?` and its end: a flag, or the dash after which flags are off. -/
inductive FlagItem where
  | flag (flag : Flag)
  | negation
  deriving Repr, DecidableEq

/-- The setting of a flag in a list of flags, if the list mentions it. -/
def flagSetting? (wanted : Flag) : (on : Bool) → List FlagItem → Option Bool
  | _, [] => none
  | _, .negation :: items => flagSetting? wanted false items
  | on, .flag flag :: items => if flag = wanted then some on else flagSetting? wanted on items

/-- A single character. `asByte` tells that it was written as two hexadecimal digits. -/
structure Literal where
  char : Char
  asByte : Bool
  deriving Repr, DecidableEq

/-- The classes written as one letter. -/
inductive PerlClass where
  | digit
  | space
  | word
  deriving Repr, DecidableEq

/-- What stands between the braces of a property class. -/
inductive PropertyQuery where
  | named (name : String)
  | valued (property value : String)
  deriving Repr, DecidableEq

/-- The operations on character sets. -/
inductive SetOp where
  | intersection
  | difference
  | symmetricDifference
  deriving Repr, DecidableEq

mutual

/-- An item of a character class. -/
inductive SetItem where
  | literal (literal : Literal)
  | range (first last : Literal)
  | ascii (negated : Bool) (ranges : List (Nat × Nat))
  | perl (negated : Bool) (kind : PerlClass)
  | property (negated : Bool) (query : PropertyQuery)
  | nested (negated : Bool) (set : SetExpr)

/-- The contents of a character class. -/
inductive SetExpr where
  | union (items : List SetItem)
  | op (op : SetOp) (left right : SetExpr)

end

/-- The assertions, before it is settled which lines and words they speak of. -/
inductive Assertion where
  | lineStart
  | lineEnd
  | textStart
  | textEnd
  | word (kind : WordLook)
  deriving Repr, DecidableEq

/-- An expression as it is written. -/
inductive Written where
  | empty
  | flags (items : List FlagItem)
  | literal (literal : Literal)
  | dot
  | assertion (kind : Assertion)
  | perl (negated : Bool) (kind : PerlClass)
  | property (negated : Bool) (query : PropertyQuery)
  | bracketed (negated : Bool) (set : SetExpr)
  | repetition (body : Written) (min : Nat) (max : Option Nat)
  | group (flags : List FlagItem) (body : Written)
  | capture (body : Written)
  | alternation (branches : List Written)
  | concat (parts : List Written)

mutual

/-- How deeply the parts of an item of a class nest. -/
def SetItem.depth : SetItem → Nat
  | .nested _ set => set.depth + 1
  | _ => 0

/-- How deeply the parts of the contents of a class nest. A union counts from two items on. -/
def SetExpr.depth : SetExpr → Nat
  | .union items =>
    match items with
    | [] => 0
    | [item] => item.depth
    | items => itemsDepth items + 1
  | .op _ left right => max left.depth right.depth + 1

/-- The greatest depth of some items. -/
def itemsDepth : List SetItem → Nat
  | [] => 0
  | item :: items => max item.depth (itemsDepth items)

end

namespace Written

mutual

/-- How deeply the parts of an expression nest. -/
def depth : Written → Nat
  | .bracketed _ set => set.depth + 1
  | .repetition body _ _ => body.depth + 1
  | .group _ body => body.depth + 1
  | .capture body => body.depth + 1
  | .alternation branches => depthAll branches + 1
  | .concat parts => depthAll parts + 1
  | _ => 0

/-- The greatest depth of some expressions. -/
def depthAll : List Written → Nat
  | [] => 0
  | part :: parts => max part.depth (depthAll parts)

end

/-- The deepest nesting that is accepted. -/
def nestLimit : Nat := 250

/-- Parts one after another; a single part stands for itself. -/
def ofParts : List Written → Written
  | [] => .empty
  | [part] => part
  | parts => .concat parts

/-- Branches beside each other; a single branch stands for itself. -/
def ofBranches : List Written → Written
  | [] => .empty
  | [branch] => branch
  | branches => .alternation branches

/-- Whether a repetition may follow: there must be something to repeat. -/
def isRepeatable : Written → Bool
  | .empty => false
  | .flags _ => false
  | _ => true

end Written

end Packrat.Regex
