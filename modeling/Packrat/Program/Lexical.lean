import Packrat.Grammar.Basic
import Packrat.Program.Basic

/-!
# Lexical expressions

An expression that is a single terminal has a form, from which the terminal is made. The content
of a token becomes the source text of one regular expression, in which repetitions, alternatives
and literals mean what they mean in the grammar.
-/

namespace Packrat

/-- What a terminal is made from. -/
inductive TerminalForm where
  | literal (text : String)
  | pattern (source : String) (flags : Option String)
  deriving Repr, DecidableEq, Hashable

namespace TerminalForm

/-- The terminal of a form. -/
def terminal : TerminalForm → Except PatternError Terminal
  | literal text => .ok (.literal text)
  | pattern source flags => (Pattern.read source flags).map .pattern

/-- The kind of the leaves of a terminal that has no name of its own. -/
def kind : TerminalForm → Kind
  | literal text => ⟨text, false, .token⟩
  | pattern source _ => ⟨"/" ++ source ++ "/", true, .token⟩

end TerminalForm

/-- The characters that mean something in regular expressions. -/
def regexSpecials : List Char := "\\.+*?()|[]\x7b\x7d^$#&-~".toList

/-- The source text of a regular expression for a literal. -/
def escapedForRegex (text : String) : String :=
  String.ofList (text.toList.flatMap fun c => if regexSpecials.contains c then ['\\', c] else [c])

/-- The source text of a group. -/
def regexGroup (source : String) : String := "(?:" ++ source ++ ")"

/-- The source text of a pattern under flags of its own. Only some flags change its meaning. -/
def regexWithFlags (source : String) (flags : Option String) : String :=
  let inline := (flags.getD "").toList.filter fun c => c == 'i' || c == 's' || c == 'm'
  "(?" ++ String.ofList inline ++ ":" ++ source ++ ")"

/-- The mark of a repetition behind what is repeated. -/
def repetitionMark (min : UInt32) (max : Option UInt32) : String :=
  match max with
  | none =>
    if min = 0 then "*"
    else if min = 1 then "+"
    else "\x7b" ++ toString min.toNat ++ ",\x7d"
  | some max =>
    if min = 0 ∧ max = 1 then "?"
    else "\x7b" ++ toString min.toNat ++ "," ++ toString max.toNat ++ "\x7d"

namespace Rule

/-- Whether an expression is a choice. -/
def isChoice : Rule → Bool
  | choice _ => true
  | _ => false

mutual

/-- The source text of a regular expression for the content of a token. -/
def regexSource : Rule → String
  | blank => ""
  | literal text => escapedForRegex text
  | pattern source flags => regexWithFlags source flags
  | symbol _ => ""
  | seq members => seqSource members
  | choice members => regexGroup (String.intercalate "|" (sources members))
  | repetition content min max => regexGroup content.regexSource ++ repetitionMark min max
  | token content _ => content.regexSource
  | renamed content _ _ => content.regexSource
  | field _ content => content.regexSource

/-- The source texts of some expressions. -/
def sources : List Rule → List String
  | [] => []
  | r :: rs => r.regexSource :: sources rs

/-- The source text for expressions one after another. A choice is a group already. -/
def seqSource : List Rule → String
  | [] => ""
  | r :: rs =>
    (if r.isChoice then r.regexSource else regexGroup r.regexSource) ++ seqSource rs

end

/-- The form of an expression that is a literal or a pattern. -/
def simpleForm? (r : Rule) : Option TerminalForm :=
  match r.unwrapped with
  | literal text => some (.literal text)
  | pattern source flags => some (.pattern source flags)
  | _ => none

/-- The form of an expression that is a single terminal. -/
def form? (r : Rule) : Option TerminalForm :=
  match r.unwrapped with
  | token content _ =>
    some ((content.simpleForm?).getD (.pattern content.unwrapped.regexSource none))
  | _ => r.simpleForm?

/-- Whether an expression is a token before which no extras may stand. -/
def isImmediate (r : Rule) : Bool :=
  match r.unwrapped with
  | token _ immediate => immediate
  | _ => false

end Rule

end Packrat
