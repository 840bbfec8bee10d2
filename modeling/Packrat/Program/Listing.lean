import Packrat.Palette
import Packrat.Program.Lexical

/-!
# Listings of programs

A listing shows the rules of a program as expressions and its tables of kinds and terminals.
-/

namespace Packrat

namespace Program

/-- A kind, in quotes unless it is named. -/
def kindText (p : Program) (c : Palette) (k : Nat) : String :=
  if p.isNamed k then c.inBlue (p.kindName k) else c.inGreen (p.kindLabel k)

/-- A token: the name of its kind, or its terminal. -/
def tokenText (p : Program) (c : Palette) (t k : Nat) : String :=
  if p.isNamed k then c.inBlue (p.kindName k)
  else
    let label := c.inGreen (p.terminal t).label
    if p.terminal t = .literal (p.kindName k) then label
    else "alias(" ++ label ++ ", " ++ p.kindText c k ++ ")"

mutual

/-- An operation as an expression. -/
def stepText (p : Program) (c : Palette) : Step → String
  | .blank => "blank"
  | .token t k immediate =>
    if immediate then "immediate(" ++ p.tokenText c t k ++ ")" else p.tokenText c t k
  | .call r renamed =>
    let name := c.inBlue (p.rule r).name
    match renamed with
    | some k => "alias(" ++ name ++ ", " ++ p.kindText c k ++ ")"
    | none => name
  | .seq members => "(" ++ String.intercalate " " (stepTexts p c members) ++ ")"
  | .choice members => "(" ++ String.intercalate " | " (stepTexts p c members) ++ ")"
  | .repetition body min max => stepText p c body ++ repetitionMark min max
  | .wrap body k => "alias(" ++ stepText p c body ++ ", " ++ p.kindText c k ++ ")"

/-- Operations as expressions. -/
def stepTexts (p : Program) (c : Palette) : List Step → List String
  | [] => []
  | op :: ops => stepText p c op :: stepTexts p c ops

end

/-- What is told of a rule behind its expression. -/
def ruleMarks (p : Program) (i : Nat) (r : ProgramRule) : List String :=
  (if i = p.start then ["start"] else []) ++ (if r.hidden then ["hidden"] else []) ++
    (if r.lexical then ["lexical"] else []) ++ if r.nullable then ["nullable"] else []

/-- The line of a rule. -/
def ruleLine (p : Program) (c : Palette) (r : ProgramRule × Nat) : String :=
  let marks := p.ruleMarks r.2 r.1
  c.dimmed ("R" ++ toString r.2) ++ " " ++ c.inBlue r.1.name ++ " = " ++ p.stepText c r.1.body ++
    if marks.isEmpty then "" else " " ++ c.dimmed ("(" ++ String.intercalate ", " marks ++ ")")

/-- The name of a role. -/
def roleName : Role → String
  | .error => "error"
  | .skipped => "skipped"
  | .node => "node"
  | .token => "token"

/-- The line of a kind. -/
def kindLine (p : Program) (c : Palette) (k : Kind × Nat) : String :=
  c.dimmed ("K" ++ toString k.2) ++ " " ++ p.kindText c k.2 ++ " " ++
    c.dimmed ("(" ++ roleName k.1.role ++ (if p.isTrivia k.2 then ", trivia" else "") ++ ")")

/-- The line of a terminal. -/
def terminalLine (c : Palette) (t : Terminal × Nat) : String :=
  c.dimmed ("T" ++ toString t.2) ++ " " ++ c.inGreen t.1.label ++
    c.dimmed (if t.1.isNullable then " (nullable)" else "")

/-- The line of some terminals by number, with a blank line before it; none without any. -/
def numbersLine (title : String) (terminals : List Nat) : List String :=
  if terminals.isEmpty then []
  else ["", title ++ ": " ++ String.intercalate " " (terminals.map fun t => "T" ++ toString t)]

/-- The lines of a listing. -/
def listingLines (p : Program) (c : Palette) : List String :=
  ["[rules]"] ++ p.rules.toList.zipIdx.map (p.ruleLine c) ++
    ["", "[kinds]"] ++ p.kinds.toList.zipIdx.map (p.kindLine c) ++
    ["", "[terminals]"] ++ p.terminals.toList.zipIdx.map (terminalLine c) ++
    numbersLine "extras" (p.extras.map (·.1)) ++ numbersLine "sync" p.sync

/-- The listing of a program. -/
def listing (p : Program) (c : Palette) : String :=
  String.join ((p.listingLines c).map (· ++ "\n"))

end Program

end Packrat
