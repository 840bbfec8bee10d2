import Packrat.Json.Basic
import Packrat.Program.Basic
import Packrat.Tree.Basic

/-!
# Trees as JSON

Every node and leaf is an object with its kind and its byte range. Leaves have their text, and
nodes their children if there are any to show.
-/

namespace Packrat

/-- How trees are shown as JSON. -/
structure JsonView where
  program : Program
  /-- Whether trivia is shown. -/
  trivia : Bool := true

namespace JsonView

variable (v : JsonView)

/-- What every object begins with. -/
def common (kind start stop : Nat) : List (String × JsonValue) :=
  [("kind", .string (v.program.kindName kind)), ("named", .bool (v.program.isNamed kind)),
    ("start", .natural start), ("end", .natural stop)]

/-- The children of a node, unless there are none to show. -/
def childrenField (children : List JsonValue) : List (String × JsonValue) :=
  if children.isEmpty then [] else [("children", .array children)]

mutual

/-- The values of a tree that starts at an offset: none for trivia that is not shown. -/
def values (start : Nat) : Tree → List JsonValue
  | .leaf kind text =>
    if !v.trivia && v.program.isTrivia kind then []
    else [.object (v.common kind start (start + text.utf8ByteSize) ++ [("text", .string text)])]
  | .node kind children =>
    [.object (v.common kind start (start + Tree.sizeAmong children) ++
      childrenField (valuesAmong start children))]

/-- The values of trees that follow each other. -/
def valuesAmong (start : Nat) : List Tree → List JsonValue
  | [] => []
  | t :: ts => values start t ++ valuesAmong (start + t.size) ts

end

/-- The value of a tree. -/
def value (t : Tree) : JsonValue := (v.values 0 t).head?.getD .null

end JsonView

end Packrat
