import Packrat.Graph.Basic

/-!
# Components

Two vertices are in one component when each can be reached from the other. A depth-first search
numbers the vertices as it enters them, and keeps those that are in no component yet on a stack. A
vertex that leads back to none with a lower number is the first one of its component, which is
what then lies on the stack from it on.
-/

namespace Packrat

namespace Graph

/-- How far a search for components has come. -/
structure Survey where
  /-- The numbers of the vertices that were entered. -/
  numbers : List (Nat × Nat) := []
  /-- The lowest number of those that each vertex is known to lead back to. -/
  lows : List (Nat × Nat) := []
  /-- The vertices that are in no component yet, the latest first. -/
  stack : List Nat := []
  /-- The components that were found, the latest first. -/
  found : List (List Nat) := []

namespace Survey

/-- The number of a vertex that was entered. -/
def number? (s : Survey) (v : Nat) : Option Nat := s.numbers.lookup v

/-- The lowest number that a vertex is known to lead back to. -/
def low (s : Survey) (v : Nat) : Nat := (s.lows.lookup v).getD 0

/-- Enters a vertex. -/
def enter (s : Survey) (v : Nat) : Survey :=
  { s with
    numbers := (v, s.numbers.length) :: s.numbers
    lows := (v, s.numbers.length) :: s.lows
    stack := v :: s.stack }

/-- A vertex leads back to a number. -/
def lower (s : Survey) (v number : Nat) : Survey :=
  { s with lows := (v, min (s.low v) number) :: s.lows }

/-- What lies on a stack from a vertex on, the latest first, and what lies below it. -/
def splitAt (v : Nat) : List Nat → List Nat × List Nat
  | [] => ([], [])
  | w :: stack =>
    if w = v then ([w], stack)
    else
      let (component, rest) := splitAt v stack
      (w :: component, rest)

/-- Takes the component of a vertex from the stack. -/
def close (s : Survey) (v : Nat) : Survey :=
  let (component, rest) := splitAt v s.stack
  { s with stack := rest, found := component :: s.found }

/-- Leaves a vertex. It is the first one of its component if it leads back to none before it. -/
def leave (s : Survey) (v : Nat) : Survey :=
  if s.number? v = some (s.low v) then s.close v else s

/-- Goes from a vertex to one of its targets, which is visited unless it was entered before. -/
def follow (visit : Survey → Nat → Survey) (v : Nat) (s : Survey) (target : Nat) : Survey :=
  match s.number? target with
  | none =>
    let s := visit s target
    s.lower v (s.low target)
  | some number => if s.stack.contains target then s.lower v number else s

end Survey

/-- Visits a vertex that was not entered before. No more than all vertices lie on the way, and one
level for each is enough. -/
def survey (g : Graph) : (levels : Nat) → Survey → Nat → Survey
  | 0, s, _ => s
  | levels + 1, s, v =>
    ((g.targets v).foldl (Survey.follow (survey g levels) v) (s.enter v)).leave v

/-- The components. Those that can be reached from a component come before it. -/
def components (g : Graph) : List (List Nat) :=
  let s := g.vertices.foldl (fun s v =>
    if (s.number? v).isSome then s else g.survey (g.size + 1) s v) ({} : Survey)
  s.found.reverse

/-- Whether a vertex can be reached from itself by at least one step, in a graph in which the
given component is one. -/
def isRecursive (g : Graph) : List Nat → Bool
  | [] => false
  | [v] => (g.targets v).contains v
  | _ => true

/-- The graph without the edges that lead out of some vertices. -/
def within (g : Graph) (members : List Nat) : Graph :=
  g.map fun targets => targets.filter members.contains

end Graph

end Packrat
