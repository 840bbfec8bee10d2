/-!
# Graphs

A graph on the numbers below some bound, given by the list of targets of every vertex. A
depth-first search visits the targets of a vertex in order; `explore` keeps what it has seen. A
search for a cycle goes from each start in turn and ends at the first edge that leads back to a
vertex on its way.
-/

namespace Packrat

/-- The targets of every vertex, in the order in which they are visited. -/
abbrev Graph := Array (List Nat)

namespace Graph

/-- The targets of a vertex. -/
def targets (g : Graph) (v : Nat) : List Nat := g[v]?.getD []

/-- All vertices, in order. -/
def vertices (g : Graph) : List Nat := List.range g.size

/-- Whether one vertex is a target of another. -/
def Adj (g : Graph) (v w : Nat) : Prop := w ∈ g.targets v

/-- Whether a vertex is reached from another by some number of steps. -/
inductive Reaches (g : Graph) : Nat → Nat → Prop where
  | refl (v : Nat) : Reaches g v v
  | step {u v w : Nat} (first : g.Adj u v) (rest : Reaches g v w) : Reaches g u w

/-- Enters a vertex that was not seen before and explores its targets. As the vertices on the way
are distinct, no more than all of them lie on it, and one level for each is enough. -/
def explore (g : Graph) : (levels : Nat) → (seen : List Nat) → Nat → List Nat
  | 0, seen, _ => seen
  | levels + 1, seen, v =>
    if seen.contains v then seen else (g.targets v).foldl (explore g levels) (v :: seen)

/-- The vertices that can be reached from some of them, those included. -/
def reachable (g : Graph) (starts : List Nat) : List Nat :=
  starts.foldl (g.explore (g.size + 1)) []

/-- Searches for a cycle behind a vertex. `path` is the way to it, the latest vertex first. The
outcome is the cycle that was found or else the vertices that were seen. -/
def searchCycle (g : Graph) : (levels : Nat) → (path seen : List Nat) → Nat →
    Except (List Nat) (List Nat)
  | 0, _, seen, _ => .ok seen
  | levels + 1, path, seen, v =>
    if seen.contains v then .ok seen
    else
      let path := v :: path
      (g.targets v).foldlM (fun seen target =>
        if path.contains target then
          .error (target :: (path.takeWhile (· != target)).reverse)
        else searchCycle g levels path seen target) (v :: seen)

/-- The first cycle that a depth-first search from some vertices finds: each vertex of it is a
target of the one before, and the first of the last. -/
def cycle? (g : Graph) (starts : List Nat) : Option (List Nat) :=
  match starts.foldlM (g.searchCycle (g.size + 1) []) [] with
  | .error cycle => some cycle
  | .ok _ => none

end Graph

end Packrat
