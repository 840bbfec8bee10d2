import Mathlib.Data.List.TakeWhile
import Packrat.Proofs.Grammar.Interpretation

/-!
# Trees that spell matches

The expressions of a grammar are read here as those of a context-free grammar, with trivia before
anything: every sequence has all its members, every choice one of them, and every repetition as
many iterations as it may have. `Spells` says which trees spell such a match of a stretch of a
text. It takes the leaves that may stand before a node instead of in it as a parameter: with none
the children of every node spell a match of its rule.
-/

namespace Packrat

namespace Grammar

/-- `g.Spells start text left part p q ts` says that trees spell a match of a part of a grammar,
from a position of a text to another. Trees before a node count as its children if all of them are
among those that may be `left` in front. -/
inductive Spells (g : Grammar) (start : Nat) (text : Text) (left : NamedTree → Prop) :
    Part → (p q : Nat) → List NamedTree → Prop
  /-- Trivia may stand before anything. -/
  | trivia {part p m q ts} (skips : Skips (g.trivia start) text p m)
      (rest : Spells g start text left part m.stop q ts) :
      Spells g start text left part p q (m.trees ++ ts)
  | blank {p} : Spells g start text left (.expression .blank) p p []
  /-- A terminal that matches some text is a leaf with this text. -/
  | terminal {r source terminal kind p n} (leaf : g.TakenAs start r source kind)
      (known : source.terminal? = some terminal) (scan : (terminal.scanAt text p).length = some n) :
      Spells g start text left (.expression r) p (p + n)
        (if n = 0 then [] else [.leaf kind (text.slice p (p + n))])
  | spliced {r i p q ts} (refers : g.Refers start r i none)
      (body : Spells g start text left (.expression (g.body i)) p q ts) :
      Spells g start text left (.expression r) p q ts
  | node {r i kind p q before inside} (refers : g.Refers start r i (some kind))
      (body : Spells g start text left (.expression (g.body i)) p q (before ++ inside))
      (ahead : ∀ t ∈ before, left t) :
      Spells g start text left (.expression r) p q (before ++ [.node kind inside])
  | renamed {r name named p q before inside} (notSymbol : ∀ target, r.unwrapped ≠ .symbol target)
      (compound : r.isTerminal = false)
      (content : Spells g start text left (.expression r) p q (before ++ inside))
      (ahead : ∀ t ∈ before, left t) :
      Spells g start text left (.expression (.renamed r name named)) p q
        (before ++ [.node ⟨name, named, .node⟩ inside])
  | field {name r p q ts} (content : Spells g start text left (.expression r) p q ts) :
      Spells g start text left (.expression (.field name r)) p q ts
  | members {rs p q ts} (rest : Spells g start text left (.sequence rs) p q ts) :
      Spells g start text left (.expression (.seq rs)) p q ts
  | seqNil {p} : Spells g start text left (.sequence []) p p []
  | seqCons {r rs p q o ts us} (head : Spells g start text left (.expression r) p q ts)
      (tail : Spells g start text left (.sequence rs) q o us) :
      Spells g start text left (.sequence (r :: rs)) p o (ts ++ us)
  | alternatives {rs p q ts} (rest : Spells g start text left (.choice rs) p q ts) :
      Spells g start text left (.expression (.choice rs)) p q ts
  | choice {r rs p q ts} (member : r ∈ rs)
      (one : Spells g start text left (.expression r) p q ts) :
      Spells g start text left (.choice rs) p q ts
  | repetition {r min max p q ts}
      (rest : Spells g start text left (.iterations r min.toNat (max.map (·.toNat)) 0) p q ts) :
      Spells g start text left (.expression (.repetition r min max)) p q ts
  /-- There are enough iterations. -/
  | done {r least most count p} (enough : least ≤ count) :
      Spells g start text left (.iterations r least most count) p p []
  /-- There may be another iteration. -/
  | next {r least most count p q o ts us} (room : most.any (· ≤ count) = false)
      (head : Spells g start text left (.expression r) p q ts)
      (tail : Spells g start text left (.iterations r least most (count + 1)) q o us) :
      Spells g start text left (.iterations r least most count) p o (ts ++ us)

/-- `g.DerivationTree start text left tree` says that the children of the root of a tree spell a
match of the start rule over all of a text, with trivia behind it. -/
def DerivationTree (g : Grammar) (start : Nat) (text : Text) (left : NamedTree → Prop)
    (tree : NamedTree) : Prop :=
  ∃ ts q rest, g.Spells start text left (.expression (g.body start)) 0 q ts ∧
    Skips (g.trivia start) text q rest ∧ rest.stop = text.size ∧
    tree = .node (g.kindOf start start) (ts ++ rest.trees)

variable {g : Grammar} {start : Nat} {text : Text} {left : NamedTree → Prop}

/-- Roles that have names spell nothing. -/
theorem Spells.of_unwrapped {r : Rule} {p q : Nat} {ts : List NamedTree}
    (h : g.Spells start text left (.expression r.unwrapped) p q ts) :
    g.Spells start text left (.expression r) p q ts := by
  fun_induction Rule.unwrapped r with
  | case1 _ _ ih => exact .field (ih h)
  | case2 => exact h

/-- What a terminal takes with the trivia before it is spelled. -/
theorem Spells.of_takes {r source : Rule} {kind : Kind} {p : Nat} {m : Matched}
    (htaken : g.TakenAs start r source kind)
    (htakes : g.Takes start text source kind p (some m)) :
    g.Spells start text left (.expression r) p m.stop m.trees := by
  obtain ⟨terminal, before, hterminal, hbefore, hm⟩ := htakes
  obtain ⟨n, hn, rfl⟩ := Option.map_eq_some_iff.mp hm.symm
  split at hbefore
  · subst hbefore
    exact .terminal htaken hterminal hn
  · exact .trivia hbefore (.terminal htaken hterminal hn)

/-- What spells one of some alternatives does so with another one in front. -/
theorem Spells.choice_cons {r : Rule} {rs : List Rule} {p q : Nat} {ts : List NamedTree}
    (h : g.Spells start text left (.choice rs) p q ts) :
    g.Spells start text left (.choice (r :: rs)) p q ts := by
  generalize hpart : Part.choice rs = part at h
  induction h with
  | trivia skips _ ih => exact .trivia skips (ih hpart)
  | choice member one =>
    cases hpart
    exact .choice (List.mem_cons_of_mem _ member) one
  | _ => cases hpart

/-- A closed node spells what its trees spell, as leaves of the kinds of extras may stand before
it. -/
theorem Spells.enclosed {r : Rule} {i : Nat} {kind : Option Kind} {p : Nat} {m : Matched}
    (refers : g.Refers start r i kind)
    (body : g.Spells start text (g.isTrivia start · = true) (.expression (g.body i)) p m.stop
      m.trees) :
    g.Spells start text (g.isTrivia start · = true) (.expression r) p
      (g.enclosed start kind m).stop (g.enclosed start kind m).trees := by
  cases kind with
  | none => exact .spliced refers body
  | some kind =>
    rw [← List.takeWhile_append_dropWhile (p := g.isTrivia start) (l := m.trees)] at body
    exact .node refers body fun t ht => List.mem_takeWhile_imp ht

/-- A part under another name is spelled by its node and the trivia before it. -/
theorem Spells.closed {r : Rule} {name : String} {named : Bool} {p : Nat} {m : Matched}
    (notSymbol : ∀ target, r.unwrapped ≠ .symbol target) (compound : r.isTerminal = false)
    (content : g.Spells start text (g.isTrivia start · = true) (.expression r) p m.stop m.trees) :
    g.Spells start text (g.isTrivia start · = true) (.expression (.renamed r name named)) p
      (g.closed start ⟨name, named, .node⟩ m).stop
      (g.closed start ⟨name, named, .node⟩ m).trees := by
  rw [← List.takeWhile_append_dropWhile (p := g.isTrivia start) (l := m.trees)] at content
  exact .renamed notSymbol compound content fun t ht => List.mem_takeWhile_imp ht

end Grammar

end Packrat
