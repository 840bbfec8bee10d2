import Packrat.Proofs.Grammar.Checked
import Packrat.Text.Basic

/-!
# What expressions mean

The expressions of a grammar are read as those of a parsing expression grammar, without a program:
what is skipped before terminals, what an expression takes of a text and what trees it makes of
it. Trees have kinds here, not the numbers of kinds in a table. `Interprets` is functional, and it
says nothing where an expression would be looked at again at one position for ever.
-/

namespace Packrat

/-- A tree whose kinds are known. -/
inductive NamedTree where
  | leaf (kind : Kind) (text : String)
  | node (kind : Kind) (children : List NamedTree)
  deriving Repr

/-- What was taken of a text: where it ended, and the trees. -/
structure Matched where
  stop : Nat
  trees : List NamedTree := []

/-- What was matched first and what was matched behind it. -/
def Matched.andThen (first rest : Matched) : Matched := ⟨rest.stop, first.trees ++ rest.trees⟩

/-- Puts a leaf before trees. It becomes one with a leaf of its kind right behind it. -/
def NamedTree.before (kind : Kind) (text : String) : List NamedTree → List NamedTree
  | .leaf next further :: rest =>
    if kind = next then .leaf kind (text ++ further) :: rest
    else .leaf kind text :: .leaf next further :: rest
  | trees => .leaf kind text :: trees

/-- How many bytes the first of some terminals that matches any takes at a position, and of what
kind they are. -/
def extraAt? (extras : List (Terminal × Kind)) (text : Text) (position : Nat) :
    Option (Nat × Kind) :=
  extras.findSome? fun extra =>
    match (extra.1.scanAt text position).length with
    | some (n + 1) => some (n + 1, extra.2)
    | _ => none

/-- `Skips extras text p m` says that `m` is what some extras match from a position on, one after
another until none matches anything. -/
inductive Skips (extras : List (Terminal × Kind)) (text : Text) : Nat → Matched → Prop
  | done {p} (last : extraAt? extras text p = none) : Skips extras text p ⟨p, []⟩
  | next {p n kind m} (first : extraAt? extras text p = some (n, kind))
      (rest : Skips extras text (p + n) m) :
      Skips extras text p ⟨m.stop, NamedTree.before kind (text.slice p (p + n)) m.trees⟩

/-- Something to be interpreted: an expression, or what is left of one whose parts were
interpreted up to here. -/
inductive Part where
  | expression (r : Rule)
  | sequence (members : List Rule)
  | choice (members : List Rule)
  | iterations (content : Rule) (least : Nat) (most : Option Nat) (count : Nat)

/-- The end of a repetition after some number of iterations, of which there have to be enough. -/
def Matched.ended (least count position : Nat) : Option Matched :=
  if count < least then none else some { stop := position }

namespace Grammar

/-- Whether a tree is a leaf of the kind of an extra. -/
def isTrivia (g : Grammar) (start : Nat) : NamedTree → Bool
  | .leaf kind _ => (g.trivia start).any (·.2 == kind)
  | .node _ _ => false

/-- Puts trees into a node, except for the leaves of the kinds of extras that they begin with. -/
def closed (g : Grammar) (start : Nat) (kind : Kind) (m : Matched) : Matched :=
  ⟨m.stop, m.trees.takeWhile (g.isTrivia start) ++
    [.node kind (m.trees.dropWhile (g.isTrivia start))]⟩

/-- The same where there may be no node. -/
def enclosed (g : Grammar) (start : Nat) (kind : Option Kind) (m : Matched) : Matched :=
  match kind with
  | none => m
  | some kind => g.closed start kind m

/-- `g.Takes start text r kind p m` says that `m` is what an expression that is a single terminal
takes for a leaf of some kind, behind what is skipped unless it is immediate. A terminal that
matches no text leaves no leaf. -/
def Takes (g : Grammar) (start : Nat) (text : Text) (r : Rule) (kind : Kind) (p : Nat)
    (m : Option Matched) : Prop :=
  ∃ terminal before, r.terminal? = some terminal ∧
    (if r.isImmediate then before = ⟨p, []⟩ else Skips (g.trivia start) text p before) ∧
    m = (terminal.scanAt text before.stop).length.map fun n => before.andThen
      { stop := before.stop + n
        trees := if n = 0 then [] else [.leaf kind (text.slice before.stop (before.stop + n))] }

/-- `g.Interprets start text part p m` says that a part of a grammar with a start rule of some
number matches `m` from a position of a text on, or fails there. -/
inductive Interprets (g : Grammar) (start : Nat) (text : Text) :
    Part → (position : Nat) → Option Matched → Prop
  -- expressions
  | blank {p} : Interprets g start text (.expression .blank) p (some { stop := p })
  | terminal {r terminal kind p m} (leaf : g.TakenAs start r terminal kind)
      (takes : g.Takes start text terminal kind p m) :
      Interprets g start text (.expression r) p m
  | reference {r i kind p m} (refers : g.Refers start r i kind)
      (body : Interprets g start text (.expression (g.body i)) p m) :
      Interprets g start text (.expression r) p (m.map (g.enclosed start kind))
  | renamed {r name named p m} (notSymbol : ∀ target, r.unwrapped ≠ .symbol target)
      (compound : r.isTerminal = false) (content : Interprets g start text (.expression r) p m) :
      Interprets g start text (.expression (.renamed r name named)) p
        (m.map (g.closed start ⟨name, named, .node⟩))
  | field {name r p m} (content : Interprets g start text (.expression r) p m) :
      Interprets g start text (.expression (.field name r)) p m
  | members {rs p m} (rest : Interprets g start text (.sequence rs) p m) :
      Interprets g start text (.expression (.seq rs)) p m
  | alternatives {rs p m} (rest : Interprets g start text (.choice rs) p m) :
      Interprets g start text (.expression (.choice rs)) p m
  | repetition {r min max p m}
      (rest : Interprets g start text (.iterations r min.toNat (max.map (·.toNat)) 0) p m) :
      Interprets g start text (.expression (.repetition r min max)) p m
  -- sequences
  | seqNil {p} : Interprets g start text (.sequence []) p (some { stop := p })
  | seqTook {r rs p m rest} (head : Interprets g start text (.expression r) p (some m))
      (tail : Interprets g start text (.sequence rs) m.stop rest) :
      Interprets g start text (.sequence (r :: rs)) p (rest.map m.andThen)
  | seqFailed {r rs p} (head : Interprets g start text (.expression r) p none) :
      Interprets g start text (.sequence (r :: rs)) p none
  -- choices
  | choiceNil {p} : Interprets g start text (.choice []) p none
  | choiceTook {r rs p m} (head : Interprets g start text (.expression r) p (some m)) :
      Interprets g start text (.choice (r :: rs)) p (some m)
  | choiceNext {r rs p m} (head : Interprets g start text (.expression r) p none)
      (tail : Interprets g start text (.choice rs) p m) :
      Interprets g start text (.choice (r :: rs)) p m
  -- repetitions
  | enough {r least most count p} (full : most.any (· ≤ count) = true) :
      Interprets g start text (.iterations r least most count) p (Matched.ended least count p)
  | idleIteration {r least most count p m} (room : most.any (· ≤ count) = false)
      (head : Interprets g start text (.expression r) p (some m)) (still : m.stop = p) :
      Interprets g start text (.iterations r least most count) p (Matched.ended least count p)
  | nextIteration {r least most count p m rest} (room : most.any (· ≤ count) = false)
      (head : Interprets g start text (.expression r) p (some m)) (moved : m.stop ≠ p)
      (tail : Interprets g start text (.iterations r least most (count + 1)) m.stop rest) :
      Interprets g start text (.iterations r least most count) p (rest.map m.andThen)
  | lastIteration {r least most count p} (room : most.any (· ≤ count) = false)
      (head : Interprets g start text (.expression r) p none) :
      Interprets g start text (.iterations r least most count) p (Matched.ended least count p)

/-- `g.ParsesTo start text tree` says that `tree` is the tree of a text: what the start rule
matches at its start and what is skipped behind it, and an error over the rest; if the start rule
fails it is an error over all of the text. -/
inductive ParsesTo (g : Grammar) (start : Nat) (text : Text) : NamedTree → Prop
  | matched {m rest}
      (body : g.Interprets start text (.expression (g.body start)) 0 (some m))
      (behind : Skips (g.trivia start) text m.stop rest) (full : rest.stop = text.size) :
      ParsesTo g start text (.node (g.kindOf start start) (m.trees ++ rest.trees))
  | partly {m rest}
      (body : g.Interprets start text (.expression (g.body start)) 0 (some m))
      (behind : Skips (g.trivia start) text m.stop rest) (more : rest.stop < text.size) :
      ParsesTo g start text (.node (g.kindOf start start) (m.trees ++ rest.trees ++
        [.node .error [.leaf .skipped (text.slice rest.stop text.size)]]))
  | failed (body : g.Interprets start text (.expression (g.body start)) 0 none) :
      ParsesTo g start text (.node (g.kindOf start start)
        [.node .error (if text.size = 0 then [] else [.leaf .skipped (text.slice 0 text.size)])])

end Grammar

/-- Only one thing is skipped at a position. -/
theorem Skips.unique {extras : List (Terminal × Kind)} {text : Text} {p : Nat} {m m' : Matched}
    (h : Skips extras text p m) (h' : Skips extras text p m') : m = m' := by
  induction h generalizing m' with
  | done last =>
    cases h' with
    | done => rfl
    | next first => simp [last] at first
  | next first _ ih =>
    cases h' with
    | done last => simp [last] at first
    | next first' rest =>
      cases first.symm.trans first'
      rw [ih rest]

namespace Grammar

variable {g : Grammar} {start : Nat} {text : Text} {p : Nat} {m m' : Option Matched}

/-- A terminal takes one thing at a position. -/
theorem Takes.unique {r : Rule} {kind : Kind} (h : g.Takes start text r kind p m)
    (h' : g.Takes start text r kind p m') : m = m' := by
  obtain ⟨terminal, before, hterminal, hbefore, rfl⟩ := h
  obtain ⟨terminal', before', hterminal', hbefore', rfl⟩ := h'
  cases hterminal.symm.trans hterminal'
  have heq : before = before' := by
    split at hbefore
    · rename_i himmediate
      rw [if_pos himmediate] at hbefore'
      rw [hbefore, hbefore']
    · rename_i himmediate
      rw [if_neg himmediate] at hbefore'
      exact hbefore.unique hbefore'
  rw [heq]

/-- A part matches one thing at most. -/
theorem Interprets.unique {part : Part} (h : g.Interprets start text part p m)
    (h' : g.Interprets start text part p m') : m = m' := by
  induction h generalizing m' with
  | blank =>
    cases h' with
    | blank => rfl
    | terminal leaf => cases leaf with | own single => cases single
    | reference refers => cases refers
  | terminal leaf takes =>
    cases h' with
    | terminal leaf' takes' =>
      obtain ⟨rfl, rfl⟩ := leaf.unique leaf'
      exact takes.unique takes'
    | reference refers => exact absurd refers leaf.not_refers
    | renamed notSymbol compound =>
      rcases leaf.of_renamed with single | ⟨target, htarget⟩
      · simp [single] at compound
      · exact absurd htarget (notSymbol target)
    | _ => cases leaf with | own single => cases single
  | reference refers _ ih =>
    cases h' with
    | terminal leaf => exact absurd refers leaf.not_refers
    | reference refers' body =>
      obtain ⟨rfl, rfl⟩ := refers.unique refers'
      rw [ih body]
    | renamed notSymbol => cases refers with | renamed content => exact absurd content (notSymbol _)
    | _ => cases refers
  | renamed notSymbol compound _ ih =>
    cases h' with
    | terminal leaf =>
      rcases leaf.of_renamed with single | ⟨target, htarget⟩
      · simp [single] at compound
      · exact absurd htarget (notSymbol target)
    | reference refers => cases refers with | renamed content => exact absurd content (notSymbol _)
    | renamed _ _ content => rw [ih content]
  | field _ ih =>
    cases h' with
    | terminal leaf => cases leaf with | own single => cases single
    | reference refers => cases refers
    | field content => exact ih content
  | members _ ih =>
    cases h' with
    | terminal leaf => cases leaf with | own single => cases single
    | reference refers => cases refers
    | members rest => exact ih rest
  | alternatives _ ih =>
    cases h' with
    | terminal leaf => cases leaf with | own single => cases single
    | reference refers => cases refers
    | alternatives rest => exact ih rest
  | repetition _ ih =>
    cases h' with
    | terminal leaf => cases leaf with | own single => cases single
    | reference refers => cases refers
    | repetition rest => exact ih rest
  | seqNil => cases h'; rfl
  | seqTook _ _ ihhead ihtail =>
    cases h' with
    | seqTook head tail =>
      cases ihhead head
      rw [ihtail tail]
    | seqFailed head => cases ihhead head
  | seqFailed _ ih =>
    cases h' with
    | seqTook head => cases ih head
    | seqFailed => rfl
  | choiceNil => cases h'; rfl
  | choiceTook _ ih =>
    cases h' with
    | choiceTook head => exact ih head
    | choiceNext head => cases ih head
  | choiceNext _ _ ihhead ihtail =>
    cases h' with
    | choiceTook head => cases ihhead head
    | choiceNext _ tail => exact ihtail tail
  | enough full =>
    cases h' with
    | enough => rfl
    | idleIteration room => simp [full] at room
    | nextIteration room => simp [full] at room
    | lastIteration room => simp [full] at room
  | idleIteration room _ still ih =>
    cases h' with
    | enough full => simp [full] at room
    | idleIteration => rfl
    | nextIteration _ head moved => cases ih head; exact absurd still moved
    | lastIteration => rfl
  | nextIteration room _ moved _ ihhead ihtail =>
    cases h' with
    | enough full => simp [full] at room
    | idleIteration _ head still => cases ihhead head; exact absurd still moved
    | nextIteration _ head _ tail =>
      cases ihhead head
      rw [ihtail tail]
    | lastIteration _ head => cases ihhead head
  | lastIteration room _ ih =>
    cases h' with
    | enough full => simp [full] at room
    | idleIteration => rfl
    | nextIteration _ head => cases ih head
    | lastIteration => rfl

/-- A text has one tree at most. -/
theorem ParsesTo.unique {tree tree' : NamedTree} (h : g.ParsesTo start text tree)
    (h' : g.ParsesTo start text tree') : tree = tree' := by
  cases h with
  | matched body behind full =>
    cases h' with
    | matched body' behind' =>
      cases body.unique body'
      rw [behind.unique behind']
    | partly body' behind' more =>
      cases body.unique body'
      cases behind.unique behind'
      omega
    | failed body' => cases body.unique body'
  | partly body behind more =>
    cases h' with
    | matched body' behind' full =>
      cases body.unique body'
      cases behind.unique behind'
      omega
    | partly body' behind' =>
      cases body.unique body'
      rw [behind.unique behind']
    | failed body' => cases body.unique body'
  | failed body =>
    cases h' with
    | matched body' => cases body.unique body'
    | partly body' => cases body.unique body'
    | failed => rfl

end Grammar

end Packrat
