import Packrat.Proofs.Parse.Notes
import Packrat.Proofs.Parse.Run

/-!
# Other numbers

The numbers of rules, terminals and kinds stand for what is in the tables of a program. A program is
embedded in another one if all that it says is there under other numbers, where distinct rules and
distinct kinds have distinct ones. What rounds are made of, trivia, leaves, closed nodes, errors and
joined notes, is then the same up to the numbers of kinds in trees and in what was expected.
-/

/-!
## Operations, trees and answers under other numbers
-/

namespace Packrat

/-- Other numbers for the rules, the terminals and the kinds of a program. -/
structure Renumbering where
  rule : Nat → Nat
  terminal : Nat → Nat
  kind : Nat → Nat

namespace Op

variable {τ κ τ' κ' : Type}

mutual

/-- The same operation with other numbers of rules, over other terminals and kinds. -/
def renumber (rules : Nat → Nat) (f : τ → τ') (g : κ → κ') : Op τ κ → Op τ' κ'
  | blank => .blank
  | token terminal kind immediate => .token (f terminal) (g kind) immediate
  | call rule renamed => .call (rules rule) (renamed.map g)
  | seq members => .seq (renumberAll rules f g members)
  | choice members => .choice (renumberAll rules f g members)
  | repetition body min max => .repetition (body.renumber rules f g) min max
  | wrap body kind => .wrap (body.renumber rules f g) (g kind)

/-- The same operations with other numbers of rules, over other terminals and kinds. -/
def renumberAll (rules : Nat → Nat) (f : τ → τ') (g : κ → κ') : List (Op τ κ) → List (Op τ' κ')
  | [] => []
  | op :: ops => op.renumber rules f g :: renumberAll rules f g ops

end

end Op

/-- A step under other numbers. -/
abbrev Renumbering.step (m : Renumbering) (step : Step) : Step :=
  step.renumber m.rule m.terminal m.kind

/-- Steps under other numbers. -/
abbrev Renumbering.steps (m : Renumbering) (steps : List Step) : List Step :=
  Op.renumberAll m.rule m.terminal m.kind steps

/-- A job under other numbers. -/
def Renumbering.job (m : Renumbering) : Job → Job
  | .step step => .step (m.step step)
  | .operation step => .operation (m.step step)
  | .rule rule => .rule (m.rule rule)
  | .seq members skip isFirst => .seq (m.steps members) skip isFirst
  | .choice members => .choice (m.steps members)
  | .iterations body min max left count => .iterations (m.step body) min max left count
  | .trial floor index steps => .trial floor index (m.steps steps)
  | .look steps => .look (m.steps steps)
  | .search steps rest => .search (m.steps steps) rest

mutual

/-- A tree with other numbers of kinds. -/
def Tree.renumber (f : Nat → Nat) : Tree → Tree
  | .leaf kind text => .leaf (f kind) text
  | .node kind children => .node (f kind) (renumberAll f children)

/-- Trees with other numbers of kinds. -/
def Tree.renumberAll (f : Nat → Nat) : List Tree → List Tree
  | [] => []
  | t :: ts => t.renumber f :: renumberAll f ts

end

section

variable (f : Nat → Nat)

/-- A failure with other numbers of kinds. -/
def Failure.renumber (x : Failure) : Failure := ⟨x.position, x.expected.map f⟩

/-- Notes with other numbers of kinds. -/
def Notes.renumber (n : Notes) : Notes := ⟨n.far.map (Failure.renumber f), n.frontier, n.reach⟩

/-- What was taken, with other numbers of kinds. Labels in errors stay. -/
def Taken.renumber (t : Taken) : Taken := ⟨t.stop, t.trees.map (Tree.renumber f), t.errors⟩

/-- An answer with other numbers of kinds. -/
def Answer.renumber (a : Answer) : Answer :=
  ⟨a.taken.map (Taken.renumber f), a.notes.renumber f⟩

/-- A kept result with other numbers of kinds. -/
def Entry.renumber (e : Entry) : Entry :=
  ⟨e.taken.map (Taken.renumber f), e.reach, e.far.map (Failure.renumber f), e.frontier⟩

/-- A piece with another number of its kind. -/
def Piece.renumber (p : Piece) : Piece := ⟨f p.kind, p.start, p.stop⟩

/-- A match with other numbers of kinds. -/
def Match.renumber (m : Match) : Match := ⟨m.index, m.trees.map (Tree.renumber f), m.stop⟩

/-- What a search came to, with other numbers of kinds. -/
def Search.renumber : Search → Search
  | .found position m => .found position (m.renumber f)
  | .stopped position => .stopped position
  | .abandoned => .abandoned

/-- What a job comes to, with other numbers of kinds. -/
def Outcome.renumber : Outcome → Outcome
  | .answer a => .answer (a.renumber f)
  | .tried found reach => .tried (found.map (Match.renumber f)) reach
  | .looked result reach => .looked (result.map (Search.renumber f)) reach
  | .searched result reach => .searched (result.renumber f) reach

end

variable {f : Nat → Nat}

/-- Trees are renumbered one by one. -/
@[simp] theorem Tree.renumberAll_eq (f : Nat → Nat) (ts : List Tree) :
    renumberAll f ts = ts.map (renumber f) := by
  induction ts with
  | nil => rfl
  | cons t ts ih => rw [renumberAll, ih, List.map_cons]

/-- A node under other numbers has its children under other numbers. -/
theorem Tree.renumber_node (f : Nat → Nat) (kind : Nat) (children : List Tree) :
    (node kind children).renumber f = .node (f kind) (children.map (renumber f)) := by
  rw [renumber, renumberAll_eq]

/-- What is taken in two steps can be renumbered step by step. -/
theorem Taken.renumber_andThen (t u : Taken) :
    (t.andThen u).renumber f = (t.renumber f).andThen (u.renumber f) := by
  simp only [renumber, andThen, List.map_append]

/-- A search finds the same of the operations, under whatever numbers. -/
@[simp] theorem Search.index?_renumber (result : Search) :
    (result.renumber f).index? = result.index? := by
  cases result <;> rfl

/-- Whether a repetition may end depends on no number of a kind. -/
@[simp] theorem endRepetition_renumber (least count position : Nat) (notes : Notes) :
    (endRepetition least count position notes).renumber f =
      endRepetition least count position (notes.renumber f) := by
  unfold endRepetition
  split <;> rfl

/-! ### Notes are joined under other numbers as before -/

/-- Under distinct numbers, the same kinds are new. -/
theorem addNew_map (hf : Function.Injective f) (known more : List Nat) :
    addNew (known.map f) (more.map f) = (addNew known more).map f := by
  induction more generalizing known with
  | nil => rfl
  | cons a more ih =>
    have hone : addNew (known.map f) [f a] = (addNew known [a]).map f := by
      rw [addNew_singleton, addNew_singleton]
      by_cases ha : a ∈ known
      · rw [if_pos ha, if_pos (List.mem_map_of_mem ha)]
      · have hnew : f a ∉ known.map f := by
          rintro hmem
          obtain ⟨b, hb, hba⟩ := List.mem_map.mp hmem
          exact ha (hf hba ▸ hb)
        rw [if_neg ha, if_neg hnew, List.map_append, List.map_singleton]
    rw [List.map_cons, addNew_cons, hone, ih, ← addNew_cons]

/-- Failures can be renumbered before they are joined or after. -/
theorem Failure.renumber_join (hf : Function.Injective f) (a b : Failure) :
    (a.join b).renumber f = (a.renumber f).join (b.renumber f) := by
  simp only [join, renumber, addNew_map hf]
  split
  · rfl
  · split <;> rfl

/-- Notes can be renumbered before they are joined or after. -/
theorem Notes.renumber_join (hf : Function.Injective f) (a b : Notes) :
    (a.join b).renumber f = (a.renumber f).join (b.renumber f) := by
  have hfar : (furthest a.far b.far).map (Failure.renumber f) =
      furthest (a.far.map (Failure.renumber f)) (b.far.map (Failure.renumber f)) := by
    cases a.far with
    | none => rfl
    | some x =>
      cases b.far with
      | none => rfl
      | some y => exact congrArg some (Failure.renumber_join hf x y)
  simp only [join, renumber, hfar]

/-- An answer behind what was taken can be renumbered with it or before. -/
theorem Answer.renumber_behind (hf : Function.Injective f) (t : Taken) (notes : Notes)
    (a : Answer) : (Answer.behind t notes a).renumber f =
      .behind (t.renumber f) (notes.renumber f) (a.renumber f) := by
  simp only [renumber, behind, Notes.renumber_join hf, Option.map_map]
  congr 2
  funext u
  exact Taken.renumber_andThen t u

/-- An answer to which notes are added can be renumbered with them or before. -/
theorem Answer.renumber_noting (hf : Function.Injective f) (notes : Notes) (a : Answer) :
    (Answer.noting notes a).renumber f = .noting (notes.renumber f) (a.renumber f) := by
  simp only [renumber, noting, Notes.renumber_join hf]

/-- Pieces of one kind that touch are made one under other numbers too. -/
theorem Piece.renumber_push (hf : Function.Injective f) (p : Piece) (ps : List Piece) :
    (p.push ps).map (Piece.renumber f) = (p.renumber f).push (ps.map (Piece.renumber f)) := by
  cases ps with
  | nil => rfl
  | cons q rest =>
    simp only [push, List.map_cons, renumber, hf.eq_iff]
    split <;> rfl

/-- The same for all pieces between two tokens. -/
theorem Piece.renumber_foldr_push (hf : Function.Injective f) (ps : List Piece) :
    (ps.foldr Piece.push []).map (Piece.renumber f) =
      (ps.map (Piece.renumber f)).foldr Piece.push [] := by
  induction ps with
  | nil => rfl
  | cons p ps ih => rw [List.foldr_cons, renumber_push hf, ih, List.map_cons, List.foldr_cons]

end Packrat

/-!
## Embedded programs
-/

namespace Packrat

/-- Whether a program is embedded in another one: its rules, terminals, kinds and extras are there
under other numbers. Nothing is said about what else the other one has. -/
structure Program.Embeds (q p : Program) (m : Renumbering) : Prop where
  rules : Function.Injective m.rule
  kinds : Function.Injective m.kind
  error : m.kind errorKind = errorKind
  skipped : m.kind skippedKind = skippedKind
  kind : ∀ k, p.kinds[m.kind k]? = q.kinds[k]?
  terminal : ∀ t, p.terminal (m.terminal t) = q.terminal t
  ruleKind : ∀ r, (p.rule (m.rule r)).kind = m.kind (q.rule r).kind
  hidden : ∀ r, (p.rule (m.rule r)).hidden = (q.rule r).hidden
  body : ∀ r, (p.rule (m.rule r)).body = m.step (q.rule r).body
  extras : p.extras = q.extras.map fun e => (m.terminal e.1, m.kind e.2)
  sync : p.sync = q.sync.map m.terminal
  start : p.start = m.rule q.start

/-- The same setting for another program. -/
def Setting.via (c : Setting) (p : Program) : Setting := { c with program := p }

namespace Program.Embeds

variable {p : Program} {m : Renumbering} {c : Setting} (hp : c.program.Embeds p m)

include hp

/-- A kind has the same label in the other program. -/
theorem kindLabel_eq (k : Nat) : p.kindLabel (m.kind k) = c.program.kindLabel k := by
  rw [kindLabel, kindLabel, hp.kind]

/-- What is trivia is so in the other program. -/
theorem isTrivia_eq (t : Tree) : (c.via p).isTrivia (t.renumber m.kind) = c.isTrivia t := by
  cases t with
  | leaf kind text =>
    simp only [Setting.isTrivia, Tree.renumber, Setting.via, Program.isTrivia, hp.extras,
      List.any_map, Function.comp_def]
    congr 1
    funext e
    rw [Bool.eq_iff_iff, beq_iff_eq, beq_iff_eq, hp.kinds.eq_iff]
  | node kind children => rfl

/-- A node that is closed keeps the same trivia in front of it in the other program. -/
theorem close_renumber (kind : Nat) (trees : List Tree) :
    (c.via p).close (m.kind kind) (trees.map (Tree.renumber m.kind)) =
      (c.close kind trees).map (Tree.renumber m.kind) := by
  have htrivia : (c.via p).isTrivia ∘ Tree.renumber m.kind = c.isTrivia := funext hp.isTrivia_eq
  simp only [Setting.close, List.takeWhile_map, List.dropWhile_map, htrivia, List.map_append,
    List.map_singleton, Tree.renumber_node]

/-! ### Trivia -/

/-- The same extra is the first to match at a position. -/
theorem firstExtra_eq (position : Nat) (extras : List (Nat × Nat)) :
    (c.via p).firstExtra position (extras.map fun e => (m.terminal e.1, m.kind e.2)) =
      ((c.firstExtra position extras).1.map (Piece.renumber m.kind),
        (c.firstExtra position extras).2) := by
  induction extras with
  | nil => rfl
  | cons extra rest ih =>
    have hterminal : (c.via p).program.terminal (m.terminal extra.1) =
        c.program.terminal extra.1 := hp.terminal extra.1
    simp only [List.map_cons, Setting.firstExtra, hterminal, ih]
    have htext : (c.via p).text = c.text := rfl
    rw [htext]
    rcases ((c.program.terminal extra.1).scanAt c.text position).length with _ | _ | n <;> rfl

/-- The extras match the same pieces one after another. -/
theorem extraPieces_eq (count position : Nat) :
    (c.via p).extraPieces count position =
      ((c.extraPieces count position).1.map (Piece.renumber m.kind),
        (c.extraPieces count position).2) := by
  induction count generalizing position with
  | zero => rfl
  | succ count ih =>
    have hextras : (c.via p).program.extras =
        c.program.extras.map fun e => (m.terminal e.1, m.kind e.2) := hp.extras
    rw [Setting.extraPieces, Setting.extraPieces, hextras, hp.firstExtra_eq]
    rcases c.firstExtra position c.program.extras with ⟨_ | piece, reach⟩
    · rfl
    · simp only [Option.map_some, Piece.renumber, ih, List.map_cons]

/-- The trivia at a position have the same leaves under other numbers. -/
theorem trivia_leaves (position : Nat) : ((c.via p).trivia position).leaves =
    (c.trivia position).leaves.map (Tree.renumber m.kind) := by
  have hleaf : (c.via p).leaf ∘ Piece.renumber m.kind = Tree.renumber m.kind ∘ c.leaf := rfl
  have hsize : (c.via p).text = c.text := rfl
  simp only [Setting.trivia, hsize, hp.extraPieces_eq, ← Piece.renumber_foldr_push hp.kinds,
    List.map_map, hleaf]

/-- The trivia at a position end at the same place. -/
theorem trivia_stop (position : Nat) :
    ((c.via p).trivia position).stop = (c.trivia position).stop := by
  have hsize : (c.via p).text = c.text := rfl
  simp only [Setting.trivia, hsize, hp.extraPieces_eq, List.getLast?_map, Option.map_map]
  rfl

/-- The same text is looked at for trivia. -/
theorem trivia_reach (position : Nat) :
    ((c.via p).trivia position).reach = (c.trivia position).reach := by
  have hsize : (c.via p).text = c.text := rfl
  simp only [Setting.trivia, hsize, hp.extraPieces_eq]

/-! ### Errors -/

/-- An error tells the same, as it has labels and no numbers. -/
theorem error_eq (start stop : Nat) (expected : List Nat) :
    (c.via p).error start stop (expected.map m.kind) = c.error start stop expected := by
  have hlabel : (c.via p).program.kindLabel ∘ m.kind = c.program.kindLabel :=
    funext hp.kindLabel_eq
  simp only [Setting.error, List.map_map, hlabel]

/-- An error node over a stretch is the same under other numbers. -/
theorem errorNode_eq (start stop : Nat) :
    (c.via p).errorNode start stop = (c.errorNode start stop).renumber m.kind := by
  rw [Setting.errorNode, Setting.errorNode, Tree.renumber_node, hp.error]
  split
  · simp only [List.map_singleton, Setting.leaf, Tree.renumber, hp.skipped]
    rfl
  · rfl

/-- An error that is taken for what is missing is the same under other numbers. -/
theorem takenError_eq (start stop : Nat) (expected : List Nat) :
    (c.via p).takenError start stop (expected.map m.kind) =
      (c.takenError start stop expected).renumber m.kind := by
  simp only [Setting.takenError, Taken.renumber, hp.errorNode_eq, hp.error_eq, List.map_singleton]

/-! ### Recovery -/

/-- What a recovery takes in a sequence is the same under other numbers. -/
theorem resumedTaken_eq (position : Nat) (expected : List Nat) (result : Search) :
    (c.via p).resumedTaken position (expected.map m.kind) (result.renumber m.kind) =
      (c.resumedTaken position expected result).renumber m.kind := by
  cases result with
  | abandoned => simp only [Setting.resumedTaken, Search.renumber, Taken.renumber, hp.trivia_stop,
      hp.trivia_leaves]
  | stopped stop =>
    simp only [Setting.resumedTaken, Search.renumber, Taken.renumber_andThen, ← hp.takenError_eq,
      hp.trivia_stop, hp.trivia_leaves]
    rfl
  | found start found =>
    simp only [Setting.resumedTaken, Search.renumber, Match.renumber, Taken.renumber_andThen,
      hp.trivia_stop, hp.trivia_leaves]
    split
    · rw [Taken.renumber_andThen, ← hp.takenError_eq]
      rfl
    · rfl

/-- A recovery in a sequence makes the same error. -/
theorem resumedError?_eq (position : Nat) (result : Search) :
    (c.via p).resumedError? position (result.renumber m.kind) =
      c.resumedError? position result := by
  cases result <;>
    simp only [Setting.resumedError?, Search.renumber, hp.trivia_stop, Match.renumber]

/-- What a recovery takes in a repetition is the same under other numbers. -/
theorem resumedIteration?_eq (position : Nat) (expected : List Nat) (result : Search) :
    (c.via p).resumedIteration? position (expected.map m.kind) (result.renumber m.kind) =
      (c.resumedIteration? position expected result).map (Taken.renumber m.kind) := by
  cases result with
  | abandoned => rfl
  | stopped stop => rfl
  | found start found =>
    exact congrArg some
      (hp.resumedTaken_eq position expected (.found start { found with index := 0 }))

/-- A recovery in a repetition makes the same error. -/
theorem iterationError?_eq (position : Nat) (result : Search) :
    (c.via p).iterationError? position (result.renumber m.kind) =
      c.iterationError? position result := by
  cases result with
  | abandoned => rfl
  | stopped stop => rfl
  | found start found => exact hp.resumedError?_eq position (.found start { found with index := 0 })

end Program.Embeds

end Packrat
