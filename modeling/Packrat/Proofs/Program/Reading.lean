import Packrat.Proofs.Grammar.Interpretation
import Packrat.Proofs.Program.Lowered
import Packrat.Proofs.Strict.Derivation

/-!
# Trees with their kinds

The numbers of kinds in trees are read in the table of the program that made them. No kind has two
numbers, so trivia and closed nodes read as they do in a grammar that the program implements, and
a terminal takes what the grammar says.
-/

namespace Packrat

namespace Program

mutual

/-- A tree with its kinds, if they all stand in the table. -/
def named? (p : Program) : Tree → Option NamedTree
  | .leaf kind text => (p.kinds[kind]?).map fun kind => .leaf kind text
  | .node kind children =>
    (p.kinds[kind]?).bind fun kind => (p.namedAll? children).map fun children =>
      .node kind children

/-- The same for all of some trees. -/
def namedAll? (p : Program) : List Tree → Option (List NamedTree)
  | [] => some []
  | t :: ts => (p.named? t).bind fun t => (p.namedAll? ts).map fun ts => t :: ts

end

/-- Whether something that was taken is what was matched, with the kinds of its trees. -/
def Reads (p : Program) (t : Taken) (m : Matched) : Prop :=
  t.stop = m.stop ∧ p.namedAll? t.trees = some m.trees

section

variable {p : Program} {t : Tree} {ts us : List Tree} {ns ms : List NamedTree}

/-- Trees have kinds when the first one and those behind it have. -/
theorem namedAll?_cons_eq_some :
    p.namedAll? (t :: ts) = some ns ↔
      ∃ n rest, p.named? t = some n ∧ p.namedAll? ts = some rest ∧ ns = n :: rest := by
  simp only [namedAll?, Option.bind_eq_some_iff, Option.map_eq_some_iff]
  constructor
  · rintro ⟨n, hn, rest, hrest, rfl⟩
    exact ⟨n, rest, hn, hrest, rfl⟩
  · rintro ⟨n, rest, hn, hrest, rfl⟩
    exact ⟨n, hn, rest, hrest, rfl⟩

/-- Trees one behind the other have their kinds one behind the other. -/
theorem namedAll?_append (hts : p.namedAll? ts = some ns) (hus : p.namedAll? us = some ms) :
    p.namedAll? (ts ++ us) = some (ns ++ ms) := by
  induction ts generalizing ns with
  | nil =>
    cases hts
    exact hus
  | cons t ts ih =>
    obtain ⟨n, rest, hn, hrest, rfl⟩ := namedAll?_cons_eq_some.mp hts
    exact namedAll?_cons_eq_some.mpr ⟨n, rest ++ ms, hn, ih hrest, rfl⟩

/-- A single tree has its own kind. -/
theorem namedAll?_singleton {n : NamedTree} (h : p.named? t = some n) :
    p.namedAll? [t] = some [n] :=
  namedAll?_cons_eq_some.mpr ⟨n, [], h, rfl, rfl⟩

/-- A leaf is read under the kind of its number. -/
theorem named?_leaf {number : Nat} {kind : Kind} (h : p.kinds[number]? = some kind)
    (text : String) : p.named? (.leaf number text) = some (.leaf kind text) := by
  simp [named?, h]

/-- A node is read under the kind of its number, with the trees in it. -/
theorem named?_node {number : Nat} {kind : Kind} (h : p.kinds[number]? = some kind)
    (hts : p.namedAll? ts = some ns) : p.named? (.node number ts) = some (.node kind ns) := by
  simp [named?, h, hts]

end

namespace Reads

variable {p : Program} {t u : Taken} {m n : Matched}

/-- What is taken in two steps reads as what is matched in them. -/
theorem andThen (ht : p.Reads t m) (hu : p.Reads u n) : p.Reads (t.andThen u) (m.andThen n) :=
  ⟨hu.1, namedAll?_append ht.2 hu.2⟩

/-- An answer behind what was taken reads as what is matched behind the match. -/
theorem behind {a : Answer} {notes : Notes} {rest : Option Matched} (ht : p.Reads t m)
    (ha : Option.Rel p.Reads a.taken rest) :
    Option.Rel p.Reads (Answer.behind t notes a).taken (rest.map m.andThen) := by
  rcases a with ⟨taken, _⟩
  cases ha with
  | none => exact .none
  | some hu => exact .some (ht.andThen hu)

/-- A repetition ends just where the grammar lets it end. -/
theorem endRepetition (least count position : Nat) (notes : Notes) :
    Option.Rel p.Reads (Packrat.endRepetition least count position notes).taken
      (Matched.ended least count position) := by
  unfold Packrat.endRepetition Matched.ended
  split
  · exact .none
  · exact .some ⟨rfl, rfl⟩

end Reads

end Program

/-- `Stands g start p part task` says that a task of a program stands for a part of a grammar. -/
inductive Stands (g : Grammar) (start : Nat) (p : Program) : Part → Task → Prop
  | step {r step} (lowers : Lowers g start p r step) : Stands g start p (.expression r) (.step step)
  | rule {i} (known : i < g.rules.length) (inner : g.isLexical start i = false) :
      Stands g start p (.expression (g.body i)) (.rule i)
  | seq {rs steps} (members : LowersAll g start p rs steps) :
      Stands g start p (.sequence rs) (.seq steps)
  | choice {rs steps} (members : LowersAll g start p rs steps) :
      Stands g start p (.choice rs) (.choice steps)
  | iterations {r step least most count} (content : Lowers g start p r step) :
      Stands g start p (.iterations r least most count) (.iterations step least most count)

namespace Program.Implements

variable {g : Grammar} {start : Nat} {p : Program} (h : p.Implements g start)

include h

/-- A kind is that of an extra in the table if and only if it is in the grammar. -/
theorem isTrivia_eq {number : Nat} {kind : Kind} (hkind : p.kinds[number]? = some kind) :
    p.isTrivia number = (g.trivia start).any (·.2 == kind) := by
  have hextras := h.extras
  unfold Program.isTrivia
  generalize p.extras = extras at hextras
  generalize g.trivia start = trivia at hextras
  induction hextras with
  | nil => rfl
  | @cons e x _ _ hhead _ ih =>
    rw [List.any_cons, List.any_cons, ih]
    congr 1
    rw [Bool.eq_iff_iff, beq_iff_eq, beq_iff_eq]
    constructor
    · intro he
      rw [he] at hhead
      exact Option.some.inj (hhead.2.symm.trans hkind)
    · intro hx
      rw [hx] at hhead
      exact h.distinct _ _ _ hhead.2 hkind

variable {c : Setting} (hc : c.program = p)

include hc

/-- A tree is trivia just when the tree that it reads as is. -/
theorem isTrivia_named {t : Tree} {n : NamedTree} (hn : p.named? t = some n) :
    c.isTrivia t = g.isTrivia start n := by
  cases t with
  | leaf number text =>
    obtain ⟨kind, hkind, rfl⟩ := Option.map_eq_some_iff.mp (by simpa only [named?] using hn)
    simpa only [Setting.isTrivia, Grammar.isTrivia, hc] using h.isTrivia_eq hkind
  | node number children =>
    simp only [named?, Option.bind_eq_some_iff, Option.map_eq_some_iff] at hn
    obtain ⟨kind, -, ns, -, rfl⟩ := hn
    rfl

/-- Trees begin with the same trivia in the table and in the grammar. -/
theorem named_trivia {ts : List Tree} {ns : List NamedTree} (hns : p.namedAll? ts = some ns) :
    p.namedAll? (ts.takeWhile c.isTrivia) = some (ns.takeWhile (g.isTrivia start)) ∧
      p.namedAll? (ts.dropWhile c.isTrivia) = some (ns.dropWhile (g.isTrivia start)) := by
  induction ts generalizing ns with
  | nil =>
    cases hns
    exact ⟨rfl, rfl⟩
  | cons t ts ih =>
    obtain ⟨n, rest, hn, hrest, rfl⟩ := namedAll?_cons_eq_some.mp hns
    have htrivia := h.isTrivia_named hc hn
    obtain ⟨htake, hdrop⟩ := ih hrest
    cases hfirst : c.isTrivia t with
    | true =>
      rw [hfirst] at htrivia
      rw [List.takeWhile_cons_of_pos hfirst, List.dropWhile_cons_of_pos hfirst,
        List.takeWhile_cons_of_pos htrivia.symm, List.dropWhile_cons_of_pos htrivia.symm]
      exact ⟨namedAll?_cons_eq_some.mpr ⟨n, _, hn, htake, rfl⟩, hdrop⟩
    | false =>
      have hnot : ¬ c.isTrivia t = true := by simp [hfirst]
      have hnot' : ¬ g.isTrivia start n = true := by simp [← htrivia, hfirst]
      rw [List.takeWhile_cons_of_neg hnot, List.dropWhile_cons_of_neg hnot,
        List.takeWhile_cons_of_neg hnot', List.dropWhile_cons_of_neg hnot']
      exact ⟨rfl, hns⟩

/-- A closed node reads as one that is closed in the grammar. -/
theorem close_reads {t : Taken} {m : Matched} {number : Nat} {kind : Kind}
    (hkind : p.kinds[number]? = some kind) (ht : p.Reads t m) :
    p.Reads { t with trees := c.close number t.trees } (g.closed start kind m) := by
  obtain ⟨hstop, htrees⟩ := ht
  obtain ⟨htake, hdrop⟩ := h.named_trivia hc htrees
  exact ⟨hstop, namedAll?_append htake (namedAll?_singleton (named?_node hkind hdrop))⟩

/-- Trees in a closed node read as those in the grammar. -/
theorem wrapped_reads {a : Answer} {m : Option Matched} {number : Nat} {kind : Kind}
    (hkind : p.kinds[number]? = some kind) (ha : Option.Rel p.Reads a.taken m) :
    Option.Rel p.Reads (a.wrapped c number).taken (m.map (g.closed start kind)) := by
  rcases a with ⟨taken, notes⟩
  cases ha with
  | none => exact .none
  | some ht => exact .some (h.close_reads hc hkind ht)

/-- A call reads as a reference. -/
theorem called_reads {r : Rule} {i : Nat} {renamed : Option Nat} {a : Answer} {m : Option Matched}
    (hstands : p.StandsFor g start (.call i renamed) r) (ha : Option.Rel p.Reads a.taken m) :
    ∃ kind, g.Refers start r i kind ∧
      Option.Rel p.Reads (a.called c i renamed false).taken (m.map (g.enclosed start kind)) := by
  obtain ⟨kind, hrefers, hkind⟩ := hstands
  refine ⟨kind, hrefers, ?_⟩
  rcases a with ⟨taken, notes⟩
  cases ha with
  | none => exact .none
  | @some t m ht =>
    refine .some ?_
    cases kind with
    | none =>
      obtain ⟨rfl, hhidden⟩ := hkind
      simpa [hc, hhidden, Grammar.enclosed] using ht
    | some kind =>
      obtain ⟨hkind, hnode⟩ := hkind
      simp only [hc, Bool.false_and, Bool.false_or, hnode, Bool.false_eq_true, if_false]
      exact h.close_reads hc hkind ht

/-- The first extra that matches in the table is the first one in the grammar. -/
theorem extraAt?_eq (position : Nat) :
    (∀ piece, (c.firstExtra position p.extras).1 = some piece → ∃ kind,
      p.kinds[piece.kind]? = some kind ∧ piece.start = position ∧
      extraAt? (g.trivia start) c.text position = some (piece.stop - position, kind)) ∧
    ((c.firstExtra position p.extras).1 = none →
      extraAt? (g.trivia start) c.text position = none) := by
  have hextras := h.extras
  generalize p.extras = extras at hextras
  generalize g.trivia start = trivia at hextras
  induction hextras with
  | nil => exact ⟨by simp [Setting.firstExtra], fun _ => rfl⟩
  | @cons e x extras trivia hhead _ ih =>
    unfold extraAt? at ih ⊢
    simp only [Setting.firstExtra, hc, hhead.1, List.findSome?_cons]
    rcases (x.1.scanAt c.text position).length with _ | _ | n
    · exact ih
    · exact ih
    · refine ⟨?_, by simp⟩
      rintro piece ⟨⟩
      exact ⟨x.2, hhead.2, rfl, by simp⟩

omit hc in
/-- A leaf that is put before others becomes one with its neighbour in the table as in the
grammar. -/
theorem push_named {piece : Piece} {pieces : List Piece} {kind : Kind} {ns : List NamedTree}
    {stop : Nat} (hkind : p.kinds[piece.kind]? = some kind)
    (hcovers : Piece.Covers c.text (piece :: pieces) piece.start stop)
    (hns : p.namedAll? (pieces.map c.leaf) = some ns) :
    p.namedAll? ((piece.push pieces).map c.leaf) =
      some (NamedTree.before kind (c.text.slice piece.start piece.stop) ns) := by
  have hpiece : p.named? (c.leaf piece) =
      some (.leaf kind (c.text.slice piece.start piece.stop)) := named?_leaf hkind _
  cases pieces with
  | nil =>
    cases hns
    exact namedAll?_singleton hpiece
  | cons q rest =>
    obtain ⟨n, others, hn, hothers, rfl⟩ := namedAll?_cons_eq_some.mp hns
    obtain ⟨next, hnext, rfl⟩ := Option.map_eq_some_iff.mp
      (by simpa only [named?, Setting.leaf] using hn)
    obtain ⟨-, hlt, hstart, -, hq, hlt', hq', hstop, -⟩ := hcovers
    rw [Piece.push, NamedTree.before]
    by_cases hsame : piece.kind = q.kind
    · rw [hsame] at hkind
      cases hkind.symm.trans hnext
      rw [if_pos hsame, if_pos rfl]
      rw [hq, Text.slice_append_slice hstart hq' hstop (Nat.le_of_lt hlt) (Nat.le_of_lt hlt')]
      exact namedAll?_cons_eq_some.mpr
        ⟨_, others, named?_leaf (hsame ▸ hnext) _, hothers, rfl⟩
    · have hdifferent : kind ≠ next := by
        rintro rfl
        exact hsame (h.distinct _ _ _ hkind hnext)
      rw [if_neg hsame, if_neg hdifferent]
      exact namedAll?_cons_eq_some.mpr ⟨_, _, hpiece, hns, rfl⟩

/-- The pieces that extras match are what is skipped, as long as more are allowed than bytes. -/
theorem extraPieces_skips (count position : Nat) (hcount : c.text.size + 1 ≤ position + count) :
    ∃ m, Skips (g.trivia start) c.text position m ∧
      Piece.Covers c.text (c.extraPieces count position).1 position m.stop ∧
      p.namedAll? (((c.extraPieces count position).1.foldr Piece.push []).map c.leaf) =
        some m.trees := by
  induction count generalizing position with
  | zero =>
    refine ⟨⟨position, []⟩, .done ?_, rfl, rfl⟩
    refine (h.extraAt?_eq hc position).2
      (Option.eq_none_iff_forall_ne_some.mpr fun piece hpiece => ?_)
    have := Text.le_size_of_isBoundary (c.firstExtra_eq_some hpiece).2.2.1
    omega
  | succ count ih =>
    obtain ⟨hsome, hnone⟩ := h.extraAt?_eq hc position
    rw [Setting.extraPieces, hc]
    rcases hfirst : c.firstExtra position p.extras with ⟨_ | piece, reach⟩
    · exact ⟨⟨position, []⟩, .done (hnone (by rw [hfirst])), rfl, rfl⟩
    · rw [hfirst] at hsome
      obtain ⟨kind, hkind, hstart, hextra⟩ := hsome piece rfl
      have hpiece := c.firstExtra_eq_some (by rw [hfirst])
      obtain ⟨-, hlt, hboundary, hstop, -⟩ := hpiece
      have hnext : position + (piece.stop - position) = piece.stop := by omega
      obtain ⟨m, hskips, hcovers, hnamed⟩ := ih piece.stop (by omega)
      have hall : Piece.Covers c.text (piece :: (c.extraPieces count piece.stop).1) position
          m.stop := ⟨hstart, hlt, hboundary, hstop, hcovers⟩
      refine ⟨_, .next hextra (by rw [hnext]; exact hskips), hall, ?_⟩
      rw [hnext, ← hstart]
      exact h.push_named hkind ⟨rfl, by omega, by rwa [hstart], hstop, hcovers.foldr_push⟩ hnamed

/-- The trivia at a position is what is skipped there. -/
theorem trivia_skips (position : Nat) :
    ∃ m, Skips (g.trivia start) c.text position m ∧
      p.Reads ⟨(c.trivia position).stop, (c.trivia position).leaves, []⟩ m := by
  obtain ⟨m, hskips, hcovers, hnamed⟩ :=
    h.extraPieces_skips hc (c.text.size + 1 - position) position (by omega)
  refine ⟨m, hskips, ?_, hnamed⟩
  simp only [Setting.trivia]
  exact hcovers.stop_eq

omit hc in
/-- A terminal takes what the grammar says. -/
theorem token_takes {r : Rule} {kind : Kind} {terminal number : Nat} {immediate : Bool}
    (hleaf : p.TakesLeaf r kind (.token terminal number immediate)) (text : Text)
    (position : Nat) :
    ∃ m, g.Takes start text r kind position m ∧
      Option.Rel p.Reads (p.tokenAnswer text terminal number immediate position).taken m := by
  obtain ⟨_, _, hstep, hterminal, hkind⟩ := hleaf
  obtain ⟨rfl, rfl, rfl⟩ := Op.token.inj hstep
  generalize htrivia : (if r.isImmediate then (⟨[], position, 0⟩ : Trivia)
    else (p.plain text).trivia position) = trivia
  obtain ⟨before, hbefore, hstop, hleaves⟩ : ∃ before : Matched,
      (if r.isImmediate then before = ⟨position, []⟩
        else Skips (g.trivia start) text position before) ∧
      p.Reads ⟨trivia.stop, trivia.leaves, []⟩ before := by
    rw [← htrivia]
    split
    · exact ⟨_, rfl, rfl, rfl⟩
    · exact h.trivia_skips (c := p.plain text) rfl position
  refine ⟨_, ⟨_, before, hterminal, hbefore, rfl⟩, ?_⟩
  simp only [tokenAnswer, htrivia]
  simp only at hstop hleaves
  rw [hstop]
  cases ((p.terminal terminal).scanAt text before.stop).length with
  | none => exact .none
  | some n =>
    refine .some ⟨rfl, namedAll?_append hleaves ?_⟩
    split
    · rfl
    · exact namedAll?_singleton (named?_leaf hkind _)

end Program.Implements

end Packrat
