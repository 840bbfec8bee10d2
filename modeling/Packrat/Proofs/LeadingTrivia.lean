import Packrat.Proofs.ErrorNodes
import Packrat.Proofs.Parse.Uniform
import Packrat.Proofs.Program.Computed

/-!
# Trivia in front of nodes

When a node is closed, the trivia that its trees begin with stays outside. So no node but the root
has trivia as its first child, and one begins with trivia only if an empty node stands in front of
it: there the trivia was met behind something that took nothing.
-/

/-!
## What trees begin with

The left end of a tree is reached by going from first child to first child. It is a leaf, which is
then the first leaf of the tree, or an empty node in front of all leaves. Where no node has a leaf
of some kinds as its first child, a node can begin with such a leaf only behind an empty node.
-/

namespace Packrat

namespace Tree

/-- `t.Inside u` says that a tree is a proper part of another one. -/
inductive Inside (t : Tree) : Tree → Prop
  | child {kind children} (member : t ∈ children) : Inside t (.node kind children)
  | deeper {u kind children} (member : u ∈ children) (inside : Inside t u) :
      Inside t (.node kind children)

mutual

/-- The kind of the first leaf. -/
def firstKind? : Tree → Option Nat
  | leaf kind _ => some kind
  | node _ children => firstKindAmong? children

/-- The kind of the first leaf of some trees. -/
def firstKindAmong? : List Tree → Option Nat
  | [] => none
  | t :: ts => t.firstKind?.or (firstKindAmong? ts)

end

/-- The left end of a tree: the tree itself if there is nothing in it, or else that of its first
child. -/
def leftEnd : Tree → Tree
  | leaf kind text => leaf kind text
  | node kind [] => node kind []
  | node _ (t :: _) => t.leftEnd

/-- `t.Tidy outside` says that no node of a tree has a leaf of certain kinds as its first child. -/
inductive Tidy (outside : Nat → Bool) : Tree → Prop
  | leaf {kind text} : Tidy outside (.leaf kind text)
  | node {kind children}
      (first : ∀ kind text rest, children = .leaf kind text :: rest → outside kind = false)
      (inner : ∀ t ∈ children, Tidy outside t) : Tidy outside (.node kind children)

variable {outside : Nat → Bool} {t u : Tree}

/-- A tree that lies inside of a tidy one is tidy. -/
theorem Tidy.inside (h : u.Tidy outside) (hinside : t.Inside u) : t.Tidy outside := by
  induction hinside with
  | child member =>
    cases h with
    | node first inner => exact inner _ member
  | deeper member inside ih =>
    cases h with
    | node first inner => exact ih (inner _ member)

/-- A leaf at the left end of a tree is its first leaf, and an empty node stands there otherwise. -/
theorem leftEnd_cases : (t : Tree) →
    (∃ kind text, t.leftEnd = leaf kind text ∧ t.firstKind? = some kind) ∨
      ∃ kind, t.leftEnd = node kind []
  | leaf kind text => .inl ⟨kind, text, rfl, rfl⟩
  | node kind [] => .inr ⟨kind, rfl⟩
  | node _ (t :: ts) => by
    rcases leftEnd_cases t with ⟨kind, text, hend, hfirst⟩ | ⟨kind, hend⟩
    · refine .inl ⟨kind, text, hend, ?_⟩
      simp only [firstKind?, firstKindAmong?, hfirst, Option.some_or]
    · exact .inr ⟨kind, hend⟩

/-- The left end of a tidy node is no leaf of the kinds that stay outside. -/
theorem Tidy.outside_leftEnd {kind : Nat} {text : String} : (t : Tree) → t.Tidy outside →
    t.leftEnd = .leaf kind text → t = .leaf kind text ∨ outside kind = false
  | .leaf _ _, _, hend => .inl hend
  | .node _ [], _, hend => by cases hend
  | .node _ (t :: ts), h, hend => by
    cases h with
    | node first inner =>
      rcases Tidy.outside_leftEnd t (inner t List.mem_cons_self) hend with rfl | hkind
      · exact .inr (first _ _ _ rfl)
      · exact .inr hkind

/-- A tidy node that begins with a leaf of the kinds that stay outside has an empty node in front of
this leaf. -/
theorem Tidy.exists_leftEnd {kind first : Nat} {children : List Tree}
    (h : (Tree.node kind children).Tidy outside)
    (hfirst : (Tree.node kind children).firstKind? = some first) (houtside : outside first = true) :
    ∃ empty, (Tree.node kind children).leftEnd = .node empty [] := by
  rcases leftEnd_cases (.node kind children) with ⟨found, text, hend, hfound⟩ | hempty
  · obtain rfl : found = first := Option.some.inj (hfound.symm.trans hfirst)
    rcases h.outside_leftEnd _ hend with heq | hkind
    · cases heq
    · simp [houtside] at hkind
  · exact hempty

end Tree

end Packrat

/-! ## What parses leave outside -/

namespace Packrat

namespace Program

/-- Closed nodes and error nodes do not begin with a leaf of trivia. -/
theorem upholds_tidy {p : Program} (hp : p.isTrivia skippedKind = false) (o : ParseOptions)
    (text : Text) (points : List Nat) :
    (roundSetting p o text points).Upholds (Tree.Tidy p.isTrivia) where
  leaf _ _ := .leaf
  error start stop := by
    unfold Setting.errorNode
    split
    · refine .node (fun kind text rest h => ?_) fun t ht => ?_
      · cases h
        exact hp
      · obtain rfl := List.mem_singleton.mp ht
        exact .leaf
    · exact .node nofun nofun
  node kind trees htrees := by
    refine .node (fun kind written rest h => ?_) fun t ht => ?_
    · have hhead := List.head?_dropWhile_not (roundSetting p o text points).isTrivia trees
      rw [h] at hhead
      exact hhead
    · exact htrees t ((List.dropWhile_sublist _).mem ht)

/-- Skipped text is no trivia of a compiled program. -/
theorem Implements.isTrivia_skippedKind {g : Grammar} {start : Nat} {p : Program}
    (h : p.Implements g start) : p.isTrivia skippedKind = false := by
  refine List.any_eq_false.mpr fun extra hextra => ?_
  simpa using (h.reserves.extras extra hextra).2

end Program

namespace Produced

variable {p : Program} {r : Parsed} {text : String}

/-- No node below the root of a tree, and none in the results that are kept, has trivia as its first
child. -/
theorem tidy (hp : p.isTrivia skippedKind = false) (h : Produced (· = p) r text) :
    (∃ kind children, r.tree = .node kind children ∧ ∀ t ∈ children, t.Tidy p.isTrivia) ∧
      r.results.Uniform (Tree.Tidy p.isTrivia) := by
  have hparse : ∀ o known traced text, Results.Uniform (Tree.Tidy p.isTrivia) known →
      (∃ kind children, (p.parseWith o known traced text).tree = .node kind children ∧
        ∀ t ∈ children, t.Tidy p.isTrivia) ∧
        (p.parseWith o known traced text).results.Uniform (Tree.Tidy p.isTrivia) := by
    intro o known traced text hknown
    have huniform : _ ∧ (p.parseWith o known traced text).results.Uniform _ :=
      Program.parseWith_uniform (p.upholds_tidy hp o text) hknown
    obtain ⟨⟨children, htree, hchildren⟩, hresults⟩ := huniform
    exact ⟨⟨_, children, htree, hchildren⟩, hresults⟩
  have hempty : Results.Uniform (Tree.Tidy p.isTrivia) {} := by simp [Results.Uniform]
  induction h with
  | parse o hp' =>
    subst hp'
    exact hparse _ _ _ _ hempty
  | traced o hp' =>
    subst hp'
    exact hparse _ _ _ _ hempty
  | reparse o hp' hold happly hsize hnew ih =>
    subst hp'
    obtain ⟨text, -, rfl⟩ := Program.reparse_eq_ok.mp hnew
    split
    · exact hparse _ _ _ _ ih.2.carryOver
    · exact hparse _ _ _ _ hempty

/-- A node below the root of a tree begins with trivia only if an empty node stands at its left end,
in front of this trivia. So a node starts with its first token unless it starts with an empty
node. -/
theorem empty_before_trivia {grammar : Grammar} {start : Nat} (hp : p.CompiledFrom grammar start)
    (h : Produced (· = p) r text) {kind first : Nat} {children : List Tree}
    (hinside : (Tree.node kind children).Inside r.tree)
    (hfirst : (Tree.node kind children).firstKind? = some first)
    (htrivia : p.isTrivia first = true) :
    ∃ empty, (Tree.node kind children).leftEnd = .node empty [] := by
  obtain ⟨⟨root, trees, htree, htidy⟩, -⟩ := h.tidy hp.implements.isTrivia_skippedKind
  rw [htree] at hinside
  refine Tree.Tidy.exists_leftEnd ?_ hfirst htrivia
  cases hinside with
  | child member => exact htidy _ member
  | deeper member inside => exact (htidy _ member).inside inside

end Produced

/-- A grammar in which something that may be left out stands before a token. -/
def Grammar.indented : Grammar where
  name := "indented"
  rules := [("s", .symbol "r"), ("r", .seq [.symbol "x", .literal "a"]),
    ("x", .optional (.literal "b"))]
  extras := [.literal " "]

/-- What its analysis tells. -/
def Analysis.indented : Analysis where
  start := 0
  nullable := [false, false, true]
  lexical := [false, false, false]
  reachable := [true, true, true]
  warnings := []

namespace Program

/-- The program of this grammar. -/
def indented : Program where
  name := "indented"
  kinds := #[.error, .skipped, ⟨"s", true, .node⟩, ⟨"r", true, .node⟩, ⟨"x", true, .node⟩,
    ⟨"a", false, .token⟩, ⟨"b", false, .token⟩, ⟨" ", false, .token⟩]
  rules := #[⟨"s", 2, .call 1 none, false, false, false⟩,
    ⟨"r", 3, .seq [.call 2 none, .token 0 5 false], false, false, false⟩,
    ⟨"x", 4, .choice [.token 1 6 false, .blank], true, false, false⟩]
  terminals := #[.literal "a", .literal "b", .literal " "]
  extras := [(2, 7)]
  sync := []
  start := 0
  fingerprint := Analysed.fingerprint ⟨.indented, .indented⟩

/-- The program is compiled from the grammar with something to be left out before a token. -/
theorem indented_compiledFrom : indented.CompiledFrom .indented 0 :=
  compiledFrom_of_contents .indented
    { kinds := [.error, .skipped, ⟨"s", true, .node⟩, ⟨"r", true, .node⟩, ⟨"x", true, .node⟩,
        ⟨"a", false, .token⟩, ⟨"b", false, .token⟩, ⟨" ", false, .token⟩]
      forms := [.literal "a", .literal "b", .literal " "]
      terminals := [.literal "a", .literal "b", .literal " "] } rfl rfl rfl

end Program

/-- Where what may be left out is left out, its node is empty, and the blank in front of the token
stands behind it in the node of the rule. -/
theorem Produced.empty_before_trivia_indented :
    (Program.indented.parse { memoize := false } " a").tree =
        .node 2 [.node 3 [.node 4 [], .leaf 7 " ", .leaf 5 "a"]] ∧
      (Program.indented.parse { memoize := false } " a").errors = [] ∧
      (Program.indented.parse { memoize := false } " a").halted = none ∧
      Program.indented.isTrivia 7 = true ∧
      ∃ empty, (Tree.node 3 [.node 4 [], .leaf 7 " ", .leaf 5 "a"]).leftEnd = .node empty [] := by
  have htree : (Program.indented.parse { memoize := false } " a").tree =
      .node 2 [.node 3 [.node 4 [], .leaf 7 " ", .leaf 5 "a"]] := by decide +kernel
  have hproduced : Produced (· = .indented)
      (Program.indented.parse { memoize := false } " a") " a" :=
    .parse { memoize := false } rfl (by decide)
  refine ⟨htree, by decide +kernel, by decide +kernel, by decide, ?_⟩
  have hinside : (Tree.node 3 [.node 4 [], .leaf 7 " ", .leaf 5 "a"]).Inside
      (Program.indented.parse { memoize := false } " a").tree := by
    rw [htree]
    exact .child List.mem_cons_self
  have htrivia : Program.indented.isTrivia 7 = true := by decide
  exact hproduced.empty_before_trivia Program.indented_compiledFrom hinside rfl htrivia

end Packrat
