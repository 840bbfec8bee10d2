import Packrat.Grammar.Analysis
import Packrat.Program.Lexical
import Packrat.Proofs.Except

/-!
# Analysed grammars

What an analysis has checked: there is a rule of the number of the start rule, references name
rules, extras are single terminals, and no rule is left-recursive. The terminals, kinds and extras
of a grammar are given here without the tables of a program.
-/

namespace Packrat

namespace Rule

/-- Whether an expression is a single terminal without roles that have names around it. -/
def isLeaf : Rule → Bool
  | literal _ => true
  | pattern _ _ => true
  | token _ _ => true
  | _ => false

/-- A terminal is what comes out as a leaf when its wrappers are removed. -/
theorem isTerminal_eq (r : Rule) : r.isTerminal = r.unwrapped.isLeaf := by
  unfold isTerminal isLeaf
  split <;> simp_all

/-- Without its outer wrappers, an expression has none to remove. -/
theorem unwrapped_unwrapped (r : Rule) : r.unwrapped.unwrapped = r.unwrapped := by
  fun_induction unwrapped r with
  | case1 _ _ ih => exact ih
  | case2 r hr =>
    unfold unwrapped
    split
    · exact absurd rfl (hr _ _)
    · rfl

/-- A field is a wrapper, so none is left when wrappers are removed. -/
theorem unwrapped_ne_field (r : Rule) (name : String) (content : Rule) :
    r.unwrapped ≠ .field name content := by
  fun_induction unwrapped r with
  | case1 _ _ ih => exact ih
  | case2 r hr => exact fun h => hr _ _ h

/-- A leaf has no wrapper. -/
theorem unwrapped_of_isLeaf {r : Rule} (h : r.isLeaf = true) : r.unwrapped = r := by
  cases r <;> first | rfl | cases h

/-- A leaf is a terminal. -/
theorem isTerminal_of_isLeaf {r : Rule} (h : r.isLeaf = true) : r.isTerminal = true := by
  rw [isTerminal_eq, unwrapped_of_isLeaf h, h]

/-- A terminal is one with or without its wrappers. -/
theorem isTerminal_unwrapped (r : Rule) : r.unwrapped.isTerminal = r.isTerminal := by
  rw [isTerminal_eq, isTerminal_eq, unwrapped_unwrapped]

/-- Wrappers do not decide whether trivia may come before a token. -/
theorem isImmediate_unwrapped (r : Rule) : r.unwrapped.isImmediate = r.isImmediate := by
  simp only [isImmediate, unwrapped_unwrapped]

/-- A reference in wrappers is no terminal. -/
theorem isTerminal_of_unwrapped {r : Rule} {name : String} (h : r.unwrapped = .symbol name) :
    r.isTerminal = false := by
  rw [isTerminal_eq, h]
  rfl

/-- The form of a terminal is that of what its wrappers hold. -/
theorem form?_unwrapped (r : Rule) : r.unwrapped.form? = r.form? := by
  simp only [form?, simpleForm?, unwrapped_unwrapped]

/-- Every terminal has a form. -/
theorem form?_isSome_of_isTerminal {r : Rule} (h : r.isTerminal = true) : r.form?.isSome := by
  unfold isTerminal at h
  unfold form? simpleForm?
  split at h <;> simp_all

/-- The terminal of an expression that is a single terminal. -/
def terminal? (r : Rule) : Option Terminal := r.form?.bind fun form => form.terminal.toOption

/-- The kind of the leaves of an expression that is a single terminal, where they have no other
name. -/
def leafKind? (r : Rule) : Option Kind := r.form?.map TerminalForm.kind

/-- What a terminal matches is what the content of its wrappers matches. -/
theorem terminal?_unwrapped (r : Rule) : r.unwrapped.terminal? = r.terminal? := by
  simp only [terminal?, form?_unwrapped]

/-- The form of a terminal tells what it matches. -/
theorem terminal?_eq {r : Rule} {form : TerminalForm} {t : Terminal} (hform : r.form? = some form)
    (hterminal : form.terminal = .ok t) : r.terminal? = some t := by
  simp only [terminal?, hform, Option.bind_some, hterminal, Except.toOption]

/-- The form of a terminal tells the kind of its leaves. -/
theorem leafKind?_eq {r : Rule} {form : TerminalForm} (hform : r.form? = some form) :
    r.leafKind? = some form.kind := by
  simp only [leafKind?, hform, Option.map_some]

/-- Wrappers have no flaw of their own. -/
theorem flaw?_unwrapped (defined : String → Bool) (inToken : Bool) (r : Rule) :
    r.unwrapped.flaw? defined inToken = r.flaw? defined inToken := by
  fun_induction unwrapped r with
  | case1 _ _ ih => simpa [flaw?] using ih
  | case2 r hr => rfl

/-- A list of expressions has no flaw when none of them has one. -/
theorem flawAmong?_eq_none {defined : String → Bool} {inToken : Bool} {rs : List Rule} :
    flawAmong? defined inToken rs = none ↔ ∀ r ∈ rs, r.flaw? defined inToken = none := by
  induction rs with
  | nil => simp [flawAmong?]
  | cons r rs ih => simp [flawAmong?, Option.or_eq_none_iff, ih]

end Rule

namespace Grammar

variable {g : Grammar}

/-- Whether the rule of a number is a single terminal. The start rule never counts as one. -/
def isLexical (g : Grammar) (start i : Nat) : Bool := i != start && (g.body i).isTerminal

/-- A rule that is a token of its own has a terminal for its body. -/
theorem isTerminal_of_isLexical {start i : Nat} (h : g.isLexical start i = true) :
    (g.body i).isTerminal = true := (Bool.and_eq_true_iff.mp h).2

/-- The kind of the leaves or nodes of the rule of a number. -/
def kindOf (g : Grammar) (start i : Nat) : Kind :=
  ⟨g.ruleName i, true, if g.isLexical start i then .token else .node⟩

/-- The terminal and the kind of an extra. -/
def extra? (g : Grammar) (start : Nat) (r : Rule) : Option (Terminal × Kind) :=
  match r.unwrapped with
  | .symbol name => do
    let i ← g.number? name
    let terminal ← (g.body i).terminal?
    return (terminal, g.kindOf start i)
  | inner => do
    let terminal ← inner.terminal?
    let kind ← inner.leafKind?
    return (terminal, kind)

/-- The terminals and kinds of the extras, in the order of trying. -/
def trivia (g : Grammar) (start : Nat) : List (Terminal × Kind) :=
  g.extras.filterMap (g.extra? start)

/-- `g.TakenAs start r terminal kind` says that an expression stands for a single leaf of a kind,
which the terminal of another expression takes: a terminal itself, or a rule that is one, either of
them perhaps under another name. -/
inductive TakenAs (g : Grammar) (start : Nat) : Rule → (terminal : Rule) → Kind → Prop
  | own {r kind} (single : r.isLeaf = true) (own : r.leafKind? = some kind) :
      TakenAs g start r r kind
  | lexical {name i} (number : g.number? name = some i) (lexical : g.isLexical start i = true) :
      TakenAs g start (.symbol name) (g.body i) (g.kindOf start i)
  | renamed {r name named} (single : r.isTerminal = true) :
      TakenAs g start (.renamed r name named) r ⟨name, named, .token⟩
  | renamedLexical {r name named target i} (content : r.unwrapped = .symbol target)
      (number : g.number? target = some i) (lexical : g.isLexical start i = true) :
      TakenAs g start (.renamed r name named) (g.body i) ⟨name, named, .token⟩

/-- `g.Refers start r i kind` says that an expression refers to the rule of a number, which is not
a single terminal, and of what kind the node around its trees is. A hidden rule has none, unless
it is given another name. -/
inductive Refers (g : Grammar) (start : Nat) : Rule → (rule : Nat) → Option Kind → Prop
  | hidden {name i} (number : g.number? name = some i) (inner : g.isLexical start i = false)
      (hidden : g.isHidden name = true) : Refers g start (.symbol name) i none
  | visible {name i} (number : g.number? name = some i) (inner : g.isLexical start i = false)
      (visible : g.isHidden name = false) :
      Refers g start (.symbol name) i (some (g.kindOf start i))
  | renamed {r name named target i} (content : r.unwrapped = .symbol target)
      (number : g.number? target = some i) (inner : g.isLexical start i = false) :
      Refers g start (.renamed r name named) i (some ⟨name, named, .node⟩)

/-- The number found for a name is that of a rule, and of one with this name. -/
theorem of_number? {name : String} {i : Nat} (h : g.number? name = some i) :
    i < g.rules.length ∧ g.ruleName i = name := by
  obtain ⟨hi, hname, -⟩ := List.findIdx?_eq_some_iff_getElem.mp h
  exact ⟨hi, by simpa [ruleName, hi] using hname⟩

/-- The body of a rule stands in the list of rules at its number. -/
theorem body_eq {i : Nat} (hi : i < g.rules.length) : g.body i = g.rules[i].2 := by
  simp [body, hi]

/-- A rule stands in the list of rules with its name and its body. -/
theorem mem_rules {i : Nat} (hi : i < g.rules.length) : (g.ruleName i, g.body i) ∈ g.rules := by
  rw [body_eq hi, ruleName, List.getElem?_eq_getElem hi]
  exact List.getElem_mem hi

/-- Where names are given once, rules with the same name are the same. -/
theorem ruleName_inj (h : (g.rules.map (·.1)).Nodup) {i j : Nat} (hi : i < g.rules.length)
    (hj : j < g.rules.length) (hname : g.ruleName i = g.ruleName j) : i = j := by
  refine (List.getElem?_inj (by simpa using hi) h).mp ?_
  simpa [ruleName, hi, hj] using hname

/-- Where names are distinct, the rule that is found by a name is the only one of it. -/
theorem number?_of_mem (h : (g.rules.map (·.1)).Nodup) {rule : String × Rule}
    (hrule : rule ∈ g.rules) : ∃ i, g.number? rule.1 = some i ∧ g.body i = rule.2 := by
  obtain ⟨i, hi, rfl⟩ := List.getElem_of_mem hrule
  refine ⟨i, List.findIdx?_eq_some_iff_getElem.mpr ⟨hi, beq_self_eq_true _, ?_⟩, body_eq hi⟩
  intro j hji hfound
  have hj : j < g.rules.length := Nat.lt_trans hji hi
  have hname : g.ruleName j = g.ruleName i := by simpa [ruleName, hi, hj] using hfound
  exact Nat.ne_of_lt hji (ruleName_inj h hj hi hname)

/-- The edges of a graph between rules lead to those that expressions refer to in some way. -/
theorem adj_iff_of_references (references : Rule → List String) {i j : Nat} :
    Graph.Adj (g.rules.map fun rule => (references rule.2).filterMap g.number?).toArray i j ↔
      i < g.rules.length ∧ ∃ name ∈ references (g.body i), g.number? name = some j := by
  by_cases hi : i < g.rules.length
  · simp [Graph.Adj, Graph.targets, hi, body_eq hi]
  · simp [Graph.Adj, Graph.targets, hi]

/-- The rule that is found by a name is the one of its number. -/
theorem find?_eq (name : String) : g.find? name = (g.number? name).map g.body := by
  unfold find? number?
  rw [List.find?_eq_getElem?_findIdx, List.findIdx?_eq_guard_findIdx_lt]
  by_cases h : g.rules.findIdx (·.1 == name) < g.rules.length
  · simp [h, Option.guard, body]
  · simp [h, Option.guard]

section

variable {start : Nat} {r terminal : Rule} {kind : Kind}

/-- An expression is taken as a terminal in one way only. -/
theorem TakenAs.unique {terminal' : Rule} {kind' : Kind} (h : g.TakenAs start r terminal kind)
    (h' : g.TakenAs start r terminal' kind') : terminal = terminal' ∧ kind = kind' := by
  cases h with
  | own single own =>
    cases h' with
    | own _ own' => exact ⟨rfl, Option.some.inj (own.symm.trans own')⟩
    | _ => cases single
  | lexical number =>
    cases h' with
    | own single => cases single
    | lexical number' =>
      cases number.symm.trans number'
      exact ⟨rfl, rfl⟩
  | renamed single =>
    cases h' with
    | own single => cases single
    | renamed => exact ⟨rfl, rfl⟩
    | renamedLexical content => simp [Rule.isTerminal_of_unwrapped content] at single
  | renamedLexical content number =>
    cases h' with
    | own single => cases single
    | renamed single => simp [Rule.isTerminal_of_unwrapped content] at single
    | renamedLexical content' number' =>
      cases content.symm.trans content'
      cases number.symm.trans number'
      exact ⟨rfl, rfl⟩

/-- A reference leads to a rule that there is and that is no token of its own. -/
theorem Refers.inner {i : Nat} {kind : Option Kind} (h : g.Refers start r i kind) :
    i < g.rules.length ∧ g.isLexical start i = false := by
  cases h with
  | hidden number inner => exact ⟨(of_number? number).1, inner⟩
  | visible number inner => exact ⟨(of_number? number).1, inner⟩
  | renamed _ number inner => exact ⟨(of_number? number).1, inner⟩

/-- An expression refers to one rule in one way only. -/
theorem Refers.unique {i i' : Nat} {kind kind' : Option Kind}
    (h : g.Refers start r i kind) (h' : g.Refers start r i' kind') : i = i' ∧ kind = kind' := by
  cases h with
  | hidden number _ hidden =>
    cases h' with
    | hidden number' =>
      cases number.symm.trans number'
      exact ⟨rfl, rfl⟩
    | visible _ _ visible => simp [hidden] at visible
  | visible number _ visible =>
    cases h' with
    | hidden _ _ hidden => simp [hidden] at visible
    | visible number' =>
      cases number.symm.trans number'
      exact ⟨rfl, rfl⟩
  | renamed content number =>
    cases h' with
    | renamed content' number' =>
      cases content.symm.trans content'
      cases number.symm.trans number'
      exact ⟨rfl, rfl⟩

/-- A leaf is no reference to a rule with a node of its own. -/
theorem TakenAs.not_refers {i : Nat} {kind' : Option Kind}
    (h : g.TakenAs start r terminal kind) : ¬ g.Refers start r i kind' := by
  intro h'
  cases h with
  | own single => cases h' <;> cases single
  | lexical number lexical =>
    cases h' with
    | hidden number' inner =>
      cases number.symm.trans number'
      simp [lexical] at inner
    | visible number' inner =>
      cases number.symm.trans number'
      simp [lexical] at inner
  | renamed single =>
    cases h' with
    | renamed content => simp [Rule.isTerminal_of_unwrapped content] at single
  | renamedLexical content number lexical =>
    cases h' with
    | renamed content' number' inner =>
      cases content.symm.trans content'
      cases number.symm.trans number'
      simp [lexical] at inner

/-- A leaf is nothing that gets a node because it is given another name. -/
theorem TakenAs.of_renamed {name : String} {named : Bool}
    (h : g.TakenAs start (.renamed r name named) terminal kind) :
    r.isTerminal = true ∨ ∃ target, r.unwrapped = .symbol target := by
  cases h with
  | own single => cases single
  | renamed single => exact .inl single
  | renamedLexical content => exact .inr ⟨_, content⟩

end

/-- The table of the rules that are tokens says the same as the condition on a single rule. -/
theorem getD_lexicality (start i : Nat) : (g.lexicality start)[i]?.getD false =
    g.isLexical start i := by
  unfold lexicality isLexical body
  rw [List.getElem?_map, List.getElem?_zipIdx]
  by_cases hi : i < g.rules.length
  · simp [hi]
  · simp [hi, Rule.isTerminal, Rule.unwrapped]

section

variable {name : Option String} {a : Analysis}

/-- What was checked in a grammar that has passed its analysis. -/
structure Checked (g : Grammar) (start : Nat) : Prop where
  start_lt : start < g.rules.length
  flawless : ∀ i < g.rules.length, (g.body i).flaw? g.defines false = none
  extras : ∀ extra ∈ g.extras, extra.flaw? g.defines false = none ∧ g.isExtra extra = true
  leftRecursion : g.checkLeftRecursion g.nullability = .ok ()

/-- A rule that passes its check has no flaw. -/
theorem flawless_of_checkRule {rule : String} {r : Rule} (h : g.checkRule rule r = .ok ()) :
    r.flaw? g.defines false = none := by
  unfold checkRule at h
  split at h
  · cases h
  · assumption

/-- An extra that passes its check has no flaw and is a single terminal. -/
theorem of_checkExtra {extra : Rule × Nat} (h : g.checkExtra extra = .ok ()) :
    extra.1.flaw? g.defines false = none ∧ g.isExtra extra.1 = true := by
  obtain ⟨⟨⟩, hrule, h⟩ := Except.of_bind_ok h
  refine ⟨flawless_of_checkRule hrule, ?_⟩
  split at h
  · assumption
  · cases h

/-- When the check of rules and extras passes, no rule and no extra has a flaw, and each extra is a
single terminal. -/
theorem of_checkReferences (h : g.checkReferences = .ok ()) :
    (∀ i < g.rules.length, (g.body i).flaw? g.defines false = none) ∧
      ∀ extra ∈ g.extras, extra.flaw? g.defines false = none ∧ g.isExtra extra = true := by
  obtain ⟨⟨⟩, hrules, hextras⟩ := Except.of_bind_ok h
  refine ⟨fun i hi => ?_, fun extra hextra => ?_⟩
  · rw [body_eq hi]
    exact flawless_of_checkRule (Except.of_forM_ok hrules _ (List.getElem_mem hi))
  · obtain ⟨i, hi, rfl⟩ := List.getElem_of_mem hextra
    have hmem : (g.extras[i], i) ∈ g.extras.zipIdx := by simp [List.mk_mem_zipIdx_iff_getElem?]
    exact of_checkExtra (Except.of_forM_ok hextras _ hmem)

/-- What is known of a grammar that is accepted: it has passed all checks, and its analysis follows
from the number of the start rule. -/
structure Accepted (g : Grammar) (a : Analysis) : Prop where
  names : g.checkNames = .ok ()
  start : ∃ rule, g.number? rule = some a.start
  references : g.checkReferences = .ok ()
  leftRecursion : g.checkLeftRecursion g.nullability = .ok ()
  escape : g.checkEscape = .ok ()
  analysis : a = {
    start := a.start
    nullable := g.nullability
    lexical := g.lexicality a.start
    reachable := g.reachability a.start
    warnings := g.warnings (g.reachability a.start) g.nullability }

/-- A grammar with an analysis is accepted: its names, references and recursion have passed their
checks. -/
theorem accepted_of_analyze (h : g.analyze name = .ok a) : g.Accepted a := by
  unfold analyze at h
  split at h
  · obtain ⟨⟨⟩, hnames, h⟩ := Except.of_bind_ok h
    split at h
    · cases h
    · rename_i hstart
      obtain ⟨⟨⟩, hreferences, h⟩ := Except.of_bind_ok h
      obtain ⟨⟨⟩, hrecursion, h⟩ := Except.of_bind_ok h
      obtain ⟨⟨⟩, hescape, h⟩ := Except.of_bind_ok h
      cases h
      exact ⟨hnames, ⟨_, hstart⟩, hreferences, hrecursion, hescape, rfl⟩
  · cases h

/-- A grammar with an analysis satisfies all that a compiled program relies on. -/
theorem checked_of_analyze (h : g.analyze name = .ok a) : g.Checked a.start := by
  have haccepted := accepted_of_analyze h
  obtain ⟨rule, hstart⟩ := haccepted.start
  obtain ⟨hflawless, hextras⟩ := of_checkReferences haccepted.references
  exact ⟨(of_number? hstart).1, hflawless, hextras, haccepted.leftRecursion⟩

end

end Grammar

end Packrat
