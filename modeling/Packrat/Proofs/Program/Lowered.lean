import Mathlib.Data.List.Forall2
import Packrat.Proofs.Grammar.Checked
import Packrat.Proofs.Program.Compiled

/-!
# What expressions become

`Lowers` says which operation of a program stands for an expression of a grammar, in terms of what
the tables of the program say, and `Program.Implements` that this is so for all rules and extras.
Every program of a grammar implements it.
-/

namespace Packrat

/-- Whether an operation takes an expression that is a single terminal for a leaf of some kind. -/
def Program.TakesLeaf (p : Program) (r : Rule) (kind : Kind) (step : Step) : Prop :=
  ∃ terminal number, step = .token terminal number r.isImmediate ∧
    r.terminal? = some (p.terminal terminal) ∧ p.kinds[number]? = some kind

mutual

/-- `Lowers g start p r step` says that an operation of a program stands for an expression of a
grammar with a start rule of some number. A rule that is a single terminal is taken for a leaf
where it is referred to. -/
inductive Lowers (g : Grammar) (start : Nat) (p : Program) : Rule → Step → Prop
  | blank : Lowers g start p .blank .blank
  | leaf {r kind step} (single : r.isLeaf = true) (own : r.leafKind? = some kind)
      (leaf : p.TakesLeaf r kind step) : Lowers g start p r step
  | lexical {name i step} (number : g.number? name = some i)
      (lexical : g.isLexical start i = true)
      (leaf : p.TakesLeaf (g.body i) (g.kindOf start i) step) : Lowers g start p (.symbol name) step
  | symbol {name i} (number : g.number? name = some i) (inner : g.isLexical start i = false) :
      Lowers g start p (.symbol name) (.call i none)
  | seq {rs steps} (members : LowersAll g start p rs steps) :
      Lowers g start p (.seq rs) (.seq steps)
  | choice {rs steps} (members : LowersAll g start p rs steps) :
      Lowers g start p (.choice rs) (.choice steps)
  | repetition {r step min max} (content : Lowers g start p r step) :
      Lowers g start p (.repetition r min max) (.repetition step min max)
  | field {name r step} (content : Lowers g start p r step) :
      Lowers g start p (.field name r) step
  | renamedLexical {r name named target i step} (content : r.unwrapped = .symbol target)
      (number : g.number? target = some i) (lexical : g.isLexical start i = true)
      (leaf : p.TakesLeaf (g.body i) ⟨name, named, .token⟩ step) :
      Lowers g start p (.renamed r name named) step
  | renamedSymbol {r name named target i kind} (content : r.unwrapped = .symbol target)
      (number : g.number? target = some i) (inner : g.isLexical start i = false)
      (kinds : p.kinds[kind]? = some ⟨name, named, .node⟩) :
      Lowers g start p (.renamed r name named) (.call i (some kind))
  | renamedLeaf {r name named step} (single : r.isTerminal = true)
      (leaf : p.TakesLeaf r ⟨name, named, .token⟩ step) :
      Lowers g start p (.renamed r name named) step
  | renamedNode {r name named step kind} (notSymbol : ∀ target, r.unwrapped ≠ .symbol target)
      (compound : r.isTerminal = false) (content : Lowers g start p r step)
      (kinds : p.kinds[kind]? = some ⟨name, named, .node⟩) :
      Lowers g start p (.renamed r name named) (.wrap step kind)

/-- The same for lists. -/
inductive LowersAll (g : Grammar) (start : Nat) (p : Program) : List Rule → List Step → Prop
  | nil : LowersAll g start p [] []
  | cons {r step rs steps} (head : Lowers g start p r step)
      (tail : LowersAll g start p rs steps) : LowersAll g start p (r :: rs) (step :: steps)

end

/-- Whether a program implements a grammar with a start rule of some number. -/
structure Program.Implements (g : Grammar) (start : Nat) (p : Program) : Prop where
  checked : g.Checked start
  start_eq : p.start = start
  error : p.kinds[errorKind]? = some .error
  skipped : p.kinds[skippedKind]? = some .skipped
  /-- No kind has two numbers. -/
  distinct : ∀ (i j : Nat) (kind : Kind), p.kinds[i]? = some kind → p.kinds[j]? = some kind → i = j
  size : p.rules.size = g.rules.length
  kind : ∀ i < g.rules.length, p.kinds[(p.rule i).kind]? = some (g.kindOf start i)
  hidden : ∀ i < g.rules.length, (p.rule i).hidden = g.isHidden (g.ruleName i)
  leaf : ∀ i < g.rules.length, g.isLexical start i = true →
    p.TakesLeaf (g.body i) (g.kindOf start i) (p.rule i).body
  body : ∀ i < g.rules.length, g.isLexical start i = false →
    Lowers g start p (g.body i) (p.rule i).body
  extras : List.Forall₂ (fun e x => p.terminal e.1 = x.1 ∧ p.kinds[e.2]? = some x.2)
    p.extras (g.trivia start)

/-- What stands for an expression stands for it without its wrappers. -/
theorem Lowers.unwrapped {g : Grammar} {start : Nat} {p : Program} {r : Rule} {step : Step}
    (h : Lowers g start p r step) : Lowers g start p r.unwrapped step := by
  fun_induction Rule.unwrapped r with
  | case1 _ _ ih =>
    cases h with
    | leaf single => cases single
    | field content => exact ih content
  | case2 r hr => exact h

/-- What an operation stands for, by its own form: `p.StandsFor g start step r` says what an
expression `r` that has no role with a name looks like if it became `step`. -/
def Program.StandsFor (p : Program) (g : Grammar) (start : Nat) : Step → Rule → Prop
  | .blank, r => r = .blank
  | .token terminal number immediate, r => ∃ source kind, g.TakenAs start r source kind ∧
      p.TakesLeaf source kind (.token terminal number immediate)
  | .call i renamed, r => ∃ kind, g.Refers start r i kind ∧
      match kind with
      | none => renamed = none ∧ (p.rule i).hidden = true
      | some kind => p.kinds[renamed.getD (p.rule i).kind]? = some kind ∧
          ((p.rule i).hidden && renamed.isNone) = false
  | .seq steps, r => ∃ rs, r = .seq rs ∧ LowersAll g start p rs steps
  | .choice steps, r => ∃ rs, r = .choice rs ∧ LowersAll g start p rs steps
  | .repetition step min max, r =>
    ∃ content, r = .repetition content min max ∧ Lowers g start p content step
  | .wrap step number, r => ∃ content name named, r = .renamed content name named ∧
      (∀ target, content.unwrapped ≠ .symbol target) ∧ content.isTerminal = false ∧
      Lowers g start p content step ∧ p.kinds[number]? = some ⟨name, named, .node⟩

/-- A leaf of a terminal stands for what is taken as this terminal. -/
theorem Program.TakesLeaf.standsFor {g : Grammar} {start : Nat} {p : Program} {r source : Rule}
    {kind : Kind} {step : Step} (h : p.TakesLeaf source kind step)
    (htaken : g.TakenAs start r source kind) : p.StandsFor g start step r := by
  obtain ⟨terminal, number, rfl, -, -⟩ := id h
  exact ⟨source, kind, htaken, h⟩

/-- An operation stands for the expression that it became of. -/
theorem Lowers.standsFor {g : Grammar} {start : Nat} {p : Program} {r : Rule} {step : Step}
    (h : Lowers g start p r step) (himplements : p.Implements g start) :
    p.StandsFor g start step r.unwrapped := by
  have hunwrapped := h.unwrapped
  have hrole : ∀ name content, r.unwrapped ≠ .field name content := r.unwrapped_ne_field
  generalize r.unwrapped = r' at hunwrapped hrole
  cases hunwrapped with
  | blank => rfl
  | leaf single own leaf => exact leaf.standsFor (.own single own)
  | lexical number lexical leaf => exact leaf.standsFor (.lexical number lexical)
  | @symbol name i number inner =>
    obtain ⟨hi, hname⟩ := Grammar.of_number? number
    have hhidden := himplements.hidden i hi
    rw [hname] at hhidden
    cases hname : g.isHidden name with
    | true => exact ⟨none, .hidden number inner hname, rfl, hhidden.trans hname⟩
    | false =>
      exact ⟨_, .visible number inner hname, himplements.kind i hi, by simp [hhidden, hname]⟩
  | seq members => exact ⟨_, rfl, members⟩
  | choice members => exact ⟨_, rfl, members⟩
  | repetition content => exact ⟨_, rfl, content⟩
  | field => exact absurd rfl (hrole _ _)
  | renamedLexical content number lexical leaf =>
    exact leaf.standsFor (.renamedLexical content number lexical)
  | renamedSymbol content number inner kinds =>
    exact ⟨_, .renamed content number inner, kinds, by simp⟩
  | renamedLeaf single leaf => exact leaf.standsFor (.renamed single)
  | renamedNode notSymbol compound content kinds =>
    exact ⟨_, _, _, rfl, notSymbol, compound, content, kinds⟩

namespace Tables

/-- Whether every form that was entered has its terminal. -/
structure Faithful (t : Tables) : Prop where
  terminals : ∀ form i, t.forms.number? form = some i → ∃ terminal,
    form.terminal = .ok terminal ∧ t.terminals[i]? = some terminal

/-- The terminals of the tables are still those of their forms when one more mention is entered. -/
theorem Faithful.enter {t t' : Tables} {m : Mention} (h : t.Faithful) (heven : t.Even)
    (henter : t.enter m = .ok t') : t'.Faithful := by
  cases enters_of_enter henter with
  | knownKind => exact h
  | newKind => exact ⟨h.terminals⟩
  | knownTerminal => exact h
  | @newTerminal use terminal new reads =>
    have hsize : t.forms.size = t.terminals.size := heven.symm
    refine ⟨fun form i hi => ?_⟩
    simp only [Numbering.number?_eq_some, Numbering.items_add new, Array.getElem?_push] at hi ⊢
    split at hi
    · rename_i hplace
      cases hi
      exact ⟨terminal, reads, if_pos (hplace.trans hsize)⟩
    · obtain ⟨found, hfound, hplace⟩ := h.terminals form i (Numbering.number?_eq_some.mpr hi)
      obtain ⟨hlt, -⟩ := Array.getElem?_eq_some_iff.mp hplace
      exact ⟨found, hfound, by rw [if_neg (Nat.ne_of_lt hlt), hplace]⟩

/-- The terminals of the tables are still those of their forms when all mentions are entered. -/
theorem Faithful.foldlM {t t' : Tables} {ms : List Mention} (h : t.Faithful) (heven : t.Even)
    (hfold : ms.foldlM Tables.enter t = .ok t') : t'.Faithful := by
  induction ms generalizing t with
  | nil =>
    cases hfold
    exact h
  | cons m ms ih =>
    rw [List.foldlM_cons] at hfold
    obtain ⟨t₁, hm, hrest⟩ := Except.of_bind_ok hfold
    exact ih (h.enter heven hm) (of_enter hm heven).2.2 hrest

end Tables

namespace Analysed

variable {a : Analysed} {t : Tables} {p : Program} {sync : List String}

/-- Whether a program has the tables in which all that is mentioned was entered. -/
structure Reads (t : Tables) (p : Program) : Prop where
  kind : ∀ kind, t.Knows (.kind kind) → p.kinds[t.kindNumber kind]? = some kind
  terminal : ∀ use, t.Knows (.terminal use) →
    use.form.terminal = .ok (p.terminal (t.terminalNumber use))

/-- A program with the kinds and terminals of its tables is read through them. -/
theorem reads_of_tables (hkinds : p.kinds = t.kinds.items) (hterminals : p.terminals = t.terminals)
    (hfaithful : t.Faithful) : Reads t p := by
  constructor
  · rintro kind ⟨i, hi⟩
    rw [Tables.kindNumber, hi, hkinds]
    exact Numbering.number?_eq_some.mp hi
  · rintro use ⟨i, hi, -⟩
    obtain ⟨terminal, hterminal, hplace⟩ := hfaithful.terminals _ _ hi
    simp only [Tables.terminalNumber, hi, Option.getD_some, Program.terminal, hterminals, hplace,
      hterminal]

/-- The operation that a sketch becomes. -/
abbrev Tables.step (t : Tables) (sketch : Sketch) : Step :=
  sketch.map t.terminalNumber t.kindNumber

/-- A leaf of an expression that is a single terminal takes it. -/
theorem takesLeaf_leaf (hreads : Reads t p) {rule : String} {r : Rule} {kind : Kind}
    {kindOf : TerminalForm → Kind} (hterminal : r.isTerminal = true)
    (hkind : ∀ form, r.form? = some form → kindOf form = kind)
    (hknown : ∀ m ∈ (leaf rule r kindOf).mentions, t.Knows m) :
    p.TakesLeaf r kind (Tables.step t (leaf rule r kindOf)) := by
  obtain ⟨form, hform⟩ := Option.isSome_iff_exists.mp (Rule.form?_isSome_of_isTerminal hterminal)
  simp only [leaf, hform, hkind form hform, Op.mentions, List.forall_mem_cons] at hknown ⊢
  exact ⟨_, _, rfl, Rule.terminal?_eq hform (hreads.terminal _ hknown.1),
    hreads.kind _ hknown.2.1⟩

/-- The table of tokens says which rules are tokens of their own. -/
theorem isLexical_eq {start : Nat} (hlexical : a.analysis.lexical = a.grammar.lexicality start)
    (i : Nat) : a.isLexical i = a.grammar.isLexical start i := by
  rw [isLexical, hlexical, Grammar.getD_lexicality]

section

variable {start : Nat} (hlexical : ∀ i, a.isLexical i = a.grammar.isLexical start i)

include hlexical

/-- A rule has the kind that the grammar gives it. -/
theorem ruleKind_eq (i : Nat) : a.ruleKind i = a.grammar.kindOf start i := by
  rw [ruleKind, Grammar.kindOf, hlexical]

/-- A reference to a rule that is no token becomes a call of it. -/
theorem reference_eq_call {name : String} {i : Nat} {renamed : Option (String × Bool)}
    (hnumber : a.grammar.number? name = some i) (hinner : a.grammar.isLexical start i = false) :
    a.reference name renamed = .call i (renamed.map fun r => ⟨r.1, r.2, .node⟩) := by
  simp only [reference, hnumber, hlexical, hinner, Bool.false_eq_true, if_false]

variable (hreads : Reads t p)

include hreads

/-- A reference to a rule that is a single terminal takes it. -/
theorem takesLeaf_reference {name : String} {i : Nat} {renamed : Option (String × Bool)}
    (hnumber : a.grammar.number? name = some i) (hleaf : a.grammar.isLexical start i = true)
    (hknown : ∀ m ∈ (a.reference name renamed).mentions, t.Knows m) :
    p.TakesLeaf (a.grammar.body i)
      (match renamed with
        | some (other, named) => ⟨other, named, .token⟩
        | none => a.grammar.kindOf start i)
      (Tables.step t (a.reference name renamed)) := by
  simp only [reference, hnumber, hlexical, hleaf, if_true] at hknown ⊢
  refine takesLeaf_leaf hreads (Grammar.isTerminal_of_isLexical hleaf) (fun form _ => ?_) hknown
  cases renamed with
  | none => exact ruleKind_eq hlexical i
  | some other => rfl

end

/-- A reference without flaw names a rule. -/
theorem exists_number? {name : String} {inToken : Bool}
    (h : (Rule.symbol name).flaw? a.grammar.defines inToken = none) :
    ∃ i, a.grammar.number? name = some i := by
  simp only [Rule.flaw?] at h
  split at h
  · cases h
  · rename_i hdefined
    simp only [Grammar.defines, Bool.not_eq_true', Bool.not_eq_false] at hdefined
    exact Option.isSome_iff_exists.mp hdefined

mutual

/-- The sketch of an expression becomes what stands for it. -/
theorem lowers_sketch {start : Nat} (hlexical : ∀ i, a.isLexical i = a.grammar.isLexical start i)
    (hreads : Reads t p) (rule : String) : (r : Rule) →
    r.flaw? a.grammar.defines false = none →
    (∀ m ∈ (a.sketch rule r).mentions, t.Knows m) →
    Lowers a.grammar start p r (Tables.step t (a.sketch rule r))
  | .blank, _, _ => .blank
  | .literal text, _, hknown => by
    simp only [sketch] at hknown ⊢
    exact .leaf rfl rfl (takesLeaf_leaf hreads rfl (by rintro form ⟨⟩; rfl) hknown)
  | .pattern source flags, _, hknown => by
    simp only [sketch] at hknown ⊢
    exact .leaf rfl rfl (takesLeaf_leaf hreads rfl (by rintro form ⟨⟩; rfl) hknown)
  | .token content immediate, _, hknown => by
    simp only [sketch] at hknown ⊢
    exact .leaf rfl rfl (takesLeaf_leaf hreads rfl (by rintro form ⟨⟩; rfl) hknown)
  | .symbol name, hflaw, hknown => by
    obtain ⟨i, hnumber⟩ := exists_number? hflaw
    simp only [sketch] at hknown ⊢
    cases hleaf : a.grammar.isLexical start i with
    | true =>
      exact .lexical hnumber hleaf (takesLeaf_reference hlexical hreads hnumber hleaf hknown)
    | false =>
      rw [reference_eq_call hlexical hnumber hleaf]
      exact .symbol hnumber hleaf
  | .seq members, hflaw, hknown => by
    simp only [sketch, Op.mentions, Rule.flaw?] at hflaw hknown ⊢
    exact .seq (lowersAll_sketchAll hlexical hreads rule members
      (Rule.flawAmong?_eq_none.mp hflaw) hknown)
  | .choice members, hflaw, hknown => by
    simp only [sketch, Op.mentions, Rule.flaw?] at hflaw hknown ⊢
    exact .choice (lowersAll_sketchAll hlexical hreads rule members
      (Rule.flawAmong?_eq_none.mp hflaw) hknown)
  | .repetition content min max, hflaw, hknown => by
    simp only [sketch, Op.mentions, Rule.flaw?] at hflaw hknown ⊢
    exact .repetition (lowers_sketch hlexical hreads rule content hflaw hknown)
  | .field name content, hflaw, hknown => by
    simp only [sketch, Rule.flaw?] at hflaw hknown ⊢
    exact .field (lowers_sketch hlexical hreads rule content hflaw hknown)
  | .renamed content name named, hflaw, hknown => by
    simp only [Rule.flaw?] at hflaw
    simp only [sketch] at hknown ⊢
    split at hknown
    · rename_i target hcontent
      rw [← Rule.flaw?_unwrapped, hcontent] at hflaw
      obtain ⟨i, hnumber⟩ := exists_number? hflaw
      cases hleaf : a.grammar.isLexical start i with
      | true =>
        exact .renamedLexical hcontent hnumber hleaf
          (takesLeaf_reference hlexical hreads hnumber hleaf hknown)
      | false =>
        rw [reference_eq_call hlexical hnumber hleaf] at hknown ⊢
        refine .renamedSymbol hcontent hnumber hleaf (hreads.kind _ (hknown _ ?_))
        simp [Op.mentions]
    · rename_i hsymbol
      cases hterminal : content.unwrapped.isTerminal with
      | true =>
        simp only [hterminal, if_true] at hknown ⊢
        have hleaf : p.TakesLeaf content.unwrapped ⟨name, named, .token⟩ _ :=
          takesLeaf_leaf hreads hterminal (fun _ _ => rfl) hknown
        rw [Program.TakesLeaf, Rule.isImmediate_unwrapped, Rule.terminal?_unwrapped] at hleaf
        exact .renamedLeaf (by rwa [Rule.isTerminal_unwrapped] at hterminal) hleaf
      | false =>
        simp only [hterminal, Bool.false_eq_true, if_false, Op.mentions, List.mem_append,
          List.mem_singleton] at hknown ⊢
        exact .renamedNode (fun target htarget => hsymbol target htarget)
          (by rwa [Rule.isTerminal_unwrapped] at hterminal)
          (lowers_sketch hlexical hreads rule content hflaw fun m hm => hknown m (.inl hm))
          (hreads.kind _ (hknown _ (.inr rfl)))

/-- The parts of a rule become operations that stand for them. -/
theorem lowersAll_sketchAll {start : Nat}
    (hlexical : ∀ i, a.isLexical i = a.grammar.isLexical start i) (hreads : Reads t p)
    (rule : String) : (rs : List Rule) →
    (∀ r ∈ rs, r.flaw? a.grammar.defines false = none) →
    (∀ m ∈ Op.mentionsAmong (a.sketchAll rule rs), t.Knows m) →
    LowersAll a.grammar start p rs
      (Op.mapAll t.terminalNumber t.kindNumber (a.sketchAll rule rs))
  | [], _, _ => .nil
  | r :: rs, hflaw, hknown => by
    simp only [sketchAll, Op.mentionsAmong, List.mem_append] at hknown ⊢
    exact .cons
      (lowers_sketch hlexical hreads rule r (hflaw r List.mem_cons_self) fun m hm =>
        hknown m (.inl hm))
      (lowersAll_sketchAll hlexical hreads rule rs (fun r hr => hflaw r (List.mem_cons_of_mem _ hr))
        fun m hm => hknown m (.inr hm))

end

/-- An extra stands in the tables with its terminal and its kind. -/
theorem extra?_eq {start : Nat} (hlexical : ∀ i, a.isLexical i = a.grammar.isLexical start i)
    (hreads : Reads t p) {r : Rule} (hextra : a.grammar.isExtra r = true)
    (hknown : ∀ e, a.extra? r = some e → t.Knows (.terminal e.1) ∧ t.Knows (.kind e.2)) :
    ∃ e, a.extra? r = some e ∧ a.grammar.extra? start r =
      some (p.terminal (t.terminalNumber e.1), e.2) := by
  unfold Grammar.isExtra at hextra
  unfold extra? Grammar.extra?
  unfold extra? at hknown
  split at hextra
  · rename_i name hname
    rw [Grammar.find?_eq] at hextra
    cases hnumber : a.grammar.number? name with
    | none => simp [hnumber] at hextra
    | some i =>
      simp only [hnumber, Option.map_some, Option.getD_some] at hextra
      obtain ⟨form, hform⟩ :=
        Option.isSome_iff_exists.mp (Rule.form?_isSome_of_isTerminal hextra)
      simp only [hname, hnumber, hform, bind, Option.bind_some, pure] at hknown ⊢
      refine ⟨_, rfl, ?_⟩
      rw [Rule.terminal?_eq hform (hreads.terminal _ (hknown _ rfl).1)]
      simp only [Option.bind_some, ruleKind_eq hlexical]
  · rename_i hsymbol
    obtain ⟨form, hform⟩ :=
      Option.isSome_iff_exists.mp (Rule.form?_isSome_of_isTerminal hextra)
    split at hknown
    · rename_i name hname
      exact absurd hname (hsymbol name)
    · simp only [hform, bind, Option.bind_some, pure] at hknown ⊢
      refine ⟨_, rfl, ?_⟩
      rw [Rule.terminal?_eq hform (hreads.terminal _ (hknown _ rfl).1), Rule.leafKind?_eq hform]
      rfl

/-- The numbers of extras stand in the tables for their terminals and kinds, in order. -/
theorem forall₂_extras {start : Nat}
    (hlexical : ∀ i, a.isLexical i = a.grammar.isLexical start i) (hreads : Reads t p)
    {extras : List Rule} (hextras : ∀ r ∈ extras, a.grammar.isExtra r = true)
    (hknown : ∀ r ∈ extras, ∀ e, a.extra? r = some e →
      t.Knows (.terminal e.1) ∧ t.Knows (.kind e.2)) :
    List.Forall₂ (fun e x => p.terminal e.1 = x.1 ∧ p.kinds[e.2]? = some x.2)
      ((extras.filterMap a.extra?).map fun e => (t.terminalNumber e.1, t.kindNumber e.2))
      (extras.filterMap (a.grammar.extra? start)) := by
  induction extras with
  | nil => exact .nil
  | cons r rs ih =>
    rw [List.forall_mem_cons] at hknown hextras
    obtain ⟨e, he, hmeaning⟩ := extra?_eq hlexical hreads hextras.1 hknown.1
    simp only [List.filterMap_cons, he, hmeaning, List.map_cons]
    exact .cons ⟨rfl, hreads.kind _ (hknown.1 e he).2⟩ (ih hextras.2 hknown.2)

/-- A program of an analysed grammar has the tables in which all that is mentioned was entered. -/
theorem exists_tables (h : a.program sync = .ok p) :
    ∃ t, (a.mentions a.sketches sync).foldlM Tables.enter {} = .ok t ∧
      p.kinds = t.kinds.items ∧ p.terminals = t.terminals ∧
      p.rules = (a.sketches.zipIdx.map (a.programRule t)).toArray ∧
      p.extras = (a.grammar.extras.filterMap a.extra?).map (fun e =>
        (t.terminalNumber e.1, t.kindNumber e.2)) ∧ p.start = a.analysis.start := by
  simp only [program] at h
  rw [show (List.range a.grammar.rules.length).map a.ruleSketch = a.sketches from rfl] at h
  obtain ⟨t, ht, h⟩ := Except.of_bind_ok h
  cases h
  exact ⟨t, ht, rfl, rfl, rfl, rfl, rfl⟩

/-- The kinds of errors and of skipped text come first. -/
theorem of_mentions (h : (a.mentions a.sketches sync).foldlM Tables.enter {} = .ok t) :
    t.kinds.items[errorKind]? = some .error ∧ t.kinds.items[skippedKind]? = some .skipped := by
  obtain ⟨t₁, henter₁, hholds₁⟩ := Tables.holds_empty.enter_kind .error (by decide) (by decide)
  obtain ⟨t₂, henter₂, hholds₂⟩ := hholds₁.enter_kind .skipped (by decide) (by decide)
  obtain ⟨ms, hms⟩ : ∃ ms, a.mentions a.sketches sync = .kind .error :: .kind .skipped :: ms :=
    ⟨_, rfl⟩
  simp only [hms, List.foldlM_cons, henter₁, henter₂, bind, Except.bind] at h
  have heven : t₂.Even :=
    (Tables.of_enter henter₂ (Tables.of_enter henter₁ rfl).2.2).2.2
  obtain ⟨hextends, -⟩ := Tables.of_foldlM_enter h heven
  have hnumber : ∀ (i : Nat) (kind : Kind), [Kind.error, .skipped][i]? = some kind →
      t.kinds.items[i]? = some kind := fun i kind hi =>
    Numbering.number?_eq_some.mp (hextends.kinds kind i
      (Numbering.number?_eq_some.mpr (by rw [hholds₂.kinds]; simpa using hi)))
  exact ⟨hnumber 0 _ rfl, hnumber 1 _ rfl⟩

/-- The rules of the program are made of those of the grammar, in order. -/
theorem rule_eq (hrules : p.rules = (a.sketches.zipIdx.map (a.programRule t)).toArray) {i : Nat}
    (hi : i < a.grammar.rules.length) : p.rule i = a.programRule t (a.ruleSketch i, i) := by
  simp [Program.rule, hrules, sketches, hi]

/-- A program of an analysed grammar implements the grammar. -/
theorem implements_of_program {name : Option String}
    (hanalysis : a.grammar.analyze name = .ok a.analysis) (h : a.program sync = .ok p) :
    p.Implements a.grammar a.analysis.start := by
  have hchecked := Grammar.checked_of_analyze hanalysis
  obtain ⟨t, ht, hkinds, hterminals, hrules, hextras, hstart⟩ := exists_tables h
  obtain ⟨-, hknows, -⟩ := Tables.of_foldlM_enter ht rfl
  have hempty : ({} : Tables).Faithful := ⟨by simp [Numbering.number?_eq_some, Numbering.empty]⟩
  have hreads : Reads t p := reads_of_tables hkinds hterminals (hempty.foldlM rfl ht)
  have hlexical : ∀ i, a.isLexical i = a.grammar.isLexical a.analysis.start i :=
    isLexical_eq (congrArg Analysis.lexical (Grammar.accepted_of_analyze hanalysis).analysis)
  obtain ⟨herror, hskipped⟩ := of_mentions ht
  have hsketch : ∀ i < a.grammar.rules.length, ∀ m ∈ (a.ruleSketch i).mentions, t.Knows m :=
    fun i hi m hm => hknows m (mem_mentions_of_sketch
      (List.mem_map.mpr ⟨i, List.mem_range.mpr hi, rfl⟩) hm)
  constructor
  · exact hchecked
  · exact hstart
  · rw [hkinds, herror]
  · rw [hkinds, hskipped]
  · intro i j kind hi hj
    rw [hkinds] at hi hj
    rw [← Numbering.number?_eq_some] at hi hj
    exact Option.some.inj (hi.symm.trans hj)
  · simp [hrules, sketches]
  · intro i hi
    rw [rule_eq hrules hi, programRule, ruleKind_eq hlexical]
    refine hreads.kind _ (hknows _ ?_)
    rw [← ruleKind_eq hlexical]
    exact mem_mentions_of_rule hi
  · intro i hi
    rw [rule_eq hrules hi]
    rfl
  · intro i hi hleaf
    have hmentions := hsketch i hi
    have hterminal := Grammar.isTerminal_of_isLexical hleaf
    rw [rule_eq hrules hi]
    simp only [programRule, ruleSketch, hlexical, hleaf, if_true] at hmentions ⊢
    exact takesLeaf_leaf hreads hterminal (fun _ _ => ruleKind_eq hlexical i) hmentions
  · intro i hi hinner
    have hmentions := hsketch i hi
    rw [rule_eq hrules hi]
    simp only [programRule, ruleSketch, hlexical, hinner, Bool.false_eq_true, if_false]
      at hmentions ⊢
    exact lowers_sketch hlexical hreads _ _ (hchecked.flawless i hi) hmentions
  · have hknown : ∀ r ∈ a.grammar.extras, ∀ e, a.extra? r = some e →
        t.Knows (.terminal e.1) ∧ t.Knows (.kind e.2) := by
      intro r hr e he
      have hextra : e ∈ a.grammar.extras.filterMap a.extra? := List.mem_filterMap.mpr ⟨r, hr, he⟩
      exact (mem_mentions_of_extra hextra).imp (hknows _) (hknows _)
    rw [hextras, Grammar.trivia]
    exact forall₂_extras hlexical hreads (fun r hr => (hchecked.extras r hr).2) hknown

end Analysed

/-- A program of a grammar implements it. -/
theorem Program.CompiledFrom.implements {g : Grammar} {start : Nat} {p : Program}
    (h : p.CompiledFrom g start) : p.Implements g start := by
  obtain ⟨name, analysis, sync, hanalysis, hprogram, rfl⟩ := h.exists_analysis
  exact Analysed.implements_of_program hanalysis hprogram

end Packrat
