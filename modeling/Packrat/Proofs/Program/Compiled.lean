import Packrat.Program.Basic
import Packrat.Program.Lowering
import Packrat.Proofs.Grammar.Checked

/-!
# Programs of one grammar

The tables of a program are filled in the order in which kinds and terminals are met, and what was
entered keeps its number. The tokens to stop at come last, so programs of one grammar with one
start rule differ in them alone.
-/

/-!
## Programs that are alike

Two programs are alike if they have the same rules and extras and these mean the same terminals.
They may stop at different tokens when text is skipped, and have further terminals for them.
-/

namespace Packrat

namespace Op

mutual

/-- Whether all terminals of an operation are among some. -/
def Tokens {τ κ : Type} (among : τ → Prop) : Op τ κ → Prop
  | blank => True
  | token terminal _ _ => among terminal
  | call _ _ => True
  | seq members => TokensAll among members
  | choice members => TokensAll among members
  | repetition body _ _ => body.Tokens among
  | wrap body _ => body.Tokens among

/-- Whether all terminals of some operations are among some. -/
def TokensAll {τ κ : Type} (among : τ → Prop) : List (Op τ κ) → Prop
  | [] => True
  | op :: ops => op.Tokens among ∧ TokensAll among ops

end

end Op

namespace Program

/-- Whether two programs have the same rules and extras and the same terminals in them. -/
structure Alike (g h : Program) : Prop where
  rules : h.rules = g.rules
  extras : h.extras = g.extras
  bodies : ∀ r, (g.rule r).body.Tokens fun t => h.terminal t = g.terminal t
  terminals : ∀ extra ∈ g.extras, h.terminal extra.1 = g.terminal extra.1

/-- Alike programs have the same rule at every number. -/
theorem Alike.rule {g h : Program} (alike : g.Alike h) (r : Nat) : h.rule r = g.rule r := by
  simp only [Program.rule, alike.rules]

end Program

end Packrat

/-! ## Tables and programs -/

namespace Packrat

namespace Numbering

variable {α : Type} [BEq α] [LawfulBEq α] [Hashable α] {n : Numbering α} {a b : α} {i : Nat}

/-- The number of an item is the place at which it stands. -/
theorem number?_eq_some : n.number? a = some i ↔ n.items[i]? = some a :=
  n.numbers_eq a i

/-- An item has no number as long as it has not been entered. -/
theorem number?_eq_none : n.number? a = none ↔ a ∉ n.items := by
  rw [Array.mem_iff_getElem?, Option.eq_none_iff_forall_ne_some]
  simp only [ne_eq, number?_eq_some, not_exists]

/-- A new item comes behind those that are there, so that these keep their numbers. -/
theorem items_add (h : n.number? a = none) : (n.add a).items = n.items.push a := by
  rcases n with ⟨items, numbers, numbers_eq⟩
  simp only [number?] at h
  simp only [add]
  split
  · rename_i hknown
    simp [h] at hknown
  · rfl

/-- A new item gets the next number. -/
theorem number?_add_self (h : n.number? a = none) : (n.add a).number? a = some n.size := by
  rw [number?_eq_some, items_add h]
  exact Array.getElem?_push_size

/-- What was numbered keeps its number. -/
theorem number?_add (h : n.number? a = none) (hb : n.number? b = some i) :
    (n.add a).number? b = some i := by
  rw [number?_eq_some] at hb ⊢
  obtain ⟨hlt, -⟩ := Array.getElem?_eq_some_iff.mp hb
  rw [items_add h, Array.getElem?_push, if_neg (Nat.ne_of_lt hlt), hb]

end Numbering

namespace Tables

/-- Whether all that some tables have stands in others under the same number. -/
structure Extends (t t' : Tables) : Prop where
  kinds : ∀ kind i, t.kinds.number? kind = some i → t'.kinds.number? kind = some i
  forms : ∀ form i, t.forms.number? form = some i → t'.forms.number? form = some i
  terminals : ∀ (i : Nat) terminal, t.terminals[i]? = some terminal →
    t'.terminals[i]? = some terminal

/-- Whether what is mentioned was entered. -/
def Knows (t : Tables) : Mention → Prop
  | .kind kind => ∃ i, t.kinds.number? kind = some i
  | .terminal use => ∃ i, t.forms.number? use.form = some i ∧ ∃ terminal,
      t.terminals[i]? = some terminal

/-- Whether there is a terminal for every form. -/
def Even (t : Tables) : Prop := t.terminals.size = t.forms.size

variable {t t' t'' : Tables} {m : Mention}

/-- Tables extend themselves. -/
theorem Extends.refl (t : Tables) : t.Extends t :=
  ⟨fun _ _ h => h, fun _ _ h => h, fun _ _ h => h⟩

/-- Tables that are extended twice are extended. -/
theorem Extends.trans (h : t.Extends t') (h' : t'.Extends t'') : t.Extends t'' :=
  ⟨fun kind i hi => h'.kinds kind i (h.kinds kind i hi),
    fun form i hi => h'.forms form i (h.forms form i hi),
    fun i terminal hi => h'.terminals i terminal (h.terminals i terminal hi)⟩

/-- What has been entered stays entered. -/
theorem Extends.knows (h : t.Extends t') (hm : t.Knows m) : t'.Knows m := by
  cases m with
  | kind kind =>
    obtain ⟨i, hi⟩ := hm
    exact ⟨i, h.kinds kind i hi⟩
  | terminal use =>
    obtain ⟨i, hi, terminal, hterminal⟩ := hm
    exact ⟨i, h.forms use.form i hi, terminal, h.terminals i terminal hterminal⟩

/-- A kind keeps its number when more is entered. -/
theorem Extends.kindNumber_eq {kind : Kind} (h : t.Extends t') (hkind : t.Knows (.kind kind)) :
    t'.kindNumber kind = t.kindNumber kind := by
  obtain ⟨i, hi⟩ := hkind
  simp only [kindNumber, hi, h.kinds kind i hi]

/-- A terminal keeps its number when more is entered. -/
theorem Extends.terminalNumber_eq {use : TerminalUse} (h : t.Extends t')
    (huse : t.Knows (.terminal use)) : t'.terminalNumber use = t.terminalNumber use := by
  obtain ⟨i, hi, -⟩ := huse
  simp only [terminalNumber, hi, h.forms use.form i hi]

/-- The terminal of what was entered is the same in all tables that extend these. -/
theorem Extends.terminals_eq {use : TerminalUse} (h : t.Extends t')
    (huse : t.Knows (.terminal use)) :
    t'.terminals[t.terminalNumber use]? = t.terminals[t.terminalNumber use]? := by
  obtain ⟨i, hi, terminal, hterminal⟩ := huse
  simp only [terminalNumber, hi, Option.getD_some, hterminal, h.terminals i terminal hterminal]

/-- `t.Enters m t'` says what entering a mention can do: what stands in the tables is left there,
and what does not gets the next number. -/
inductive Enters (t : Tables) : Mention → Tables → Prop
  | knownKind {kind i} (known : t.kinds.number? kind = some i) : Enters t (.kind kind) t
  | newKind {kind} (new : t.kinds.number? kind = none) :
      Enters t (.kind kind) { t with kinds := t.kinds.add kind }
  | knownTerminal {use i} (known : t.forms.number? use.form = some i) : Enters t (.terminal use) t
  | newTerminal {use terminal} (new : t.forms.number? use.form = none)
      (reads : use.form.terminal = .ok terminal) :
      Enters t (.terminal use)
        { t with forms := t.forms.add use.form, terminals := t.terminals.push terminal }

/-- When a mention is entered, one of the four things happens that entering can do. -/
theorem enters_of_enter (h : t.enter m = .ok t') : t.Enters m t' := by
  rcases t with ⟨kinds, forms, terminals⟩
  cases m with
  | kind kind =>
    cases hknown : kinds.number? kind with
    | some i =>
      simp only [enter, hknown, Option.isSome_some, if_true, Except.ok.injEq] at h
      exact h ▸ .knownKind hknown
    | none =>
      simp only [enter, hknown, Option.isSome_none, Bool.false_eq_true, if_false] at h
      split at h <;> cases h
      exact .newKind hknown
  | terminal use =>
    cases hknown : forms.number? use.form with
    | some i =>
      simp only [enter, hknown, Option.isSome_some, if_true, Except.ok.injEq] at h
      exact h ▸ .knownTerminal hknown
    | none =>
      simp only [enter, hknown, Option.isSome_none, Bool.false_eq_true, if_false] at h
      cases hterminal : use.form.terminal with
      | error problem =>
        simp only [hterminal] at h
        split at h <;> cases h
      | ok terminal =>
        simp only [hterminal, Except.ok.injEq] at h
        exact h ▸ .newTerminal hknown hterminal

/-- Entering what is mentioned keeps what was entered. -/
theorem of_enter (h : t.enter m = .ok t') (heven : t.Even) :
    t.Extends t' ∧ t'.Knows m ∧ t'.Even := by
  cases enters_of_enter h with
  | knownKind known => exact ⟨.refl _, ⟨_, known⟩, heven⟩
  | newKind new =>
    exact ⟨⟨fun _ _ hi => Numbering.number?_add new hi, fun _ _ hi => hi, fun _ _ hi => hi⟩,
      ⟨_, Numbering.number?_add_self new⟩, heven⟩
  | @knownTerminal use i known =>
    obtain ⟨hlt, -⟩ := Array.getElem?_eq_some_iff.mp (Numbering.number?_eq_some.mp known)
    have hi : i < t.terminals.size := heven.symm ▸ hlt
    exact ⟨.refl _, ⟨i, known, _, Array.getElem?_eq_getElem hi⟩, heven⟩
  | @newTerminal use terminal new reads =>
    have hsize : t.forms.size = t.terminals.size := heven.symm
    refine ⟨⟨fun _ _ hi => hi, fun _ _ hi => Numbering.number?_add new hi, fun i x hi => ?_⟩,
      ⟨_, Numbering.number?_add_self new, terminal, ?_⟩, ?_⟩
    · obtain ⟨hlt, -⟩ := Array.getElem?_eq_some_iff.mp hi
      simp only [Array.getElem?_push, if_neg (Nat.ne_of_lt hlt), hi]
    · simp only [hsize, Array.getElem?_push_size]
    · simp only [Even, Numbering.size, Numbering.items_add new, Array.size_push]
      exact congrArg (· + 1) heven

/-- Entering all that is mentioned keeps what was entered. -/
theorem of_foldlM_enter {ms : List Mention} (h : ms.foldlM enter t = .ok t') (heven : t.Even) :
    t.Extends t' ∧ (∀ m ∈ ms, t'.Knows m) ∧ t'.Even := by
  induction ms generalizing t with
  | nil =>
    cases h
    exact ⟨.refl _, by simp, heven⟩
  | cons m ms ih =>
    rw [List.foldlM_cons] at h
    obtain ⟨t₁, hm, hrest⟩ := Except.of_bind_ok h
    obtain ⟨hextends, hknows, heven₁⟩ := of_enter hm heven
    obtain ⟨hextends', hknows', heven'⟩ := ih hrest heven₁
    exact ⟨hextends.trans hextends',
      List.forall_mem_cons.mpr ⟨hextends'.knows hknows, hknows'⟩, heven'⟩

/-- What stands in tables, in order. -/
structure Holds (t : Tables) (kinds : List Kind) (forms : List TerminalForm)
    (terminals : List Terminal) : Prop where
  kinds : t.kinds.items = kinds.toArray
  forms : t.forms.items = forms.toArray
  terminals : t.terminals = terminals.toArray

/-- At the start nothing stands in the tables. -/
theorem holds_empty : ({} : Tables).Holds [] [] [] := ⟨rfl, rfl, rfl⟩

namespace Holds

variable {kinds : List Kind} {forms : List TerminalForm} {terminals : List Terminal}
  (h : t.Holds kinds forms terminals)

include h

/-- A new kind comes behind the others. -/
theorem enter_kind (kind : Kind) (hnew : kind ∉ kinds) (hroom : kinds.length < kindLimit) :
    ∃ t', t.enter (.kind kind) = .ok t' ∧ t'.Holds (kinds ++ [kind]) forms terminals := by
  have hnone : t.kinds.number? kind = none :=
    Numbering.number?_eq_none.mpr (by simpa [h.kinds] using hnew)
  have hsize : t.kinds.size < kindLimit := by simpa [Numbering.size, h.kinds] using hroom
  refine ⟨{ t with kinds := t.kinds.add kind }, ?_, ?_, h.forms, h.terminals⟩
  · simp only [enter, hnone, Option.isSome_none, Bool.false_eq_true, if_false]
    exact if_pos hsize
  · simp only [Numbering.items_add hnone, h.kinds, List.push_toArray]

/-- The terminal of a new literal comes behind the others. -/
theorem enter_literal (rule text : String) (hnew : .literal text ∉ forms) :
    ∃ t', t.enter (.terminal ⟨rule, .literal text⟩) = .ok t' ∧
      t'.Holds kinds (forms ++ [.literal text]) (terminals ++ [.literal text]) := by
  have hnone : t.forms.number? (.literal text) = none :=
    Numbering.number?_eq_none.mpr (by simpa [h.forms] using hnew)
  refine ⟨{ t with
    forms := t.forms.add (.literal text)
    terminals := t.terminals.push (.literal text) }, ?_, h.kinds, ?_, ?_⟩
  · simp only [enter, hnone, Option.isSome_none, Bool.false_eq_true, if_false,
      TerminalForm.terminal]
  · simp only [Numbering.items_add hnone, h.forms, List.push_toArray]
  · simp only [h.terminals, List.push_toArray]

/-- A kind has the number of its place among the kinds. -/
theorem kindNumber_eq (kind : Kind) (i : Nat) (hi : kinds[i]? = some kind) :
    t.kindNumber kind = i := by
  rw [kindNumber, Numbering.number?_eq_some.mpr (by rw [h.kinds, List.getElem?_toArray, hi])]
  rfl

/-- A terminal has the number of the place of its form among the forms. -/
theorem terminalNumber_eq (use : TerminalUse) (i : Nat) (hi : forms[i]? = some use.form) :
    t.terminalNumber use = i := by
  rw [terminalNumber, Numbering.number?_eq_some.mpr (by rw [h.forms, List.getElem?_toArray, hi])]
  rfl

end Holds

end Tables

namespace Op

variable {f f' : TerminalUse → Nat} {k k' : Kind → Nat}

mutual

/-- The operation of a sketch depends on the numbers of what it mentions alone. -/
theorem map_congr : (op : Sketch) →
    (∀ use, .terminal use ∈ op.mentions → f' use = f use) →
    (∀ kind, .kind kind ∈ op.mentions → k' kind = k kind) → op.map f' k' = op.map f k
  | blank, _, _ => rfl
  | token use kind immediate, hf, hk => by
    simp only [map, hf use (by simp [mentions]), hk kind (by simp [mentions])]
  | call rule none, _, _ => rfl
  | call rule (some kind), _, hk => by
    simp only [map, Option.map_some, hk kind (by simp [mentions])]
  | seq members, hf, hk => congrArg seq (mapAll_congr members hf hk)
  | choice members, hf, hk => congrArg choice (mapAll_congr members hf hk)
  | repetition body min max, hf, hk => by
    simp only [map, map_congr body hf hk]
  | wrap body kind, hf, hk => by
    simp only [map, hk kind (by simp [mentions]),
      map_congr body (fun use huse => hf use (List.mem_append_left _ huse))
        fun kind hkind => hk kind (List.mem_append_left _ hkind)]

/-- Operations come out the same under numberings that agree on what they mention. -/
theorem mapAll_congr : (ops : List Sketch) →
    (∀ use, .terminal use ∈ mentionsAmong ops → f' use = f use) →
    (∀ kind, .kind kind ∈ mentionsAmong ops → k' kind = k kind) → mapAll f' k' ops = mapAll f k ops
  | [], _, _ => rfl
  | op :: ops, hf, hk => by
    simp only [mapAll,
      map_congr op (fun use huse => hf use (List.mem_append_left _ huse))
        fun kind hkind => hk kind (List.mem_append_left _ hkind),
      mapAll_congr ops (fun use huse => hf use (List.mem_append_right _ huse))
        fun kind hkind => hk kind (List.mem_append_right _ hkind)]

end

mutual

/-- The terminals of the operation of a sketch are those that it mentions. -/
theorem tokens_map {among : Nat → Prop} : (op : Sketch) →
    (∀ use, .terminal use ∈ op.mentions → among (f use)) → (op.map f k).Tokens among
  | blank, _ => trivial
  | token use _ _, h => h use (by simp [mentions])
  | call _ _, _ => trivial
  | seq members, h => tokensAll_mapAll members h
  | choice members, h => tokensAll_mapAll members h
  | repetition body _ _, h => tokens_map body h
  | wrap body _, h => tokens_map body fun use huse => h use (List.mem_append_left _ huse)

/-- The terminals of numbered operations are among the numbers of those that were mentioned. -/
theorem tokensAll_mapAll {among : Nat → Prop} : (ops : List Sketch) →
    (∀ use, .terminal use ∈ mentionsAmong ops → among (f use)) →
    TokensAll among (mapAll f k ops)
  | [], _ => trivial
  | op :: ops, h =>
    ⟨tokens_map op fun use huse => h use (List.mem_append_left _ huse),
      tokensAll_mapAll ops fun use huse => h use (List.mem_append_right _ huse)⟩

end

end Op

namespace Analysed

variable {a : Analysed} {sync sync' : List String} {g h : Program}

/-- The sketches of all rules. -/
def sketches (a : Analysed) : List Sketch :=
  (List.range a.grammar.rules.length).map a.ruleSketch

/-- The kind of every rule is mentioned. -/
theorem mem_mentions_of_rule {i : Nat} (hi : i < a.grammar.rules.length) :
    .kind (a.ruleKind i) ∈ a.mentions a.sketches sync := by
  have hrules : Mention.kind (a.ruleKind i) ∈
      (List.range a.grammar.rules.length).map fun i => .kind (a.ruleKind i) :=
    List.mem_map.mpr ⟨i, List.mem_range.mpr hi, rfl⟩
  simp only [mentions, List.mem_append]
  exact .inl (.inl (.inl (.inr hrules)))

/-- What is mentioned in the body of a rule is mentioned in the program. -/
theorem mem_mentions_of_sketch {sketch : Sketch} {m : Mention} (hsketch : sketch ∈ a.sketches)
    (hm : m ∈ sketch.mentions) : m ∈ a.mentions a.sketches sync := by
  simp only [mentions, List.mem_append]
  exact .inl (.inl (.inr (List.mem_flatMap.mpr ⟨sketch, hsketch, hm⟩)))

/-- Extras and their kinds are mentioned. -/
theorem mem_mentions_of_extra {extra : TerminalUse × Kind}
    (hextra : extra ∈ a.grammar.extras.filterMap a.extra?) :
    .terminal extra.1 ∈ a.mentions a.sketches sync ∧
      .kind extra.2 ∈ a.mentions a.sketches sync := by
  simp only [mentions, List.mem_append]
  exact ⟨.inl (.inr (List.mem_flatMap.mpr ⟨extra, hextra, by simp⟩)),
    .inl (.inr (List.mem_flatMap.mpr ⟨extra, hextra, by simp⟩))⟩

/-- The tokens to stop at are mentioned. -/
theorem mem_mentions_of_sync {name : String} (hname : name ∈ sync) :
    .terminal (a.syncUse name) ∈ a.mentions a.sketches sync := by
  rw [mentions]
  exact List.mem_append_right _ (List.mem_map_of_mem hname)

/-- The program of an analysed grammar over tables in which all that is mentioned was entered. -/
def programOver (a : Analysed) (sync : List String) (t : Tables) : Program where
  name := a.grammar.name
  kinds := t.kinds.items
  rules := (a.sketches.zipIdx.map (a.programRule t)).toArray
  terminals := t.terminals
  extras := (a.grammar.extras.filterMap a.extra?).map fun e =>
    (t.terminalNumber e.1, t.kindNumber e.2)
  sync := sync.map fun name => t.terminalNumber (a.syncUse name)
  start := a.analysis.start
  fingerprint := a.fingerprint

/-- A program is made by entering all mentions in order and reading the numbers off the tables. -/
theorem program_eq_bind (a : Analysed) (sync : List String) : a.program sync =
    (a.mentions a.sketches sync).foldlM Tables.enter {} >>= fun t =>
      .ok (a.programOver sync t) := rfl

/-- A rule is the same over all tables that extend those in which its mentions were entered. -/
theorem programRule_eq {t t' : Tables} {sketch : Sketch × Nat} (hextends : t.Extends t')
    (hknows : ∀ m ∈ a.mentions a.sketches sync, t.Knows m) (hsketch : sketch ∈ a.sketches.zipIdx) :
    a.programRule t' sketch = a.programRule t sketch := by
  obtain ⟨-, hindex, hmem⟩ := List.mem_zipIdx hsketch
  simp only [Nat.zero_add, Nat.sub_zero] at hindex hmem
  have hmember : sketch.1 ∈ a.sketches := hmem ▸ List.getElem_mem _
  have hrule : sketch.2 < a.grammar.rules.length := by
    simpa [sketches] using hindex
  have hbody := Op.map_congr sketch.1
    (fun use huse => hextends.terminalNumber_eq (hknows _ (mem_mentions_of_sketch hmember huse)))
    (fun kind hkind => hextends.kindNumber_eq (hknows _ (mem_mentions_of_sketch hmember hkind)))
  simp only [programRule, hbody, hextends.kindNumber_eq (hknows _ (mem_mentions_of_rule hrule))]

/-- What a program of an analysed grammar takes over from the tables for its rules and extras. -/
structure Tabled (a : Analysed) (t : Tables) (p : Program) : Prop where
  rules : p.rules = (a.sketches.zipIdx.map (a.programRule t)).toArray
  extras : p.extras = (a.grammar.extras.filterMap a.extra?).map fun e =>
    (t.terminalNumber e.1, t.kindNumber e.2)
  terminal : ∀ use, .terminal use ∈ a.mentions a.sketches [] →
    p.terminals[t.terminalNumber use]? = t.terminals[t.terminalNumber use]?
  start : p.start = a.analysis.start

/-- A program is made from the tables for the rules and extras, whatever the tokens to stop at. -/
theorem of_program (h : a.program sync = .ok g) :
    ∃ t, (a.mentions a.sketches []).foldlM Tables.enter {} = .ok t ∧ a.Tabled t g := by
  have hmentions : a.mentions a.sketches sync =
      a.mentions a.sketches [] ++ sync.map fun name => .terminal (a.syncUse name) := by
    simp [mentions]
  simp only [program] at h
  rw [show (List.range a.grammar.rules.length).map a.ruleSketch = a.sketches from rfl,
    hmentions, List.foldlM_append] at h
  obtain ⟨t', hentered, h⟩ := Except.of_bind_ok h
  obtain ⟨t, ht, ht'⟩ := Except.of_bind_ok hentered
  cases h
  obtain ⟨-, hknows, heven⟩ := Tables.of_foldlM_enter ht rfl
  obtain ⟨hextends, -⟩ := Tables.of_foldlM_enter ht' heven
  refine ⟨t, ht, ⟨?_, ?_, fun use huse => ?_, rfl⟩⟩
  · exact congrArg List.toArray
      (List.map_congr_left fun sketch hsketch => programRule_eq hextends hknows hsketch)
  · refine List.map_congr_left fun extra hextra => ?_
    obtain ⟨hterminal, hkind⟩ := mem_mentions_of_extra hextra
    rw [hextends.terminalNumber_eq (hknows _ hterminal), hextends.kindNumber_eq (hknows _ hkind)]
  · exact hextends.terminals_eq (hknows _ huse)

/-- Programs of one analysed grammar are alike, whatever the tokens to stop at. -/
theorem alike_of_program (hg : a.program sync = .ok g) (hh : a.program sync' = .ok h) :
    g.Alike h := by
  obtain ⟨t, ht, hg⟩ := of_program hg
  obtain ⟨t', ht', hh⟩ := of_program hh
  obtain rfl : t = t' := Except.ok.inj (ht.symm.trans ht')
  have hterminal : ∀ use, .terminal use ∈ a.mentions a.sketches [] →
      h.terminal (t.terminalNumber use) = g.terminal (t.terminalNumber use) := by
    intro use huse
    simp only [Program.terminal, hg.terminal use huse, hh.terminal use huse]
  refine ⟨hh.rules.trans hg.rules.symm, hh.extras.trans hg.extras.symm, fun r => ?_, ?_⟩
  · cases hrule : g.rules[r]? with
    | none =>
      rw [Program.rule, hrule]
      trivial
    | some rule =>
      rw [Program.rule, hrule, Option.getD_some]
      rw [hg.rules, List.getElem?_toArray, List.getElem?_map] at hrule
      obtain ⟨sketch, hsketch, rfl⟩ := Option.map_eq_some_iff.mp hrule
      obtain ⟨-, -, hmem⟩ := List.mem_zipIdx (List.mem_of_getElem? hsketch)
      have hmember : sketch.1 ∈ a.sketches := hmem ▸ List.getElem_mem _
      exact Op.tokens_map sketch.1 fun use huse =>
        hterminal use (mem_mentions_of_sketch hmember huse)
  · rw [hg.extras]
    intro extra hextra
    obtain ⟨e, he, rfl⟩ := List.mem_map.mp hextra
    exact hterminal e.1 (mem_mentions_of_extra he).1

end Analysed

namespace Grammar

variable {grammar : Grammar} {name name' : Option String} {a b : Analysis}

/-- The analysis of a grammar depends on the number of its start rule alone. -/
theorem analyze_eq (ha : grammar.analyze name = .ok a) (hb : grammar.analyze name' = .ok b)
    (hstart : b.start = a.start) : b = a := by
  rw [(accepted_of_analyze ha).analysis, (accepted_of_analyze hb).analysis, hstart]

end Grammar

/-- Whether a program is one of a grammar with the start rule of some number, whatever the tokens
to stop at. -/
def Program.CompiledFrom (grammar : Grammar) (start : Nat) (p : Program) : Prop :=
  ∃ c warnings, Compiler.compile c grammar = .ok (p, warnings) ∧ p.start = start

namespace Program.CompiledFrom

variable {grammar : Grammar} {start : Nat} {g h : Program}

/-- A program is one of an analysis. -/
theorem exists_analysis (hg : CompiledFrom grammar start g) :
    ∃ name analysis sync, grammar.analyze name = .ok analysis ∧
      Analysed.program ⟨grammar, analysis⟩ sync = .ok g ∧ analysis.start = start := by
  obtain ⟨c, warnings, hcompile, rfl⟩ := hg
  obtain ⟨analysis, hanalysis, hcompile⟩ := Except.of_bind_ok hcompile
  obtain ⟨p, hprogram, hcompile⟩ := Except.of_bind_ok hcompile
  cases hcompile
  obtain ⟨_, -, htabled⟩ := Analysed.of_program hprogram
  exact ⟨c.start, analysis, c.sync, hanalysis, hprogram, htabled.start.symm⟩

/-- Programs of one grammar with one start rule are alike. -/
theorem alike (hg : CompiledFrom grammar start g) (hh : CompiledFrom grammar start h) :
    g.Alike h := by
  obtain ⟨name, analysis, sync, hanalysis, hprogram, hstart⟩ := hg.exists_analysis
  obtain ⟨name', analysis', sync', hanalysis', hprogram', hstart'⟩ := hh.exists_analysis
  obtain rfl := Grammar.analyze_eq hanalysis hanalysis' (hstart'.trans hstart.symm)
  exact Analysed.alike_of_program hprogram hprogram'

end Program.CompiledFrom

/-- A grammar for any number of one letter, analysed. -/
def Analysed.letters : Analysed where
  grammar := { name := "letters", rules := [("letters", .repetition (.literal "a") 0 none)] }
  analysis :=
    { start := 0, nullable := [true], lexical := [false], reachable := [true], warnings := [] }

/-- The program of this grammar. -/
def Program.letters : Program where
  name := "letters"
  kinds := #[.error, .skipped, ⟨"letters", true, .node⟩, ⟨"a", false, .token⟩]
  rules := #[⟨"letters", 2, .repetition (.token 0 3 false) 0 none, true, false, false⟩]
  terminals := #[.literal "a"]
  extras := []
  sync := []
  start := 0
  fingerprint := Analysed.letters.fingerprint

/-- The grammar of letters has the program of letters. -/
theorem Analysed.program_letters : letters.program [] = .ok .letters := by
  obtain ⟨t₁, enter₁, holds₁⟩ := Tables.holds_empty.enter_kind .error (by decide) (by decide)
  obtain ⟨t₂, enter₂, holds₂⟩ := holds₁.enter_kind .skipped (by decide) (by decide)
  obtain ⟨t₃, enter₃, holds₃⟩ :=
    holds₂.enter_kind ⟨"letters", true, .node⟩ (by decide) (by decide)
  obtain ⟨t₄, enter₄, holds₄⟩ := holds₃.enter_literal "letters" "a" (by decide)
  obtain ⟨t₅, enter₅, holds₅⟩ := holds₄.enter_kind ⟨"a", false, .token⟩ (by decide) (by decide)
  have hentered : (letters.mentions letters.sketches []).foldlM Tables.enter {} = .ok t₅ := by
    change [Mention.kind .error, .kind .skipped, .kind ⟨"letters", true, .node⟩,
      .terminal ⟨"letters", .literal "a"⟩, .kind ⟨"a", false, .token⟩].foldlM Tables.enter {} = _
    simp only [List.foldlM_cons, List.foldlM_nil, enter₁, enter₂, enter₃, enter₄, enter₅, bind,
      Except.bind, pure, Except.pure]
  have hrules : letters.sketches.zipIdx.map (letters.programRule t₅) =
      Program.letters.rules.toList := by
    change [(⟨"letters", t₅.kindNumber ⟨"letters", true, .node⟩,
      .repetition (.token (t₅.terminalNumber ⟨"letters", .literal "a"⟩)
        (t₅.kindNumber ⟨"a", false, .token⟩) false) 0 none, true, false, false⟩ : ProgramRule)] = _
    rw [holds₅.kindNumber_eq ⟨"letters", true, .node⟩ 2 rfl,
      holds₅.kindNumber_eq ⟨"a", false, .token⟩ 3 rfl,
      holds₅.terminalNumber_eq ⟨"letters", .literal "a"⟩ 0 rfl]
    rfl
  unfold program
  rw [show (List.range letters.grammar.rules.length).map letters.ruleSketch = letters.sketches
    from rfl]
  simp only [hentered, hrules, holds₅.kinds, holds₅.terminals, bind, Except.bind, pure,
    Except.pure]
  rfl

/-- The program of letters is one that the compiler makes of a grammar. -/
theorem Program.letters_compiledFrom : letters.CompiledFrom Analysed.letters.grammar 0 := by
  refine ⟨{}, [], ?_, rfl⟩
  have hanalysis : Analysed.letters.grammar.analyze none = .ok Analysed.letters.analysis := rfl
  have hprogram : Analysed.program ⟨Analysed.letters.grammar, Analysed.letters.analysis⟩ [] =
    .ok .letters := Analysed.program_letters
  simp only [Compiler.compile, hanalysis, hprogram, bind, Except.bind, pure, Except.pure]
  rfl

end Packrat
