import Packrat.Proofs.Guarded.Analysis
import Packrat.Proofs.Program.Kinds
import Packrat.Proofs.Program.Lowered

/-!
# The guarded way from grammars to programs

What an analysis has checked is what the way to a program relies on: references name rules, the
content of tokens refers to none, and extras are single terminals. Numbers of rules fit into 32 bits
because every rule has a kind of its own, and there are not that many kinds. Numbers of operations
and of terminals have no bound here.
-/

namespace Packrat

namespace Guarded

mutual

/-- `Rule.regexSource` for an expression without references. -/
def regexSource : Rule → Guarded String
  | .blank => return ""
  | .literal text => return escapedForRegex text
  | .pattern source flags => return regexWithFlags source flags
  | .symbol _ => .error .symbolInToken
  | .seq members => seqSource members
  | .choice members => return regexGroup (String.intercalate "|" (← sources members))
  | .repetition content min max =>
    return regexGroup (← regexSource content) ++ repetitionMark min max
  | .token content _ => regexSource content
  | .renamed content _ _ => regexSource content
  | .field _ content => regexSource content

/-- `Rule.sources` for expressions without references. -/
def sources : List Rule → Guarded (List String)
  | [] => return []
  | r :: rs => return (← regexSource r) :: (← sources rs)

/-- `Rule.seqSource` for expressions without references. -/
def seqSource : List Rule → Guarded String
  | [] => return ""
  | r :: rs => do
    let source ← regexSource r
    return (if r.isChoice then source else regexGroup source) ++ (← seqSource rs)

end

/-- The form of a single terminal. -/
def form (r : Rule) : Guarded TerminalForm :=
  match r.unwrapped with
  | .literal text => return .literal text
  | .pattern source flags => return .pattern source flags
  | .token content _ =>
    match content.unwrapped with
    | .literal text => return .literal text
    | .pattern source flags => return .pattern source flags
    | inner => return .pattern (← regexSource inner) none
  | _ => .error .notLexical

/-- `Analysed.leaf` for a single terminal. -/
def leaf (rule : String) (r : Rule) (kind : TerminalForm → Kind) : Guarded Sketch := do
  let form ← form r
  return .token ⟨rule, form⟩ (kind form) r.isImmediate

/-- The number of a rule in 32 bits. -/
def ruleId (i : Nat) : Guarded Nat := if i < UInt32.size then return i else .error .overflow

section

variable (a : Analysed)

/-- The kinds of all rules. -/
def ruleKinds : Guarded (List Kind) :=
  a.grammar.rules.zipIdx.mapM fun rule => do
    let role := if ← fetch a.analysis.lexical rule.2 then Role.token else .node
    return ⟨rule.1.1, true, role⟩

variable (kinds : List Kind)

/-- `Analysed.reference` with its look-ups guarded, given the kinds of all rules. -/
def reference (name : String) (renamed : Option (String × Bool)) : Guarded Sketch := do
  let i ← demand .unresolved (a.grammar.number? name)
  if ← fetch a.analysis.lexical i then
    let rule ← fetch a.grammar.rules i
    let kind ← fetch kinds i
    leaf name rule.2 fun _ =>
      match renamed with
      | some (other, named) => ⟨other, named, .token⟩
      | none => kind
  else return .call (← ruleId i) (renamed.map fun r => ⟨r.1, r.2, .node⟩)

mutual

/-- `Analysed.sketch` with its look-ups guarded. -/
def sketch (rule : String) : Rule → Guarded Sketch
  | .blank => return .blank
  | .literal text => leaf rule (.literal text) TerminalForm.kind
  | .pattern source flags => leaf rule (.pattern source flags) TerminalForm.kind
  | .token content immediate => leaf rule (.token content immediate) TerminalForm.kind
  | .symbol name => reference a kinds name none
  | .seq members => return .seq (← sketchAll rule members)
  | .choice members => return .choice (← sketchAll rule members)
  | .repetition content min max => return .repetition (← sketch rule content) min max
  | .field _ content => sketch rule content
  | .renamed content name named =>
    match content.unwrapped with
    | .symbol target => reference a kinds target (some (name, named))
    | inner =>
      if inner.isTerminal then leaf rule inner fun _ => ⟨name, named, .token⟩
      else return .wrap (← sketch rule content) ⟨name, named, .node⟩

/-- `Analysed.sketchAll` with its look-ups guarded. -/
def sketchAll (rule : String) : List Rule → Guarded (List Sketch)
  | [] => return []
  | r :: rs => return (← sketch rule r) :: (← sketchAll rule rs)

end

/-- `Analysed.ruleSketch` with its look-ups guarded. -/
def ruleSketch (rule : (String × Rule) × Nat) : Guarded Sketch := do
  let kind ← fetch kinds rule.2
  if ← fetch a.analysis.lexical rule.2 then leaf rule.1.1 rule.1.2 fun _ => kind
  else sketch a kinds rule.1.1 rule.1.2

/-- The terminal and the kind of an extra. -/
def extra (r : Rule) : Guarded (TerminalUse × Kind) :=
  match r.unwrapped with
  | .symbol name => do
    let i ← demand .unresolved (a.grammar.number? name)
    let form ← form (← fetch a.grammar.rules i).2
    return (⟨name, form⟩, ← fetch kinds i)
  | inner => do
    let form ← form inner
    return (⟨Grammar.extrasName, form⟩, form.kind)

/-- `Analysed.syncUse` with its look-ups guarded. -/
def syncUse (name : String) : Guarded TerminalUse :=
  match a.grammar.number? name with
  | none => return ⟨name, .literal name⟩
  | some i => do
    if ← fetch a.analysis.lexical i then
      let _ ← fetch kinds i
      return ⟨name, ← form (← fetch a.grammar.rules i).2⟩
    else return ⟨name, .literal name⟩

end

/-- The number of what was entered. -/
def numberOf {α : Type} [BEq α] [LawfulBEq α] [Hashable α] (n : Numbering α) (item : α) :
    Guarded Nat :=
  demand .noEntry (n.number? item)

section

variable (t : Tables)

mutual

/-- The operation of a sketch over tables. -/
def numbered : Sketch → Guarded Step
  | .blank => return .blank
  | .token use kind immediate =>
    return .token (← numberOf t.forms use.form) (← numberOf t.kinds kind) immediate
  | .call rule none => return .call rule none
  | .call rule (some kind) => return .call rule (some (← numberOf t.kinds kind))
  | .seq members => return .seq (← numberedAll members)
  | .choice members => return .choice (← numberedAll members)
  | .repetition body min max => return .repetition (← numbered body) min max
  | .wrap body kind => return .wrap (← numbered body) (← numberOf t.kinds kind)

/-- The operations of some sketches over tables. -/
def numberedAll : List Sketch → Guarded (List Step)
  | [] => return []
  | op :: ops => return (← numbered op) :: (← numberedAll ops)

end

/-- `Analysed.programRule` with its look-ups guarded. -/
def programRule (a : Analysed) (kinds : List Kind) (sketch : Sketch × Nat) :
    Guarded ProgramRule := do
  let rule ← fetch a.grammar.rules sketch.2
  return {
    name := rule.1
    kind := ← numberOf t.kinds (← fetch kinds sketch.2)
    body := ← numbered t sketch.1
    nullable := ← fetch a.analysis.nullable sketch.2
    hidden := a.grammar.isHidden rule.1
    lexical := ← fetch a.analysis.lexical sketch.2 }

/-- The numbers of the terminal and the kind of an extra. The kind is marked in its table. -/
def extraNumbers (extra : TerminalUse × Kind) : Guarded (Nat × Nat) := do
  let terminal ← numberOf t.forms extra.1.form
  let kind ← numberOf t.kinds extra.2
  let _ ← fetch t.kinds.items.toList kind
  return (terminal, kind)

end

/-- What becomes of the rules, the extras and the tokens to stop at before anything of it is
entered. -/
structure Parts where
  sketches : List Sketch
  extras : List (TerminalUse × Kind)
  sync : List TerminalUse

/-- What these parts mention, in order. -/
def Parts.mentions (parts : Parts) : List Mention :=
  parts.sketches.flatMap Op.mentions ++
    parts.extras.flatMap (fun e => [.terminal e.1, .kind e.2]) ++ parts.sync.map .terminal

/-- The parts of a program, given the kinds of all rules. -/
def parts (a : Analysed) (kinds : List Kind) (sync : List String) : Guarded Parts :=
  return {
    sketches := ← a.grammar.rules.zipIdx.mapM (ruleSketch a kinds)
    extras := ← a.grammar.extras.mapM (extra a kinds)
    sync := ← sync.mapM (syncUse a kinds) }

/-- The program of some parts over tables. -/
def assemble (t : Tables) (a : Analysed) (kinds : List Kind) (parts : Parts) :
    Guarded Program := do
  let rules ← parts.sketches.zipIdx.mapM (programRule t a kinds)
  let start ← fetch a.grammar.rules a.analysis.start
  return {
    name := a.grammar.name
    kinds := t.kinds.items
    rules := rules.toArray
    terminals := t.terminals
    extras := ← parts.extras.mapM (extraNumbers t)
    sync := ← parts.sync.mapM fun use => numberOf t.forms use.form
    start := ← ruleId a.analysis.start
    fingerprint := crc32 (a.grammar.encode ++ start.1.toUTF8.data.toList) }

/-- `Analysed.program` with its look-ups guarded. The kinds of the rules are entered before
anything else is made of these. -/
def program (a : Analysed) (sync : List String) : Failing GrammarError Program := do
  let kinds ← ruleKinds a
  let t ← lift ((.kind .error :: .kind .skipped :: kinds.map Mention.kind).foldlM Tables.enter {})
  let parts ← parts a kinds sync
  let t ← lift (parts.mentions.foldlM Tables.enter t)
  assemble t a kinds parts

/-- `Compiler.compile` with its look-ups guarded. -/
def compile (c : Compiler) (g : Grammar) :
    Failing GrammarError (Program × List GrammarWarning) := do
  let analysis ← analyze g c.start
  let program ← program ⟨g, analysis⟩ c.sync
  return (program, analysis.warnings)

end Guarded

namespace Rule

variable {defined : String → Bool}

mutual

/-- The content of a token without flaws has a source text. -/
theorem regexSource_guarded : (r : Rule) → r.flaw? defined true = none →
    Guarded.regexSource r = .ok r.regexSource
  | blank, _ => rfl
  | literal _, _ => rfl
  | pattern _ _, _ => rfl
  | symbol name, h => by
    rw [flaw?] at h
    split at h <;> cases h
  | seq members, h => seqSource_guarded members (flawAmong?_eq_none.mp h)
  | choice members, h => by
    rw [Guarded.regexSource, sources_guarded members (flawAmong?_eq_none.mp h)]
    rfl
  | repetition content _ _, h => by
    rw [Guarded.regexSource, regexSource_guarded content h]
    rfl
  | token content _, h => regexSource_guarded content h
  | renamed content _ _, h => regexSource_guarded content h
  | field _ content, h => regexSource_guarded content h

/-- The sources of parts of a token are made without meeting a reference. -/
theorem sources_guarded : (rs : List Rule) → (∀ r ∈ rs, r.flaw? defined true = none) →
    Guarded.sources rs = .ok (sources rs)
  | [], _ => rfl
  | r :: rs, h => by
    rw [List.forall_mem_cons] at h
    rw [Guarded.sources, regexSource_guarded r h.1, sources_guarded rs h.2]
    rfl

/-- The source of a sequence in a token is made without meeting a reference. -/
theorem seqSource_guarded : (rs : List Rule) → (∀ r ∈ rs, r.flaw? defined true = none) →
    Guarded.seqSource rs = .ok (seqSource rs)
  | [], _ => rfl
  | r :: rs, h => by
    rw [List.forall_mem_cons] at h
    rw [Guarded.seqSource, regexSource_guarded r h.1, seqSource_guarded rs h.2, seqSource]
    rfl

end

/-- A single terminal without flaws has a form. -/
theorem form_guarded {inToken : Bool} {r : Rule} (h : r.flaw? defined inToken = none) :
    Guarded.form r = Guarded.demand .notLexical r.form? := by
  rw [← flaw?_unwrapped] at h
  unfold Guarded.form form? simpleForm?
  cases hr : r.unwrapped with
  | token content immediate =>
    rw [hr, flaw?, ← flaw?_unwrapped] at h
    have hsource := regexSource_guarded _ h
    clear h
    dsimp only
    generalize content.unwrapped = inner at hsource ⊢
    cases inner <;> first | rfl | (simp only [hsource]; rfl)
  | _ => rfl

-- Without the checks of an analysis there are faults to meet.
example : Guarded.form (.token (.symbol "digits") false) = .error .symbolInToken := rfl

example : Guarded.form (.seq []) = .error .notLexical := rfl

end Rule

namespace Analysed

variable {a : Analysed}

/-- What the way to a program relies on. -/
structure Sound (a : Analysed) : Prop where
  checked : a.grammar.Checked a.analysis.start
  names : (a.grammar.rules.map (·.1)).Nodup
  nullable : a.analysis.nullable.length = a.grammar.rules.length
  lexical : a.analysis.lexical = a.grammar.lexicality a.analysis.start

/-- A grammar with an analysis is all that the way to a program relies on. -/
theorem sound_of_analyze {g : Grammar} {name : Option String} {analysis : Analysis}
    (h : g.analyze name = .ok analysis) : Sound ⟨g, analysis⟩ where
  checked := Grammar.checked_of_analyze h
  names := Grammar.nodup_of_analyze h
  nullable := by
    rw [congrArg Analysis.nullable (Grammar.accepted_of_analyze h).analysis]
    exact g.length_nullability
  lexical := congrArg Analysis.lexical (Grammar.accepted_of_analyze h).analysis

/-- A terminal without flaw has a form, from which its leaf is made. -/
theorem leaf_guarded {defined : String → Bool} {inToken : Bool} {r : Rule}
    (hterminal : r.isTerminal = true) (hflaw : r.flaw? defined inToken = none) (rule : String)
    (kind : TerminalForm → Kind) : Guarded.leaf rule r kind = .ok (leaf rule r kind) := by
  obtain ⟨form, hform⟩ := Option.isSome_iff_exists.mp (Rule.form?_isSome_of_isTerminal hterminal)
  rw [Guarded.leaf, Rule.form_guarded hflaw, leaf, hform]
  rfl

namespace Sound

variable (h : a.Sound)

include h

/-- The table of tokens has an entry for every rule. -/
theorem fetch_lexical {i : Nat} (hi : i < a.grammar.rules.length) :
    Guarded.fetch a.analysis.lexical i = .ok (a.isLexical i) := by
  have hi' : i < a.analysis.lexical.length := by simpa [h.lexical, Grammar.lexicality] using hi
  exact Guarded.fetch_eq_getD hi' false

/-- The table of what can match nothing has an entry for every rule. -/
theorem fetch_nullable {i : Nat} (hi : i < a.grammar.rules.length) :
    Guarded.fetch a.analysis.nullable i = .ok (a.analysis.nullable[i]?.getD false) :=
  Guarded.fetch_eq_getD (h.nullable.symm ▸ hi) false

omit h in
/-- The table of kinds has an entry for every rule. -/
theorem fetch_kind {i : Nat} (hi : i < a.grammar.rules.length) :
    Guarded.fetch a.ruleKinds i = .ok (a.ruleKind i) :=
  Guarded.fetch_eq (by simp [ruleKinds, hi])

/-- Every rule has its kind, that of its form if it is a token. -/
theorem ruleKinds_guarded : Guarded.ruleKinds a = .ok a.ruleKinds := by
  refine Guarded.mapM_zipIdx_eq 0 (by simp [ruleKinds]) fun i rule kind hrule hkind => ?_
  obtain ⟨hi, rfl⟩ := List.getElem?_eq_some_iff.mp hrule
  have hkind : a.ruleKind i = kind := by simpa [ruleKinds, hi] using hkind
  rw [Nat.zero_add, h.fetch_lexical hi, ← hkind, ruleKind, Grammar.ruleName, hrule]
  rfl

/-- A rule that is a token of its own has a terminal for its body. -/
theorem isTerminal_of_isLexical {i : Nat} (hlexical : a.isLexical i = true) :
    (a.grammar.body i).isTerminal = true := by
  rw [isLexical_eq h.lexical] at hlexical
  exact Grammar.isTerminal_of_isLexical hlexical

/-- A rule that is a single terminal becomes a leaf. -/
theorem leaf_body_guarded {i : Nat} (hi : i < a.grammar.rules.length)
    (hlexical : a.isLexical i = true) (rule : String) (kind : TerminalForm → Kind) :
    Guarded.leaf rule (a.grammar.body i) kind = .ok (leaf rule (a.grammar.body i) kind) :=
  leaf_guarded (h.isTerminal_of_isLexical hlexical) (h.checked.flawless i hi) rule kind

variable (hroom : a.grammar.rules.length ≤ kindLimit)

include hroom

omit h in
/-- The number of a rule fits into 32 bits, as there are no more rules than kinds. -/
theorem ruleId_guarded {i : Nat} (hi : i < a.grammar.rules.length) : Guarded.ruleId i = .ok i := by
  have hlimit : kindLimit < UInt32.size := by decide
  rw [Guarded.ruleId, if_pos (by omega)]
  rfl

/-- A reference names a rule, so that the call is made without a fault. -/
theorem reference_guarded {name : String} {inToken : Bool}
    (hflaw : (Rule.symbol name).flaw? a.grammar.defines inToken = none)
    (renamed : Option (String × Bool)) :
    Guarded.reference a a.ruleKinds name renamed = .ok (a.reference name renamed) := by
  obtain ⟨i, hnumber⟩ := exists_number? hflaw
  have hi := (Grammar.of_number? hnumber).1
  have hdemand : Guarded.demand .unresolved (a.grammar.number? name) = .ok i := by
    rw [hnumber]
    rfl
  rw [Guarded.reference, hdemand, Guarded.ok_bind, h.fetch_lexical hi, Guarded.ok_bind, reference,
    hnumber]
  dsimp only
  cases hlexical : a.isLexical i with
  | true =>
    simp only [if_true, Grammar.fetch_rule hi, fetch_kind hi, Guarded.ok_bind]
    exact h.leaf_body_guarded hi hlexical name _
  | false =>
    simp only [Bool.false_eq_true, if_false, ruleId_guarded hroom hi]
    rfl

omit h hroom

mutual

/-- An expression without flaws becomes a sketch. -/
theorem sketch_guarded (h : a.Sound) (hroom : a.grammar.rules.length ≤ kindLimit) (rule : String) :
    (r : Rule) → r.flaw? a.grammar.defines false = none →
    Guarded.sketch a a.ruleKinds rule r = .ok (a.sketch rule r)
  | .blank, _ => rfl
  | .literal _, hflaw => leaf_guarded rfl hflaw rule _
  | .pattern _ _, hflaw => leaf_guarded rfl hflaw rule _
  | .token _ _, hflaw => leaf_guarded rfl hflaw rule _
  | .symbol _, hflaw => h.reference_guarded hroom hflaw none
  | .seq members, hflaw => by
    rw [Guarded.sketch,
      h.sketchAll_guarded hroom rule members (Rule.flawAmong?_eq_none.mp hflaw)]
    rfl
  | .choice members, hflaw => by
    rw [Guarded.sketch,
      h.sketchAll_guarded hroom rule members (Rule.flawAmong?_eq_none.mp hflaw)]
    rfl
  | .repetition content _ _, hflaw => by
    rw [Guarded.sketch, h.sketch_guarded hroom rule content hflaw]
    rfl
  | .field _ content, hflaw => h.sketch_guarded hroom rule content hflaw
  | .renamed content name named, hflaw => by
    have hcontent := h.sketch_guarded hroom rule content hflaw
    rw [Rule.flaw?, ← Rule.flaw?_unwrapped] at hflaw
    have hrole := content.unwrapped_ne_field
    rw [Guarded.sketch, sketch]
    generalize content.unwrapped = inner at hflaw hrole ⊢
    cases inner with
    | symbol target => exact h.reference_guarded hroom hflaw _
    | literal _ => exact leaf_guarded rfl hflaw rule _
    | pattern _ _ => exact leaf_guarded rfl hflaw rule _
    | token _ _ => exact leaf_guarded rfl hflaw rule _
    | field name content => exact absurd rfl (hrole name content)
    | _ =>
      rw [hcontent]
      rfl

/-- The parts of a rule are lowered without a fault. -/
theorem sketchAll_guarded (h : a.Sound) (hroom : a.grammar.rules.length ≤ kindLimit)
    (rule : String) : (rs : List Rule) → (∀ r ∈ rs, r.flaw? a.grammar.defines false = none) →
    Guarded.sketchAll a a.ruleKinds rule rs = .ok (a.sketchAll rule rs)
  | [], _ => rfl
  | r :: rs, hflaw => by
    rw [List.forall_mem_cons] at hflaw
    rw [Guarded.sketchAll, h.sketch_guarded hroom rule r hflaw.1,
      h.sketchAll_guarded hroom rule rs hflaw.2]
    rfl

end

/-- Every rule becomes its sketch. -/
theorem sketches_guarded (h : a.Sound) (hroom : a.grammar.rules.length ≤ kindLimit) :
    a.grammar.rules.zipIdx.mapM (Guarded.ruleSketch a a.ruleKinds) = .ok a.sketches := by
  refine Guarded.mapM_zipIdx_eq 0 (by simp [sketches]) fun i rule sketch hrule hsketch => ?_
  obtain ⟨hi, -⟩ := List.getElem?_eq_some_iff.mp hrule
  have hsketch : a.ruleSketch i = sketch := by simpa [sketches, hi] using hsketch
  obtain rfl : (a.grammar.ruleName i, a.grammar.body i) = rule := by
    simp [Grammar.ruleName, Grammar.body, hrule]
  rw [Nat.zero_add, Guarded.ruleSketch, fetch_kind hi, Guarded.ok_bind, h.fetch_lexical hi,
    Guarded.ok_bind, ← hsketch, ruleSketch]
  cases hlexical : a.isLexical i with
  | true => exact h.leaf_body_guarded hi hlexical _ _
  | false => exact h.sketch_guarded hroom _ _ (h.checked.flawless i hi)

/-- An extra has a terminal and a kind. -/
theorem extra_guarded (h : a.Sound) {r : Rule} (hr : r ∈ a.grammar.extras) :
    ∃ e, a.extra? r = some e ∧ Guarded.extra a a.ruleKinds r = .ok e := by
  obtain ⟨hflaw, hextra⟩ := h.checked.extras r hr
  rw [← Rule.flaw?_unwrapped] at hflaw
  unfold Grammar.isExtra at hextra
  unfold extra? Guarded.extra
  generalize r.unwrapped = inner at hflaw hextra ⊢
  cases inner with
  | symbol name =>
    obtain ⟨i, hnumber⟩ := exists_number? hflaw
    have hi := (Grammar.of_number? hnumber).1
    simp only [Grammar.find?_eq, hnumber, Option.map_some, Option.getD_some] at hextra
    obtain ⟨form, hform⟩ := Option.isSome_iff_exists.mp (Rule.form?_isSome_of_isTerminal hextra)
    refine ⟨(⟨name, form⟩, a.ruleKind i), by simp [hnumber, hform], ?_⟩
    simp only [hnumber, Guarded.demand, Guarded.ok_bind, Grammar.fetch_rule hi,
      Rule.form_guarded (h.checked.flawless i hi), hform, fetch_kind hi]
    rfl
  | _ =>
    obtain ⟨form, hform⟩ := Option.isSome_iff_exists.mp (Rule.form?_isSome_of_isTerminal hextra)
    refine ⟨(⟨Grammar.extrasName, form⟩, form.kind), by simp [hform], ?_⟩
    simp only [Rule.form_guarded hflaw, hform, Guarded.demand, Guarded.ok_bind]
    rfl

/-- A token to stop at has a terminal. -/
theorem syncUse_guarded (h : a.Sound) (name : String) :
    Guarded.syncUse a a.ruleKinds name = .ok (a.syncUse name) := by
  rw [Guarded.syncUse, syncUse]
  cases hnumber : a.grammar.number? name with
  | none => rfl
  | some i =>
    have hi := (Grammar.of_number? hnumber).1
    dsimp only
    rw [h.fetch_lexical hi, Guarded.ok_bind]
    cases hlexical : a.isLexical i with
    | false => simp [hlexical, pure, Except.pure]
    | true =>
      obtain ⟨form, hform⟩ := Option.isSome_iff_exists.mp
        (Rule.form?_isSome_of_isTerminal (h.isTerminal_of_isLexical hlexical))
      simp [hlexical, Grammar.fetch_rule hi, fetch_kind hi,
        Rule.form_guarded (h.checked.flawless i hi), hform, Guarded.demand, Guarded.ok_bind]

end Sound

end Analysed

namespace Tables

variable {t : Tables}

/-- A kind that was entered has a number. -/
theorem numberOf_kind {kind : Kind} (h : t.Knows (.kind kind)) :
    Guarded.numberOf t.kinds kind = .ok (t.kindNumber kind) := by
  obtain ⟨i, hi⟩ := h
  rw [Guarded.numberOf, kindNumber, hi]
  rfl

/-- The form of a terminal that was entered has a number. -/
theorem numberOf_form {use : TerminalUse} (h : t.Knows (.terminal use)) :
    Guarded.numberOf t.forms use.form = .ok (t.terminalNumber use) := by
  obtain ⟨i, hi, -⟩ := h
  rw [Guarded.numberOf, terminalNumber, hi]
  rfl

mutual

/-- A sketch is numbered if all that it mentions was entered. -/
theorem numbered_guarded : (sketch : Sketch) → (∀ m ∈ sketch.mentions, t.Knows m) →
    Guarded.numbered t sketch = .ok (sketch.map t.terminalNumber t.kindNumber)
  | .blank, _ => rfl
  | .token use kind _, h => by
    simp only [Op.mentions, List.forall_mem_cons] at h
    rw [Guarded.numbered, numberOf_form h.1, numberOf_kind h.2.1]
    rfl
  | .call _ none, _ => rfl
  | .call _ (some kind), h => by
    rw [Guarded.numbered, numberOf_kind (h _ (by simp [Op.mentions]))]
    rfl
  | .seq members, h => by
    rw [Guarded.numbered, numberedAll_guarded members h]
    rfl
  | .choice members, h => by
    rw [Guarded.numbered, numberedAll_guarded members h]
    rfl
  | .repetition body _ _, h => by
    rw [Guarded.numbered, numbered_guarded body h]
    rfl
  | .wrap body kind, h => by
    rw [Op.mentions, List.forall_mem_append] at h
    rw [Guarded.numbered, numbered_guarded body h.1,
      numberOf_kind (h.2 _ (List.mem_singleton.mpr rfl))]
    rfl

/-- Operations whose mentions were entered are numbered without a fault. -/
theorem numberedAll_guarded : (sketches : List Sketch) →
    (∀ m ∈ Op.mentionsAmong sketches, t.Knows m) →
    Guarded.numberedAll t sketches = .ok (Op.mapAll t.terminalNumber t.kindNumber sketches)
  | [], _ => rfl
  | sketch :: sketches, h => by
    rw [Op.mentionsAmong, List.forall_mem_append] at h
    rw [Guarded.numberedAll, numbered_guarded sketch h.1, numberedAll_guarded sketches h.2]
    rfl

end

/-- An extra whose terminal and kind were entered is numbered without a fault. -/
theorem extraNumbers_guarded {e : TerminalUse × Kind} (hterminal : t.Knows (.terminal e.1))
    (hkind : t.Knows (.kind e.2)) :
    Guarded.extraNumbers t e = .ok (t.terminalNumber e.1, t.kindNumber e.2) := by
  have hmarked : t.kinds.items.toList[t.kindNumber e.2]? = some e.2 := by
    obtain ⟨i, hi⟩ := hkind
    rw [kindNumber, hi, Option.getD_some, Array.getElem?_toList]
    exact Numbering.number?_eq_some.mp hi
  rw [Guarded.extraNumbers, numberOf_form hterminal, Guarded.ok_bind, numberOf_kind hkind,
    Guarded.ok_bind, Guarded.fetch_eq hmarked]
  rfl

end Tables

namespace Analysed

variable {a : Analysed} {t : Tables} {sync : List String}

/-- The parts of the program of an analysed grammar. -/
def parts (a : Analysed) (sync : List String) : Guarded.Parts where
  sketches := a.sketches
  extras := a.grammar.extras.filterMap a.extra?
  sync := sync.map a.syncUse

/-- What is mentioned apart from the kinds that come first is mentioned by the parts. -/
theorem mentions_eq (a : Analysed) (sync : List String) : a.mentions a.sketches sync =
    (.kind .error :: .kind .skipped :: a.ruleKinds.map Mention.kind) ++
      (a.parts sync).mentions := by
  simp [mentions, parts, Guarded.Parts.mentions, ruleKinds, Function.comp_def]

namespace Sound

/-- All that is mentioned is gathered without a fault. -/
theorem parts_guarded (h : a.Sound) (hroom : a.grammar.rules.length ≤ kindLimit) :
    Guarded.parts a a.ruleKinds sync = .ok (a.parts sync) := by
  rw [Guarded.parts, h.sketches_guarded hroom, Guarded.ok_bind,
    Guarded.mapM_eq_filterMap fun r hr => h.extra_guarded hr, Guarded.ok_bind,
    Guarded.mapM_eq fun name _ => h.syncUse_guarded name]
  rfl

/-- A rule of the program is made without a fault. -/
theorem programRule_guarded (h : a.Sound) (hknows : ∀ m ∈ a.mentions a.sketches sync, t.Knows m)
    {i : Nat} (hi : i < a.grammar.rules.length) :
    Guarded.programRule t a a.ruleKinds (a.ruleSketch i, i) =
      .ok (a.programRule t (a.ruleSketch i, i)) := by
  have hsketch : a.ruleSketch i ∈ a.sketches := List.mem_map.mpr ⟨i, List.mem_range.mpr hi, rfl⟩
  rw [Guarded.programRule, Grammar.fetch_rule hi, Guarded.ok_bind, fetch_kind hi, Guarded.ok_bind,
    Tables.numberOf_kind (hknows _ (mem_mentions_of_rule hi)), Guarded.ok_bind,
    Tables.numbered_guarded _ fun m hm => hknows m (mem_mentions_of_sketch hsketch hm),
    Guarded.ok_bind, h.fetch_nullable hi, Guarded.ok_bind, h.fetch_lexical hi]
  rfl

/-- All rules of the program are made without a fault. -/
theorem rules_guarded (h : a.Sound) (hknows : ∀ m ∈ a.mentions a.sketches sync, t.Knows m) :
    a.sketches.zipIdx.mapM (Guarded.programRule t a a.ruleKinds) =
      .ok (a.sketches.zipIdx.map (a.programRule t)) := by
  refine Guarded.mapM_eq fun sketch hsketch => ?_
  obtain ⟨i, hi, rfl⟩ := List.getElem_of_mem hsketch
  have hi : i < a.grammar.rules.length := by simpa [sketches] using hi
  have hplace : a.sketches.zipIdx[i] = (a.ruleSketch i, i) := by simp [sketches]
  rw [hplace]
  exact h.programRule_guarded hknows hi

/-- The program is put together without a fault from tables that know all it mentions. -/
theorem assemble_guarded (h : a.Sound) (hroom : a.grammar.rules.length ≤ kindLimit)
    (hknows : ∀ m ∈ a.mentions a.sketches sync, t.Knows m) :
    Guarded.assemble t a a.ruleKinds (a.parts sync) = .ok (a.programOver sync t) := by
  have hextras : (a.parts sync).extras.mapM (Guarded.extraNumbers t) =
      .ok (a.programOver sync t).extras :=
    Guarded.mapM_eq fun e he => Tables.extraNumbers_guarded
      (hknows _ (mem_mentions_of_extra he).1) (hknows _ (mem_mentions_of_extra he).2)
  have hsync : (a.parts sync).sync.mapM (fun use => Guarded.numberOf t.forms use.form) =
      .ok ((a.parts sync).sync.map t.terminalNumber) := by
    refine Guarded.mapM_eq fun use huse => ?_
    obtain ⟨name, hname, rfl⟩ := List.mem_map.mp huse
    exact Tables.numberOf_form (hknows _ (mem_mentions_of_sync hname))
  rw [Guarded.assemble, show (a.parts sync).sketches = a.sketches from rfl,
    h.rules_guarded hknows, Guarded.ok_bind, Grammar.fetch_rule h.checked.start_lt, Guarded.ok_bind,
    hextras, Guarded.ok_bind, hsync, Guarded.ok_bind, ruleId_guarded hroom h.checked.start_lt,
    parts, List.map_map]
  rfl

/-- The way from an analysed grammar to its program meets no fault. -/
theorem program_guarded (h : a.Sound) (sync : List String) :
    Guarded.program a sync = Guarded.lift (a.program sync) := by
  rw [program_eq_bind, mentions_eq, List.foldlM_append, bind_assoc, Guarded.program,
    h.ruleKinds_guarded, Guarded.liftM_ok_bind]
  refine Guarded.lift_bind fun t ht => ?_
  have hroom : a.grammar.rules.length ≤ kindLimit :=
    length_rules_le h.names (fun kind hkind => by simp [hkind]) ht rfl (by decide)
  rw [h.parts_guarded hroom, Guarded.liftM_ok_bind]
  refine Guarded.lift_bind fun t' ht' => ?_
  have hmentions : (a.mentions a.sketches sync).foldlM Tables.enter {} = .ok t' := by
    rw [mentions_eq, List.foldlM_append, ht]
    exact ht'
  obtain ⟨-, hknows, -⟩ := Tables.of_foldlM_enter hmentions rfl
  rw [h.assemble_guarded hroom hknows]
  rfl

end Sound

end Analysed

/-- Compiling a grammar meets no fault. -/
theorem Compiler.compile_guarded (c : Compiler) (g : Grammar) :
    Guarded.compile c g = Guarded.lift (c.compile g) := by
  rw [Guarded.compile, g.analyze_guarded, compile]
  refine Guarded.lift_bind fun analysis hanalysis => ?_
  rw [(Analysed.sound_of_analyze hanalysis).program_guarded c.sync]
  exact Guarded.lift_bind fun _ _ => rfl

end Packrat
