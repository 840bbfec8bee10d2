import Packrat.Proofs.Grammar.Document

/-!
# Reading grammars

The sections of a grammar stand in a document in any order, and each is read into the draft as it
comes. So while a document is read, the draft is the one at its end without the sections that are
still to come.
-/

namespace Packrat

namespace Document

open Json

/-! ### Sections -/

/-- The name of a section in a document. -/
def Section.key : Section → String
  | .name => "name"
  | .rules => "rules"
  | .extras => "extras"
  | .externals => "externals"
  | .inlined => "inline"
  | .supertypes => "supertypes"
  | .word => "word"

/-- Distinct sections have distinct names. -/
theorem Section.key_injective : Function.Injective Section.key := by
  intro part part'
  cases part <;> cases part' <;> decide

/-- A name is looked up as the section that has this name. -/
theorem lookup_sections {name : String} {part : Section} :
    sections.lookup name = some part ↔ name = part.key := by
  constructor
  · intro h
    obtain ⟨before, after, hsections, -⟩ := List.lookup_eq_some_iff.mp h
    have hmem : (name, part) ∈ sections := hsections ▸ by simp
    fin_cases hmem <;> rfl
  · rintro rfl
    cases part <;> rfl

/-- The draft with what another one has for a section. -/
def Draft.put (d D : Draft) : Section → Draft
  | .name => { d with name := D.name }
  | .rules => { d with rules := D.rules }
  | .extras => { d with extras := D.extras }
  | .externals => { d with externals := D.externals }
  | .inlined => { d with inlined := D.inlined }
  | .supertypes => { d with supertypes := D.supertypes }
  | .word => { d with word := D.word }

/-- What a draft has for the sections that are asked for. -/
def Draft.only (D : Draft) (p : Section → Bool) : Draft where
  name := if p .name then D.name else none
  rules := if p .rules then D.rules else none
  extras := if p .extras then D.extras else none
  externals := if p .externals then D.externals else none
  inlined := if p .inlined then D.inlined else none
  supertypes := if p .supertypes then D.supertypes else none
  word := if p .word then D.word else none

variable {D d : Draft} {p : Section → Bool} {part : Section}

/-- A draft cut down to some sections has those of them that it had. -/
theorem Draft.has_only : (D.only p).has part = (p part && D.has part) := by
  cases part <;> simp only [Draft.has, Draft.only] <;> split <;> simp_all

/-- To put in a section is to cut down to one section more. -/
theorem Draft.put_only : (D.only p).put D part = D.only fun part' => part' == part || p part' := by
  cases part <;> simp [Draft.put, Draft.only]

/-- Cut down to all sections, a draft is what it was. -/
theorem Draft.only_true : (D.only fun _ => true) = D := by
  simp [Draft.only]

/-- A draft without the sections that it has is empty. -/
theorem Draft.only_eq_empty (h : ∀ part, D.has part = true → p part = false) : D.only p = {} := by
  have hnone : ∀ {α : Type} {o : Option α} {b : Bool}, (o.isSome = true → b = false) →
      (if b then o else none) = none := by
    rintro α (_ | a) (_ | _) h <;> simp_all
  simp only [Draft.only, hnone (h .name), hnone (h .rules), hnone (h .extras),
    hnone (h .externals), hnone (h .inlined), hnone (h .supertypes), hnone (h .word)]

/-! ### The loop over the sections -/

variable {fields : List (String × JsonValue)} {ws rest : List Char} {isFirst : Bool} {fuel : Nat}

/-- Whether a section stands in none of the fields. -/
def isBehind (fields : List (String × JsonValue)) (part : Section) : Bool :=
  fields.all (·.1 != part.key)

/-- A section has been passed when no field that is left has its name. -/
theorem isBehind_iff : isBehind fields part = true ↔ ∀ field ∈ fields, field.1 ≠ part.key := by
  simp [isBehind]

/-- In front of a field for a section that does not come again, what is behind is what is behind the
field without this section. -/
theorem isBehind_cons {v : JsonValue} (hpart : isBehind fields part = true) :
    (fun part' => part' == part || isBehind ((part.key, v) :: fields) part') = isBehind fields := by
  funext part'
  by_cases h : part' = part
  · simpa [h] using hpart.symm
  · have hkey : part.key ≠ part'.key := fun heq => h (Section.key_injective heq).symm
    have hne : (part' == part) = false := by simpa using h
    simp [isBehind, hne, hkey]

/-- A field that is no section makes no difference to what is behind. -/
theorem isBehind_cons_of_lookup {name : String} {v : JsonValue}
    (hname : sections.lookup name = none) :
    isBehind ((name, v) :: fields) = isBehind fields := by
  funext part
  have hkey : name ≠ part.key := by
    rintro rfl
    rw [lookup_sections.mpr rfl] at hname
    cases hname
  simp [isBehind, hkey]

/-- The sections of a document are read one by one, and fields of other names are passed, when each
section stands there once at most and is read as what the draft has for it. -/
theorem readNamedSections_of_reads
    (hreads : ∀ part v, (part.key, v) ∈ fields → ∀ d : Draft, Reads (d.read part) v (d.put D part))
    (honce : ∀ part : Section, (valuesOf fields part.key).length ≤ 1)
    (hws : Listing '\x7d' WritesField isFirst fields ws) (hfuel : fields.length < fuel) :
    readNamedSections fuel isFirst (D.only (isBehind fields)) (ws ++ rest) = .ok (D, rest) := by
  induction fields generalizing isFirst ws fuel with
  | nil =>
    obtain ⟨fuel, rfl⟩ := Nat.exists_eq_succ_of_ne_zero (Nat.ne_of_gt hfuel)
    rw [readNamedSections, nextName_nil hws]
    exact congrArg (fun d => Except.ok (d, rest)) Draft.only_true
  | cons field fields ih =>
    obtain ⟨fuel, rfl⟩ := Nat.exists_eq_succ_of_ne_zero (Nat.ne_of_gt (Nat.zero_lt_of_lt hfuel))
    obtain ⟨name, v⟩ := field
    obtain ⟨n, b, w, ws', hn, hb, hw, hws', -, hnext⟩ := nextName_cons hws
    obtain ⟨cs, hname, hcolon⟩ := hnext rest
    have hends : Ends (ws' ++ rest) := hws'.ends (by decide)
    have honce' : ∀ part : Section, (valuesOf fields part.key).length ≤ 1 := fun part =>
      Nat.le_trans ((List.Sublist.filter _ (List.sublist_cons_self _ _)).map _).length_le
        (honce part)
    have hothers : readNamedSections fuel false (D.only (isBehind fields)) (ws' ++ rest) =
        .ok (D, rest) :=
      ih (fun part v hmem => hreads part v (List.mem_cons_of_mem _ hmem)) honce' hws'
        (Nat.lt_of_succ_lt_succ hfuel)
    cases hpart : sections.lookup name with
    | none =>
      rw [isBehind_cons_of_lookup hpart]
      simp only [readNamedSections, hname, readString_of_writes hn, hpart, hcolon,
        skipValue_of_writes hw hb hends, hothers, bind, Except.bind]
    | some part =>
      obtain rfl := lookup_sections.mp hpart
      have hfresh : isBehind fields part = true := by
        have hlength := honce part
        rw [valuesOf_cons, if_pos rfl, List.length_cons] at hlength
        refine isBehind_iff.mpr fun field hfield hkey => ?_
        have hvalue : field.2 ∈ valuesOf fields part.key := mem_valuesOf.mpr (hkey ▸ hfield)
        have hpos := List.length_pos_of_mem hvalue
        omega
      have hhas : (D.only (isBehind ((part.key, v) :: fields))).has part = false := by
        rw [Draft.has_only]
        simp [isBehind]
      have hread : (D.only (isBehind ((part.key, v) :: fields))).read part
          (b ++ (w ++ (ws' ++ rest))) = .ok (D.only (isBehind fields), ws' ++ rest) := by
        rw [← isBehind_cons hfresh, ← Draft.put_only]
        exact hreads part v List.mem_cons_self _ hb hw hends
      simp only [readNamedSections, hname, readString_of_writes hn, hpart, hhas, hcolon, hread,
        hothers, bind, Except.bind]
      rfl

/-! ### What an object has under a name -/

section

variable {α : Type} {Part : JsonValue → α → Prop} {as : List α} {text : Option String}
  {name : String} {v value : JsonValue}

/-- A name that stands once stands with the value that is there for it. -/
theorem Has.eq_of_mem (h : Has fields name value) (hmem : (name, v) ∈ fields) : v = value := by
  have hvalue := mem_valuesOf.mpr hmem
  rw [h] at hvalue
  exact List.mem_singleton.mp hvalue

/-- There is one value at most for a name that stands once. -/
theorem Has.length_le (h : Has fields name v) : (valuesOf fields name).length ≤ 1 :=
  Nat.le_of_eq (congrArg List.length h)

/-- A name that stands somewhere is not missing. -/
theorem Has.not_lacks (h : Has fields name v) : ¬Lacks fields name := fun hlacks =>
  List.cons_ne_nil v [] (h.symm.trans hlacks)

/-- No field has a name that is missing. -/
theorem Lacks.not_mem (h : Lacks fields name) : (name, v) ∉ fields := by
  intro hmem
  have hvalue := mem_valuesOf.mpr hmem
  rw [h] at hvalue
  exact List.not_mem_nil hvalue

/-- There is one value at most for a name that is missing: none. -/
theorem Lacks.length_le (h : Lacks fields name) : (valuesOf fields name).length ≤ 1 :=
  (congrArg List.length h).trans_le (Nat.zero_le 1)

/-- The value for the name of a list is an array of what the list describes. -/
theorem HasList.eq_of_mem (h : HasList Part fields name as ∨ Lacks fields name)
    (hmem : (name, v) ∈ fields) : ∃ items, v = .array items ∧ List.Forall₂ Part items as := by
  rcases h with ⟨items, hitems, hall⟩ | hlacks
  · exact ⟨items, hitems.eq_of_mem hmem, hall⟩
  · exact absurd hmem hlacks.not_mem

/-- There is one value at most for the name of a list. -/
theorem HasList.length_le (h : HasList Part fields name as ∨ Lacks fields name) :
    (valuesOf fields name).length ≤ 1 := by
  rcases h with ⟨items, hitems, -⟩ | hlacks
  · exact hitems.length_le
  · exact hlacks.length_le

/-- The same for a list that may be left out. -/
theorem HasList?.eq_of_mem (h : HasList? Part fields name as) (hmem : (name, v) ∈ fields) :
    ∃ items, v = .array items ∧ List.Forall₂ Part items as :=
  HasList.eq_of_mem (h.imp_right And.left) hmem

/-- There is one value at most for the name of a list that may be left out. -/
theorem HasList?.length_le (h : HasList? Part fields name as) :
    (valuesOf fields name).length ≤ 1 := HasList.length_le (h.imp_right And.left)

/-- Where an array is left out, there is nothing that it would have told. -/
theorem HasList?.eq_nil (h : HasList? Part fields name as) (hlacks : Lacks fields name) :
    as = [] := by
  rcases h with ⟨items, hitems, -⟩ | ⟨-, has⟩
  · exact absurd hlacks hitems.not_lacks
  · exact has

/-- The value for a text that may be missing is read as this text. -/
theorem HasText?.reads (h : HasText? fields name text) (hmem : (name, v) ∈ fields) :
    Reads readText? v text := by
  cases text with
  | none =>
    rcases h with hlacks | hnull
    · exact absurd hmem hlacks.not_mem
    · exact hnull.eq_of_mem hmem ▸ reads_text?_null
  | some text => exact Has.eq_of_mem h hmem ▸ reads_text?

/-- There is one value at most for the name of a text. -/
theorem HasText?.length_le (h : HasText? fields name text) :
    (valuesOf fields name).length ≤ 1 := by
  cases text with
  | none => exact h.elim Lacks.length_le Has.length_le
  | some text => exact Has.length_le h

/-- Where the name of a text is missing, so is the text. -/
theorem HasText?.eq_none (h : HasText? fields name text) (hlacks : Lacks fields name) :
    text = none := by
  cases text with
  | none => rfl
  | some text => exact absurd hlacks (Has.not_lacks h)

end

/-! ### The sections of a grammar -/

variable {g : Grammar} {v : JsonValue}

/-- A section has been passed when the fields that are left lack its name. -/
theorem isBehind_iff_lacks : isBehind fields part = true ↔ Lacks fields part.key := by
  rw [isBehind_iff, Lacks, valuesOf, List.map_eq_nil_iff, List.filter_eq_nil_iff]
  simp

/-- A section that is still to come has not been passed. -/
theorem isBehind_eq_false (hmem : (part.key, v) ∈ fields) : isBehind fields part = false :=
  Bool.eq_false_iff.mpr fun h => isBehind_iff.mp h _ hmem rfl

/-- Rules of different names are put down in the order in which they come. -/
theorem foldl_define {rules before : List (String × Rule)}
    (hnames : ((before ++ rules).map (·.1)).Nodup) :
    rules.foldl (fun rules r => define rules r.1 r.2) before = before ++ rules := by
  induction rules generalizing before with
  | nil => simp
  | cons r rules ih =>
    have hfresh : before.any (·.1 == r.1) = false := by
      rw [List.map_append, List.nodup_append] at hnames
      refine List.any_eq_false.mpr fun r' hr' => ?_
      simpa using hnames.2.2 r'.1 (List.mem_map_of_mem hr') r.1 (by simp)
    have hdefine : define before r.1 r.2 = before ++ [r] := by
      rw [define, hfresh]
      rfl
    rw [List.foldl_cons, hdefine, ih (by simpa using hnames), List.append_assoc,
      List.singleton_append]

/-- The rules of a grammar are read in the order in which they are written. -/
theorem reads_rules {definitions : List (String × JsonValue)} {rules : List (String × Rule)}
    {depth : Nat} (hnames : (rules.map (·.1)).Nodup)
    (hrules : List.Forall₂ (fun definition rule => definition.1 = rule.1 ∧
      Describes definition.2 rule.2) definitions rules)
    (hdepth : ∀ definition ∈ definitions, definition.2.depth ≤ depth)
    (hlevels : depth ≤ depthLimit) :
    Reads (readRules (depth + 1)) (.object definitions) rules := by
  intro b w rest hb hw hrest
  have hreads : List.Forall₂ (fun definition rule => definition.1 = rule.1 ∧
      Reads (readExpression depth) definition.2 rule.2) definitions rules :=
    ((List.forall₂_and_left _ _).mpr ⟨hdepth, hrules⟩).imp fun _ _ ⟨hdepth, hname, hdescribes⟩ =>
      ⟨hname, reads_expression hdescribes hdepth hlevels⟩
  have hdefine : rules.foldl (fun rules r => define rules r.1 r.2) [] = rules :=
    foldl_define hnames
  cases hw with
  | object hws =>
    simp only [readRules, skipBlanks_append hb, List.cons_append,
      skipBlanks_cons (by decide : isBlank '\x7b' = false),
      readFields_of_reads hreads hws hws.length_lt, hdefine, bind, Except.bind]
    rfl

/-- The draft of a grammar at the end of a document that describes it. -/
def draftOf (fields : List (String × JsonValue)) (g : Grammar) : Draft where
  name := some g.name
  rules := some g.rules
  extras := if isBehind fields .extras then none else some g.extras
  externals := if isBehind fields .externals then none else some g.externals
  inlined := if isBehind fields .inlined then none else some g.inlined
  supertypes := if isBehind fields .supertypes then none else some g.supertypes
  word := if isBehind fields .word then none else some g.word

/-- An array of values that describe expressions is read as these, as long as it is not nested too
deeply. -/
theorem reads_expressions {items : List JsonValue} {rules : List Rule} {depth : Nat}
    (h : List.Forall₂ Describes items rules) (hdepth : (JsonValue.array items).depth ≤ depth + 1)
    (hlevels : depth ≤ depthLimit) :
    Reads (readArray (depth + 1) (readExpression depth)) (.array items) rules := by
  have hdepths := JsonValue.depthOfItems_le.mp (Nat.le_of_succ_le_succ hdepth)
  exact reads_array (((List.forall₂_and_left _ _).mpr ⟨hdepths, h⟩).imp
    fun _ _ ⟨hdepth, hdescribes⟩ => reads_expression hdescribes hdepth hlevels)

/-- An array of texts is read as names. -/
theorem reads_names {items : List JsonValue} {names : List String} {depth : Nat}
    (h : List.Forall₂ (fun value name => value = .string name) items names) :
    Reads (readArray (depth + 1) readText) (.array items) names :=
  reads_array (h.imp fun _ _ hvalue => hvalue ▸ reads_text)

/-- Each section of a document that describes a grammar is read as what the grammar has for it. -/
theorem reads_section (h : DescribesGrammar fields g) (hnames : (g.rules.map (·.1)).Nodup)
    (hdepth : ∀ field ∈ fields, field.2.depth ≤ innerDepth) (part : Section) (v : JsonValue)
    (hmem : (part.key, v) ∈ fields) (d : Draft) :
    Reads (d.read part) v (d.put (draftOf fields g) part) := by
  have hgiven := isBehind_eq_false hmem
  have hv : v.depth ≤ innerDepth := hdepth _ hmem
  cases part with
  | name =>
    obtain rfl := h.name.eq_of_mem hmem
    exact reads_text.map fun name => { d with name := some name }
  | rules =>
    obtain ⟨definitions, hhas, hrules⟩ := h.rules
    obtain rfl := hhas.eq_of_mem hmem
    have hdepths := JsonValue.depthOfFields_le.mp (Nat.le_of_succ_le_succ hv)
    exact (reads_rules hnames hrules hdepths (by decide)).map fun rules =>
      { d with rules := some rules }
  | extras =>
    obtain ⟨items, rfl, hall⟩ := HasList.eq_of_mem h.extras hmem
    rw [Draft.put, draftOf, hgiven]
    exact (reads_expressions hall hv (by decide)).map fun extras => { d with extras := some extras }
  | externals =>
    obtain ⟨items, rfl, hall⟩ := h.externals.eq_of_mem hmem
    rw [Draft.put, draftOf, hgiven]
    exact (reads_expressions hall hv (by decide)).map fun externals =>
      { d with externals := some externals }
  | inlined =>
    obtain ⟨items, rfl, hall⟩ := h.inlined.eq_of_mem hmem
    rw [Draft.put, draftOf, hgiven]
    exact (reads_names hall).map fun inlined => { d with inlined := some inlined }
  | supertypes =>
    obtain ⟨items, rfl, hall⟩ := h.supertypes.eq_of_mem hmem
    rw [Draft.put, draftOf, hgiven]
    exact (reads_names hall).map fun supertypes => { d with supertypes := some supertypes }
  | word =>
    rw [Draft.put, draftOf, hgiven]
    exact (h.word.reads hmem).map fun word => { d with word := some word }

/-! ### Whole grammars -/

/-- A document that describes a grammar has each section once at most. -/
theorem DescribesGrammar.once (h : DescribesGrammar fields g) (part : Section) :
    (valuesOf fields part.key).length ≤ 1 := by
  cases part with
  | name => exact h.name.length_le
  | rules =>
    obtain ⟨definitions, hdefinitions, -⟩ := h.rules
    exact hdefinitions.length_le
  | extras => exact HasList.length_le h.extras
  | externals => exact h.externals.length_le
  | inlined => exact h.inlined.length_le
  | supertypes => exact h.supertypes.length_le
  | word => exact h.word.length_le

/-- No section is read before the first field is. -/
theorem only_isBehind (h : DescribesGrammar fields g) :
    (draftOf fields g).only (isBehind fields) = {} := by
  refine Draft.only_eq_empty fun part hhas => ?_
  cases part with
  | name => exact isBehind_eq_false h.name.mem
  | rules =>
    obtain ⟨definitions, hdefinitions, -⟩ := h.rules
    exact isBehind_eq_false hdefinitions.mem
  | _ => simpa [Draft.has, draftOf] using hhas

/-- The draft at the end of a document is the grammar that it describes. -/
theorem grammar?_draftOf (h : DescribesGrammar fields g) (hstart : g.start = none) :
    (draftOf fields g).grammar? = some
      (if isBehind fields .extras then { g with extras := standardExtras } else g) := by
  have hlist : ∀ (part : Section) {α : Type} {as : List α},
      (Lacks fields part.key → as = []) →
        (if isBehind fields part then none else some as).getD [] = as := by
    intro part α as has
    split
    · rename_i hbehind
      exact (has (isBehind_iff_lacks.mp hbehind)).symm
    · rfl
  have hword : (if isBehind fields .word then none else some g.word).join = g.word := by
    split
    · rename_i hbehind
      exact (h.word.eq_none (isBehind_iff_lacks.mp hbehind)).symm
    · rfl
  obtain ⟨name, start, rules, extras, inlined, supertypes, word, externals⟩ := g
  obtain rfl : start = none := hstart
  simp only [Draft.grammar?, draftOf, hlist .externals h.externals.eq_nil,
    hlist .inlined h.inlined.eq_nil, hlist .supertypes h.supertypes.eq_nil, hword]
  split <;> rfl

end Document

end Packrat
