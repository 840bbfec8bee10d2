import Packrat.Grammar.Document
import Packrat.Proofs.Grammar.Described
import Packrat.Proofs.Json.Reading

/-!
# Reading expressions

An object is read as the expression that it describes. Its type may stand behind other fields, so
the reader keeps these until it has found the type; what an expression is made of is looked into
only after that.
-/

namespace Packrat

namespace Document

open Json

variable {fields parts : List (String × JsonValue)} {name : String} {value v : JsonValue}
  {rule : Rule} {levels depth fuel : Nat} {ws rest : List Char} {isFirst : Bool}

/-! ### Fields by name -/

/-- A field has a value for its own name in front of those of the fields behind it. -/
theorem valuesOf_cons {field : String × JsonValue} : valuesOf (field :: fields) name =
    if field.1 = name then field.2 :: valuesOf fields name else valuesOf fields name := by
  simp only [valuesOf, List.filter_cons, beq_iff_eq]
  split <;> rfl

/-- A value is there for a name just when a field has both. -/
theorem mem_valuesOf : value ∈ valuesOf fields name ↔ (name, value) ∈ fields := by
  simp [valuesOf]

/-- A name that stands with a value stands with it in some field. -/
theorem Has.mem (h : Has fields name value) : (name, value) ∈ fields :=
  mem_valuesOf.mp (h ▸ List.mem_singleton_self value)

/-- The fields of an expression other than its type. -/
def partsOf (fields : List (String × JsonValue)) : List (String × JsonValue) :=
  fields.filter (·.1 != "type")

/-- Other fields than the type keep their values. -/
theorem valuesOf_partsOf (hname : name ≠ "type") :
    valuesOf (partsOf fields) name = valuesOf fields name := by
  have hboth : ∀ field : String × JsonValue,
      (field.1 == name && field.1 != "type") = (field.1 == name) := by
    intro field
    by_cases h : field.1 = name
    · simp [h, hname]
    · simp [h]
  simp only [valuesOf, partsOf, List.filter_filter, hboth]

/-- A text that may be missing is there for an expression as it is for the object. -/
theorem HasText?.partsOf {text : Option String} (h : HasText? fields name text)
    (hname : name ≠ "type") : HasText? (partsOf fields) name text := by
  cases text with
  | none => exact h.imp (valuesOf_partsOf hname).trans (valuesOf_partsOf hname).trans
  | some text => exact (valuesOf_partsOf hname).trans h

/-- A name that stands once is looked up as its value. -/
theorem part?_of_has (h : Has fields name value) : part? fields name = some value := by
  obtain ⟨part, hpart, rfl⟩ := List.map_eq_singleton_iff.mp h
  rw [part?, hpart]

/-- A name that stands once with a string is looked up as a text. -/
theorem text?_of_has {text : String} (h : Has fields name (.string text)) :
    text? fields name = some text := by
  rw [text?, part?_of_has h]

/-- A name that stands once with a truth value is looked up as such. -/
theorem bool?_of_has {b : Bool} (h : Has fields name (.bool b)) : bool? fields name = some b := by
  rw [bool?, part?_of_has h]

/-- A name that stands once with an array is looked up as its items. -/
theorem items?_of_has {items : List JsonValue} (h : Has fields name (.array items)) :
    items? fields name = some items := by
  rw [items?, part?_of_has h]

/-- A text that may be missing is looked up as it is or as missing. -/
theorem optionalText?_of_hasText? {text : Option String} (h : HasText? fields name text) :
    optionalText? fields name = some text := by
  cases text with
  | none =>
    rcases h with h | h
    · rw [optionalText?, List.map_eq_nil_iff.mp h]
    · obtain ⟨⟨_, _⟩, hpart, rfl⟩ := List.map_eq_singleton_iff.mp h
      rw [optionalText?, hpart]
  | some text =>
    obtain ⟨⟨_, _⟩, hpart, rfl⟩ := List.map_eq_singleton_iff.mp h
    rw [optionalText?, hpart]

/-- Items that are read as expressions one by one are read as the list of them. -/
theorem mapM_of_forall₂ {expression? : JsonValue → Option Rule} {items : List JsonValue}
    {members : List Rule}
    (h : List.Forall₂ (fun item member => expression? item = some member) items members) :
    items.mapM expression? = some members := by
  induction h with
  | nil => rfl
  | cons hitem _ ih => simp [List.mapM_cons, hitem, ih]

/-- What nests in a field of an object nests less deeply than the object. -/
theorem Has.depth_lt (h : Has fields name value) :
    value.depth < (JsonValue.object fields).depth :=
  Nat.lt_succ_of_le (JsonValue.depthOfFields_le.mp (Nat.le_refl _) _ h.mem)

/-! ### From objects to expressions -/

/-- The type of an object that describes an expression is one of a kind, and the other fields are
put together to the expression. -/
theorem assemble?_of_describes (expression? : JsonValue → Option Rule)
    (h : Describes (.object fields) rule)
    (hsub : ∀ {v r}, Describes v r → v.depth < (JsonValue.object fields).depth →
      expression? v = some r) :
    ∃ type kind, Has fields "type" (.string type) ∧ kinds.lookup type = some kind ∧
      assemble? expression? kind (partsOf fields) = some rule := by
  have hparts : ∀ {name value}, name ≠ "type" → Has fields name value →
      Has (partsOf fields) name value := fun hname h => (valuesOf_partsOf hname).trans h
  have hcontent : ∀ {value r}, Has fields "content" value → Describes value r →
      (part? (partsOf fields) "content" >>= expression?) = some r := by
    intro value r hhas hr
    rw [part?_of_has (hparts (by decide) hhas)]
    exact hsub hr hhas.depth_lt
  have hmembers : ∀ {items members}, Has fields "members" (.array items) →
      List.Forall₂ Describes items members →
        (items? (partsOf fields) "members" >>= List.mapM expression?) = some members := by
    intro items members hhas hall
    rw [items?_of_has (hparts (by decide) hhas)]
    have hdepths : ∀ item ∈ items, item.depth < (JsonValue.object fields).depth := fun item hmem =>
      Nat.lt_trans (Nat.lt_succ_of_le (JsonValue.depthOfItems_le.mp (Nat.le_refl _) item hmem))
        hhas.depth_lt
    exact mapM_of_forall₂ (((List.forall₂_and_left _ _).mpr ⟨hdepths, hall⟩).imp
      fun _ _ ⟨hdepth, hdescribes⟩ => hsub hdescribes hdepth)
  cases h with
  | blank htype => exact ⟨_, .blank, htype, by decide, rfl⟩
  | literal htype hvalue =>
    refine ⟨_, .literal, htype, by decide, ?_⟩
    simp [assemble?, text?_of_has (hparts (by decide) hvalue)]
  | pattern htype hvalue hflags =>
    refine ⟨_, .pattern, htype, by decide, ?_⟩
    simp [assemble?, text?_of_has (hparts (by decide) hvalue),
      optionalText?_of_hasText? (hflags.partsOf (by decide))]
  | symbol htype hname =>
    refine ⟨_, .symbol, htype, by decide, ?_⟩
    simp [assemble?, text?_of_has (hparts (by decide) hname)]
  | seq htype hitems hall =>
    refine ⟨_, .seq, htype, by decide, ?_⟩
    simp [assemble?, hmembers hitems hall]
  | choice htype hitems hall =>
    refine ⟨_, .choice, htype, by decide, ?_⟩
    simp [assemble?, hmembers hitems hall]
  | anyNumber htype hvalue hr =>
    refine ⟨_, .anyNumber, htype, by decide, ?_⟩
    simp [assemble?, hcontent hvalue hr]
  | atLeastOne htype hvalue hr =>
    refine ⟨_, .atLeastOne, htype, by decide, ?_⟩
    simp [assemble?, hcontent hvalue hr]
  | token htype hvalue hr =>
    refine ⟨_, .token, htype, by decide, ?_⟩
    simp [assemble?, hcontent hvalue hr]
  | immediate htype hvalue hr =>
    refine ⟨_, .immediate, htype, by decide, ?_⟩
    simp [assemble?, hcontent hvalue hr]
  | renamed htype hvalue hname hnamed hr =>
    refine ⟨_, .renamed, htype, by decide, ?_⟩
    simp [assemble?, hcontent hvalue hr, text?_of_has (hparts (by decide) hname),
      bool?_of_has (hparts (by decide) hnamed)]
  | field htype hname hvalue hr =>
    refine ⟨_, .field, htype, by decide, ?_⟩
    simp [assemble?, hcontent hvalue hr, text?_of_has (hparts (by decide) hname)]
  | ranked hkind htype hvalue hr =>
    refine ⟨_, .ranked, htype, ?_, ?_⟩
    · exact (by decide : ∀ kind ∈ rankings, kinds.lookup kind = some .ranked) _ hkind
    · simp [assemble?, hcontent hvalue hr]

/-- Only objects describe expressions. -/
theorem Describes.exists_fields (h : Describes v rule) : ∃ fields, v = .object fields := by
  cases h <;> exact ⟨_, rfl⟩

/-- A value is taken for the expression that it describes. -/
theorem expression?_of_describes (h : Describes v rule) (hdepth : v.depth ≤ levels) :
    expression? levels v = some rule := by
  induction levels generalizing v rule with
  | zero =>
    obtain ⟨fields, rfl⟩ := h.exists_fields
    exact absurd hdepth (Nat.not_succ_le_zero _)
  | succ levels ih =>
    obtain ⟨fields, rfl⟩ := h.exists_fields
    obtain ⟨type, kind, htype, hkind, hassemble⟩ := assemble?_of_describes (expression? levels) h
      fun hr hlt => ih hr (Nat.le_of_lt_succ (Nat.lt_of_lt_of_le hlt hdepth))
    have htype : (part? fields "type" >>= kind?) = some kind := by
      rw [part?_of_has htype]
      exact hkind
    rw [expression?, htype]
    exact hassemble

/-! ### From texts to expressions -/

/-- The name of a type is read as this type. -/
theorem reads_kind {type : String} {kind : Kind} (hkind : kinds.lookup type = some kind) :
    Reads readKind (.string type) kind := by
  intro b w rest hb hw hrest
  simp only [readKind, reads_text hb hw hrest, hkind, bind, Except.bind]
  rfl

/-- A name is missing when it is not that of the first field and missing behind it. -/
theorem lacks_cons {field : String × JsonValue} :
    Lacks (field :: fields) name ↔ field.1 ≠ name ∧ Lacks fields name := by
  rw [Lacks, valuesOf_cons]
  split <;> simp_all [Lacks]

/-- Fields without a type are all parts of the expression. -/
theorem partsOf_of_lacks (h : Lacks fields "type") : partsOf fields = fields := by
  refine List.filter_eq_self.mpr fun field hfield => ?_
  have hname : field.1 ≠ "type" := by
    intro hname
    have hmem : field.2 ∈ valuesOf fields "type" := mem_valuesOf.mpr (hname ▸ hfield)
    rw [h] at hmem
    exact List.not_mem_nil hmem
  simpa using hname

/-- Behind its type the other fields of an expression are read as they are. -/
theorem readParts_of_lacks {kind : Kind} (h : Lacks fields "type")
    (hdepth : ∀ field ∈ fields, field.2.depth ≤ depth)
    (hws : Listing '\x7d' WritesField isFirst fields ws) (hfuel : fields.length < fuel) :
    readParts depth fuel isFirst (some kind) (ws ++ rest) = .ok ((kind, fields), rest) := by
  induction fields generalizing isFirst ws fuel with
  | nil =>
    obtain ⟨fuel, rfl⟩ := Nat.exists_eq_succ_of_ne_zero (Nat.ne_of_gt hfuel)
    rw [readParts, nextName_nil hws]
    rfl
  | cons field fields ih =>
    obtain ⟨fuel, rfl⟩ := Nat.exists_eq_succ_of_ne_zero (Nat.ne_of_gt (Nat.zero_lt_of_lt hfuel))
    obtain ⟨name, v⟩ := field
    obtain ⟨hname, hlacks⟩ := lacks_cons.mp h
    obtain ⟨hv, hvs⟩ := List.forall_mem_cons.mp hdepth
    obtain ⟨n, b, w, ws', hn, hb, hw, hws', -, hnext⟩ := nextName_cons hws
    obtain ⟨cs, hnameText, hcolon⟩ := hnext rest
    have hread : readValue depth (b ++ (w ++ (ws' ++ rest))) = .ok (v, ws' ++ rest) :=
      reads_value hv hb hw (hws'.ends (by decide))
    have hothers : readParts depth fuel false (some kind) (ws' ++ rest) =
        .ok ((kind, fields), rest) := ih hlacks hvs hws' (Nat.lt_of_succ_lt_succ hfuel)
    simp only [readParts, hnameText, readString_of_writes hn, if_neg hname, hcolon, hread, hothers,
      bind, Except.bind]
    rfl

/-- An expression that is written as an object is read up to its end, wherever its type stands. -/
theorem readParts_of_has {type : String} {kind : Kind} (h : Has fields "type" (.string type))
    (hkind : kinds.lookup type = some kind) (hdepth : ∀ field ∈ fields, field.2.depth ≤ depth)
    (hws : Listing '\x7d' WritesField isFirst fields ws) (hfuel : fields.length < fuel) :
    readParts depth fuel isFirst none (ws ++ rest) = .ok ((kind, partsOf fields), rest) := by
  induction fields generalizing isFirst ws fuel with
  | nil => simp [Has, valuesOf] at h
  | cons field fields ih =>
    obtain ⟨fuel, rfl⟩ := Nat.exists_eq_succ_of_ne_zero (Nat.ne_of_gt (Nat.zero_lt_of_lt hfuel))
    obtain ⟨name, v⟩ := field
    obtain ⟨hv, hvs⟩ := List.forall_mem_cons.mp hdepth
    obtain ⟨n, b, w, ws', hn, hb, hw, hws', -, hnext⟩ := nextName_cons hws
    obtain ⟨cs, hnameText, hcolon⟩ := hnext rest
    have hends : Ends (ws' ++ rest) := hws'.ends (by decide)
    have hfuel' := Nat.lt_of_succ_lt_succ hfuel
    rw [Has, valuesOf_cons] at h
    by_cases hname : name = "type"
    · rw [if_pos hname] at h
      obtain ⟨rfl, hlacks⟩ := List.cons_eq_cons.mp h
      have hread := reads_kind hkind hb hw hends
      have hothers : readParts depth fuel false (some kind) (ws' ++ rest) =
          .ok ((kind, fields), rest) := readParts_of_lacks hlacks hvs hws' hfuel'
      have hparts : partsOf ((name, .string type) :: fields) = fields := by
        rw [partsOf, List.filter_cons_of_neg (by simp [hname])]
        exact partsOf_of_lacks hlacks
      simp only [readParts, hnameText, readString_of_writes hn, if_pos hname, hcolon, hread,
        hothers, hparts, bind, Except.bind]
      rfl
    · rw [if_neg hname] at h
      have hread := reads_value hv hb hw hends
      have hothers : readParts depth fuel false none (ws' ++ rest) =
          .ok ((kind, partsOf fields), rest) := ih h hvs hws' hfuel'
      have hparts : partsOf ((name, v) :: fields) = (name, v) :: partsOf fields :=
        List.filter_cons_of_pos (by simpa using hname)
      simp only [readParts, hnameText, readString_of_writes hn, if_neg hname, hcolon, hread,
        hothers, hparts, bind, Except.bind]
      rfl

/-- An expression is read from each text of what describes it. -/
theorem reads_expression (h : Describes v rule) (hdepth : v.depth ≤ depth)
    (hlevels : depth ≤ depthLimit) : Reads (readExpression depth) v rule := by
  intro b w rest hb hw hrest
  obtain ⟨fields, rfl⟩ := h.exists_fields
  obtain ⟨depth, rfl⟩ := Nat.exists_eq_succ_of_ne_zero
    (Nat.ne_of_gt (Nat.lt_of_lt_of_le (Nat.succ_pos _) hdepth))
  have hfields := JsonValue.depthOfFields_le.mp (Nat.le_of_succ_le_succ hdepth)
  obtain ⟨type, kind, htype, hkind, hassemble⟩ :=
    assemble?_of_describes (expression? (depthLimit + 1)) h
      fun hr hlt => expression?_of_describes hr (by omega)
  cases hw with
  | @object _ ws hws =>
    have hparts : readParts depth ((ws ++ rest).length + 1) true none (ws ++ rest) =
        .ok ((kind, partsOf fields), rest) :=
      readParts_of_has htype hkind hfields hws hws.length_lt
    simp only [readExpression, skipBlanks_append hb, List.cons_append,
      skipBlanks_cons (by decide : isBlank '\x7b' = false), hparts, bind, Except.bind,
      pure, Except.pure, Option.bind_some, hassemble]

end Document

end Packrat
