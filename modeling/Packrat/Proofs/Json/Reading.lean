import Packrat.Proofs.Json.Scalars

/-!
# Reading values

A value is read back from any of its texts, as long as it nests no deeper than the reader goes.
`Reads` says this of a reader and the value it is to meet, whatever the reader makes of the value,
so it is a statement about readers of items, of fields and of everything that is built from them.
-/

namespace Packrat

/-- Items nest no deeper than a depth when none of them does. -/
theorem JsonValue.depthOfItems_le {items : List JsonValue} {depth : Nat} :
    JsonValue.depthOfItems items ≤ depth ↔ ∀ item ∈ items, item.depth ≤ depth := by
  induction items with
  | nil => simp [JsonValue.depthOfItems]
  | cons item items ih => simp [JsonValue.depthOfItems, ih]

/-- Fields nest no deeper than a depth when no value in them does. -/
theorem JsonValue.depthOfFields_le {fields : List (String × JsonValue)} {depth : Nat} :
    JsonValue.depthOfFields fields ≤ depth ↔ ∀ field ∈ fields, field.2.depth ≤ depth := by
  induction fields with
  | nil => simp [JsonValue.depthOfFields]
  | cons field fields ih => simp [JsonValue.depthOfFields, ih]

namespace Json

variable {α : Type} {b cs w ws rest : List Char} {v : JsonValue} {isFirst : Bool}

/-! ### Scalars -/

/-- A digit is neither a blank nor a bracket. -/
theorem digit_front {d : Char} (hd : d.isDigit = true) :
    isBlank d = false ∧ d ∉ ['[', '\x7b', ']'] := by
  refine ⟨Bool.eq_false_iff.mpr fun hblank => ?_, fun h => ?_⟩
  · have := isBlank_iff.mp hblank
    fin_cases this <;> simp at hd
  · fin_cases h <;> simp at hd

/-- A scalar is read and skipped from its text, which starts like no blank, no array, no object and
no end of an array. -/
theorem scalar_of_writes (h : Writes v w) (hdepth : v.depth = 0) (hrest : Ends rest) :
    readScalar (w ++ rest) = .ok (v, rest) ∧ skipScalar (w ++ rest) = .ok rest ∧
      ∃ c w', w = c :: w' ∧ isBlank c = false ∧ c ∉ ['[', '\x7b', ']'] := by
  cases h with
  | null =>
    have hword := readWord_append ['u', 'l', 'l'] rest
    exact ⟨congrArg (fun r => do return (JsonValue.null, ← r)) hword, hword, _, _, rfl, by decide⟩
  | yes =>
    have hword := readWord_append ['r', 'u', 'e'] rest
    exact ⟨congrArg (fun r => do return (JsonValue.bool true, ← r)) hword, hword, _, _, rfl,
      by decide⟩
  | no =>
    have hword := readWord_append ['a', 'l', 's', 'e'] rest
    exact ⟨congrArg (fun r => do return (JsonValue.bool false, ← r)) hword, hword, _, _, rfl,
      by decide⟩
  | natural hn hlt =>
    obtain ⟨d, w', rfl, hd⟩ := exists_digit hn
    refine ⟨?_, ?_, d, w', rfl, digit_front hd⟩
    · rw [List.cons_append, readScalar_digit hd]
      exact readNumber_of_natural hn hlt hrest
    · rw [List.cons_append, skipScalar_digit hd, ← List.cons_append,
        readNumeral_of_writes hn hrest]
      rfl
  | positive hn hfits hother =>
    obtain ⟨d, w', rfl, hd⟩ := exists_digit hn
    refine ⟨?_, ?_, d, w', rfl, digit_front hd⟩
    · rw [List.cons_append, readScalar_digit hd]
      exact readNumber_of_positive hn hfits hother hrest
    · rw [List.cons_append, skipScalar_digit hd, ← List.cons_append,
        readNumeral_of_writes hn hrest]
      rfl
  | negative hn hfits =>
    exact ⟨readNumber_of_negative hn hfits hrest,
      congrArg (fun r => do return (← r).2) (readNumeral_of_writes hn hrest),
      _, _, rfl, by decide⟩
  | string htext =>
    refine ⟨?_, skipString_of_writes htext, _, _, rfl, by decide⟩
    rw [List.cons_append, readScalar, readString_of_writes htext]
    rfl
  | array _ => simp [JsonValue.depth] at hdepth
  | object _ => simp [JsonValue.depth] at hdepth

/-- The text of a value starts like no blank and no end of an array. -/
theorem front_of_writes (h : Writes v w) :
    ∃ c w', w = c :: w' ∧ isBlank c = false ∧ c ≠ ']' := by
  by_cases hdepth : v.depth = 0
  · have hends : Ends [] := by simp [Ends]
    obtain ⟨-, -, c, w', hw, hblank, hnot⟩ := scalar_of_writes h hdepth hends
    exact ⟨c, w', hw, hblank, fun h => hnot (by simp [h])⟩
  · cases h with
    | array _ | object _ => exact ⟨_, _, rfl, by decide, by decide⟩
    | _ => exact absurd rfl hdepth

/-- A value has a text of one character or more. -/
theorem length_pos_of_writes (h : Writes v w) : 0 < w.length := by
  obtain ⟨c, w', rfl, -⟩ := front_of_writes h
  exact Nat.succ_pos _

/-! ### Items and fields -/

section

variable {close : Char} {Part : α → List Char → Prop} {a : α} {as : List α}

/-- What stands behind a part of an array or an object may stand behind a value. -/
theorem Listing.ends (h : Listing close Part false as ws) (hclose : close ∈ [']', '\x7d']) :
    Ends (ws ++ rest) := by
  have hfront : ∀ {b cs : List Char} {c : Char}, Blank b → c ∈ [',', ']', '\x7d'] →
      Ends (b ++ c :: cs) := by
    intro b cs c hb hc d hd
    cases b with
    | nil =>
      obtain rfl := Option.some_inj.mp hd
      exact List.mem_append_right [' ', '\n', '\t', '\r'] hc
    | cons d' b =>
      obtain rfl := Option.some_inj.mp hd
      exact List.mem_append_left [',', ']', '\x7d'] (hb d' List.mem_cons_self)
  cases h with
  | done hb =>
    rw [List.append_assoc]
    exact hfront hb (List.mem_cons_of_mem _ hclose)
  | next hb _ _ _ =>
    rw [List.append_assoc]
    exact hfront hb List.mem_cons_self

/-- There are no more parts than characters. -/
theorem Listing.length_le (h : Listing close Part isFirst as ws) : as.length ≤ ws.length := by
  have hbound : as.length < ws.length + isFirst.toNat := by
    induction h with
    | done _ => simp
    | first _ _ _ ih | next _ _ _ _ ih =>
      simp only [Bool.toNat_false, Bool.toNat_true, List.length_append, List.length_cons] at ih ⊢
      omega
  have := isFirst.toNat_le
  omega

/-- There are no more items than characters, so that fuel for the characters is enough. -/
theorem Listing.length_lt (h : Listing close Part isFirst as ws) :
    as.length < (ws ++ rest).length + 1 := by
  have := h.length_le
  rw [List.length_append]
  omega

end

/-- Behind the last item of an array, the bracket is found. -/
theorem nextItem_nil (h : Listing ']' Writes isFirst [] ws) :
    nextItem isFirst (ws ++ rest) = .ok (false, rest) := by
  cases h with
  | done hb =>
    rw [nextItem, List.append_assoc, skipBlanks_append hb, List.singleton_append,
      skipBlanks_cons (by decide)]
    rfl

/-- Behind a comma, another item has to follow. -/
theorem nextItem_comma (hb : Blank b) : nextItem false (b ++ ',' :: cs) =
    match skipBlanks cs with
    | [] => .error .unfinished
    | ']' :: _ => .error .malformed
    | cs => .ok (true, cs) := by
  rw [nextItem, skipBlanks_append hb, skipBlanks_cons (by decide)]
  rfl

/-- The text of an array goes on with the text of the next item. -/
theorem nextItem_cons {items : List JsonValue} (h : Listing ']' Writes isFirst (v :: items) ws) :
    ∃ w ws', Writes v w ∧ Listing ']' Writes false items ws' ∧ w.length + ws'.length ≤ ws.length ∧
      ∀ rest, nextItem isFirst (ws ++ rest) = .ok (true, w ++ (ws' ++ rest)) := by
  cases h with
  | @first _ _ b w ws' hb hw hws =>
    refine ⟨w, ws', hw, hws, by simp, fun rest => ?_⟩
    obtain ⟨c, w', rfl, hblank, hc⟩ := front_of_writes hw
    rw [nextItem, List.append_assoc, skipBlanks_append hb, List.append_assoc, List.cons_append,
      skipBlanks_cons hblank]
    simp
  | @next _ _ b b' w ws' hb hb' hw hws =>
    refine ⟨w, ws', hw, hws, by simp; omega, fun rest => ?_⟩
    obtain ⟨c, w', rfl, hblank, hc⟩ := front_of_writes hw
    rw [List.append_assoc, List.cons_append, nextItem_comma hb, List.append_assoc,
      skipBlanks_append hb', List.append_assoc, List.cons_append, skipBlanks_cons hblank]
    split <;> simp_all

/-- Behind the last field of an object, the brace is found. -/
theorem nextName_nil (h : Listing '\x7d' WritesField isFirst [] ws) :
    nextName isFirst (ws ++ rest) = .ok (false, rest) := by
  cases h with
  | done hb =>
    rw [nextName, List.append_assoc, skipBlanks_append hb, List.singleton_append,
      skipBlanks_cons (by decide)]
    rfl

/-- The colon behind a name is passed with the blanks in front of it. -/
theorem passColon_append (hb : Blank b) : passColon (b ++ ':' :: cs) = .ok cs := by
  rw [passColon, skipBlanks_append hb, skipBlanks_cons (by decide)]
  rfl

/-- The text of an object goes on with the name of the next field, a colon and a text of its
value. -/
theorem nextName_cons {name : String} {fields : List (String × JsonValue)}
    (h : Listing '\x7d' WritesField isFirst ((name, v) :: fields) ws) :
    ∃ n b w ws', WritesText name.toList n ∧ Blank b ∧ Writes v w ∧
      Listing '\x7d' WritesField false fields ws' ∧ w.length + ws'.length < ws.length ∧
        ∀ rest, ∃ cs, nextName isFirst (ws ++ rest) = .ok (true, n ++ cs) ∧
          passColon cs = .ok (b ++ (w ++ (ws' ++ rest))) := by
  cases h with
  | first hb hfield hws =>
    obtain ⟨hn, ha, ha', hw⟩ := hfield
    refine ⟨_, _, _, _, hn, ha', hw, hws, by simp; omega, fun rest => ⟨_, ?_, passColon_append ha⟩⟩
    simp only [nextName, List.append_assoc, List.cons_append, skipBlanks_append hb,
      skipBlanks_cons (by decide : isBlank '"' = false)]
    rfl
  | next hb hb' hfield hws =>
    obtain ⟨hn, ha, ha', hw⟩ := hfield
    refine ⟨_, _, _, _, hn, ha', hw, hws, by simp; omega, fun rest => ⟨_, ?_, passColon_append ha⟩⟩
    simp [nextName, skipBlanks_append hb, skipBlanks_append hb',
      skipBlanks_cons (by decide : isBlank ',' = false),
      skipBlanks_cons (by decide : isBlank '"' = false)]

/-! ### Readers -/

/-- A reader makes `a` of a value, from each of its texts and in front of whatever may stand behind
a value. -/
def Reads (read : Reader α) (v : JsonValue) (a : α) : Prop :=
  ∀ ⦃b w rest : List Char⦄, Blank b → Writes v w → Ends rest →
    read (b ++ (w ++ rest)) = .ok (a, rest)

/-- What is made of a value that is read is read from the texts of this value. -/
theorem Reads.map {β : Type} {read : Reader α} {a : α} (h : Reads read v a) (f : α → β) :
    Reads (fun cs => do let (a, cs) ← read cs; return (f a, cs)) v (f a) := by
  intro b w rest hb hw hrest
  simp only [h hb hw hrest, bind, Except.bind]
  rfl

variable {read : Reader α} {a : α} {fuel depth : Nat}

/-- The items of an array are read where each of them is. -/
theorem readItems_of_reads {items : List JsonValue} {as : List α}
    (hreads : List.Forall₂ (Reads read) items as) (h : Listing ']' Writes isFirst items ws)
    (hfuel : items.length < fuel) : readItems read fuel isFirst (ws ++ rest) = .ok (as, rest) := by
  induction hreads generalizing isFirst ws fuel with
  | nil =>
    obtain ⟨fuel, rfl⟩ := Nat.exists_eq_succ_of_ne_zero (Nat.ne_of_gt hfuel)
    rw [readItems, nextItem_nil h]
    rfl
  | @cons item a items as hitem _ ih =>
    obtain ⟨fuel, rfl⟩ := Nat.exists_eq_succ_of_ne_zero (Nat.ne_of_gt (Nat.zero_lt_of_lt hfuel))
    obtain ⟨w, ws', hw, hws', -, hnext⟩ := nextItem_cons h
    have hread : read (w ++ (ws' ++ rest)) = .ok (a, ws' ++ rest) :=
      hitem blank_nil hw (hws'.ends (by decide))
    simp only [readItems, hnext, hread, ih hws' (Nat.lt_of_succ_lt_succ hfuel), bind, Except.bind]
    rfl

/-- The fields of an object are read where the value of each of them is. -/
theorem readFields_of_reads {fields : List (String × JsonValue)} {as : List (String × α)}
    (hreads : List.Forall₂ (fun field a => field.1 = a.1 ∧ Reads read field.2 a.2) fields as)
    (h : Listing '\x7d' WritesField isFirst fields ws) (hfuel : fields.length < fuel) :
    readFields read fuel isFirst (ws ++ rest) = .ok (as, rest) := by
  induction hreads generalizing isFirst ws fuel with
  | nil =>
    obtain ⟨fuel, rfl⟩ := Nat.exists_eq_succ_of_ne_zero (Nat.ne_of_gt hfuel)
    rw [readFields, nextName_nil h]
    rfl
  | @cons field a fields as hfield _ ih =>
    obtain ⟨fuel, rfl⟩ := Nat.exists_eq_succ_of_ne_zero (Nat.ne_of_gt (Nat.zero_lt_of_lt hfuel))
    obtain ⟨name, v⟩ := field
    obtain ⟨name', a⟩ := a
    obtain ⟨rfl, hvalue⟩ := hfield
    obtain ⟨n, b, w, ws', hn, hb, hw, hws', -, hnext⟩ := nextName_cons h
    obtain ⟨cs, hname, hcolon⟩ := hnext rest
    simp only [readFields, hname, readString_of_writes hn, hcolon,
      hvalue hb hw (hws'.ends (by decide)), ih hws' (Nat.lt_of_succ_lt_succ hfuel), bind,
      Except.bind]
    rfl

/-- What begins with no bracket is read as a scalar. -/
theorem readValue_of_scalar {c : Char} (hb : Blank b) (hblank : isBlank c = false)
    (hc : c ∉ ['[', '\x7b', ']']) : readValue depth (b ++ c :: cs) = readScalar (c :: cs) := by
  cases depth <;> rw [readValue, skipBlanks_append hb, skipBlanks_cons hblank] <;> split <;>
    simp_all

/-- An opening bracket is read as an array, one level further down. -/
theorem readValue_array (hb : Blank b) : readValue (depth + 1) (b ++ '[' :: cs) = (do
    let (items, cs) ← readItems (readValue depth) (cs.length + 1) true cs
    return (.array items, cs)) := by
  rw [readValue, skipBlanks_append hb, skipBlanks_cons (by decide)]
  rfl

/-- An opening brace is read as an object, one level further down. -/
theorem readValue_object (hb : Blank b) : readValue (depth + 1) (b ++ '\x7b' :: cs) = (do
    let (fields, cs) ← readFields (readValue depth) (cs.length + 1) true cs
    return (.object fields, cs)) := by
  rw [readValue, skipBlanks_append hb, skipBlanks_cons (by decide)]
  rfl

/-- A value is read from each of its texts when it does not nest too deeply. -/
theorem reads_value (hdepth : v.depth ≤ depth) : Reads (readValue depth) v v := by
  induction depth generalizing v with
  | zero =>
    intro b w rest hb hw hrest
    obtain ⟨hread, -, c, w', rfl, hblank, hc⟩ := scalar_of_writes hw (Nat.le_zero.mp hdepth) hrest
    exact (readValue_of_scalar hb hblank hc).trans hread
  | succ depth ih =>
    intro b w rest hb hw hrest
    by_cases hscalar : v.depth = 0
    · obtain ⟨hread, -, c, w', rfl, hblank, hc⟩ := scalar_of_writes hw hscalar hrest
      exact (readValue_of_scalar hb hblank hc).trans hread
    · cases hw with
      | @array items ws hitems =>
        have hdepths := JsonValue.depthOfItems_le.mp (Nat.le_of_succ_le_succ hdepth)
        rw [List.cons_append, readValue_array hb, readItems_of_reads
          (List.forall₂_same.mpr fun item hitem => ih (hdepths item hitem)) hitems hitems.length_lt]
        rfl
      | @object fields ws hfields =>
        have hdepths := JsonValue.depthOfFields_le.mp (Nat.le_of_succ_le_succ hdepth)
        rw [List.cons_append, readValue_object hb, readFields_of_reads
          (List.forall₂_same.mpr fun field hfield => ⟨rfl, ih (hdepths field hfield)⟩)
          hfields hfields.length_lt]
        rfl
      | _ => exact absurd rfl hscalar

/-! ### Texts of one kind -/

/-- A text is read from a string. -/
theorem reads_text {text : String} : Reads readText (.string text) text := by
  intro b w rest hb hw hrest
  cases hw with
  | string htext =>
    rw [readText, skipBlanks_append hb, List.cons_append, skipBlanks_cons (by decide)]
    exact readString_of_writes htext

/-- A text that may be missing is read from a string. -/
theorem reads_text? {text : String} : Reads readText? (.string text) (some text) := by
  intro b w rest hb hw hrest
  have htext := reads_text blank_nil hw hrest
  cases hw with
  | string _ =>
    rw [readText?, skipBlanks_append hb, List.cons_append, skipBlanks_cons (by decide)]
    change (readText _ >>= _) = _
    exact (congrArg (· >>= _) htext).trans rfl

/-- A null is read as a text that is missing. -/
theorem reads_text?_null : Reads readText? .null none := by
  intro b w rest hb hw hrest
  cases hw with
  | null =>
    rw [readText?, skipBlanks_append hb, List.cons_append, skipBlanks_cons (by decide)]
    rfl

/-- An array of things of one kind is read where each of its items is. -/
theorem reads_array {items : List JsonValue} {as : List α}
    (hreads : List.Forall₂ (Reads read) items as) :
    Reads (readArray (depth + 1) read) (.array items) as := by
  intro b w rest hb hw hrest
  cases hw with
  | array hitems =>
    simp only [readArray, skipBlanks_append hb, List.cons_append,
      skipBlanks_cons (by decide : isBlank '[' = false)]
    exact readItems_of_reads hreads hitems hitems.length_lt

end Json

end Packrat

/-!
## Skipping values

A value that is not looked at is passed over with each of its texts, however deeply it nests. What
is open is kept on a stack, so the statement about a value is one about the array or object that it
closes: all that is left of that is passed, and more steps are left then than there are characters
behind it.
-/

namespace Packrat

namespace Json

variable {b w ws rest : List Char} {v : JsonValue} {vs : List JsonValue} {isFirst : Bool}
  {enclosure : Enclosure} {fuel depth : Nat} {outer : List Enclosure}

/-- What is left of an array or an object that is open: the text of some values, with their names
in an object, and the closing bracket. -/
def IsLeft (isFirst : Bool) (vs : List JsonValue) (ws : List Char) : Enclosure → Prop
  | .array => Listing ']' Writes isFirst vs ws
  | .object => ∃ fields : List (String × JsonValue),
      vs = fields.map (·.2) ∧ Listing '\x7d' WritesField isFirst fields ws

/-- What is left behind an item may stand behind a value. -/
theorem IsLeft.ends (h : IsLeft false vs ws enclosure) : Ends (ws ++ rest) := by
  cases enclosure with
  | array => exact Listing.ends h (by decide)
  | object =>
    obtain ⟨fields, -, hfields⟩ := h
    exact hfields.ends (by decide)

/-- Something is left as long as the closing bracket is. -/
theorem IsLeft.length_pos (h : IsLeft isFirst [] ws enclosure) : 0 < ws.length := by
  cases enclosure with
  | array =>
    cases h with
    | done _ => simp
  | object =>
    obtain ⟨fields, hvs, hfields⟩ := h
    obtain rfl := List.map_eq_nil_iff.mp hvs.symm
    cases hfields with
    | done _ => simp

/-- When no values are left, the closing bracket is found. -/
theorem nextValue_nil (h : IsLeft isFirst [] ws enclosure) :
    nextValue enclosure isFirst (ws ++ rest) = .ok (false, rest) := by
  cases enclosure with
  | array => exact nextItem_nil h
  | object =>
    obtain ⟨fields, hvs, hfields⟩ := h
    obtain rfl := List.map_eq_nil_iff.mp hvs.symm
    rw [nextValue, nextName_nil hfields]
    rfl

/-- When values are left, the next one is found, with its name passed in an object. -/
theorem nextValue_cons (h : IsLeft isFirst (v :: vs) ws enclosure) :
    ∃ b w ws', Blank b ∧ Writes v w ∧ IsLeft false vs ws' enclosure ∧
      w.length + ws'.length ≤ ws.length ∧
        ∀ rest, nextValue enclosure isFirst (ws ++ rest) =
          .ok (true, b ++ (w ++ (ws' ++ rest))) := by
  cases enclosure with
  | array =>
    obtain ⟨w, ws', hw, hws', hlength, hnext⟩ := nextItem_cons h
    exact ⟨[], w, ws', blank_nil, hw, hws', hlength, hnext⟩
  | object =>
    obtain ⟨fields, hvs, hfields⟩ := h
    obtain ⟨⟨name, _⟩, fields, rfl, rfl, rfl⟩ := List.map_eq_cons_iff.mp hvs.symm
    obtain ⟨n, b, w, ws', hn, hb, hw, hws', hlength, hnext⟩ := nextName_cons hfields
    refine ⟨b, w, ws', hb, hw, ⟨fields, rfl, hws'⟩, Nat.le_of_lt hlength, fun rest => ?_⟩
    obtain ⟨cs, hname, hcolon⟩ := hnext rest
    simp only [nextValue, hname, skipString_of_writes hn, hcolon, bind, Except.bind]
    rfl

/-- Where a value is skipped that has no parts, its text is passed at once. -/
theorem skipOpening_scalar (hw : Writes v w) (hscalar : v.depth = 0) (hb : Blank b)
    (hrest : Ends rest) : skipOpening (b ++ (w ++ rest)) = .ok (none, rest) := by
  obtain ⟨-, hskip, c, w', rfl, hblank, hc⟩ := scalar_of_writes hw hscalar hrest
  rw [List.cons_append] at hskip
  rw [skipOpening, skipBlanks_append hb, List.cons_append, skipBlanks_cons hblank]
  split
  · simp_all
  · simp_all
  · rw [hskip]
    rfl

/-- A value that is no scalar opens an array or an object of values that nest less deeply. -/
theorem skipOpening_of_writes (hw : Writes v w) (hscalar : v.depth ≠ 0) (hb : Blank b) :
    ∃ inner vs ws, (∀ v' ∈ vs, v'.depth < v.depth) ∧ IsLeft true vs ws inner ∧
      ws.length < w.length ∧
        ∀ rest, skipOpening (b ++ (w ++ rest)) = .ok (some inner, ws ++ rest) := by
  cases hw with
  | @array items ws hitems =>
    refine ⟨.array, items, ws, fun v' hv' => ?_, hitems, by simp, fun rest => ?_⟩
    · exact Nat.lt_succ_of_le (JsonValue.depthOfItems_le.mp (Nat.le_refl _) v' hv')
    · rw [skipOpening, skipBlanks_append hb, List.cons_append, skipBlanks_cons (by decide)]
      rfl
  | @object fields ws hfields =>
    refine ⟨.object, fields.map (·.2), ws, fun v' hv' => ?_, ⟨fields, rfl, hfields⟩, by simp,
      fun rest => ?_⟩
    · obtain ⟨field, hfield, rfl⟩ := List.mem_map.mp hv'
      exact Nat.lt_succ_of_le (JsonValue.depthOfFields_le.mp (Nat.le_refl _) field hfield)
    · rw [skipOpening, skipBlanks_append hb, List.cons_append, skipBlanks_cons (by decide)]
      rfl
  | _ => exact absurd rfl hscalar

/-- What is left of the innermost array or object is passed. The outer induction is on how deeply
its values nest, the inner one on how many there are. -/
theorem skipOpen_of_isLeft (hdepth : ∀ v ∈ vs, v.depth < depth)
    (h : IsLeft isFirst vs ws enclosure) (hfuel : (ws ++ rest).length < fuel) :
    ∃ fuel', rest.length < fuel' ∧
      skipOpen fuel (enclosure :: outer) isFirst (ws ++ rest) =
        skipOpen fuel' outer false rest := by
  induction depth using Nat.strong_induction_on
    generalizing vs isFirst ws fuel enclosure outer rest with
  | _ depth ihdepth =>
    induction vs generalizing isFirst ws fuel with
    | nil =>
      obtain ⟨fuel, rfl⟩ := Nat.exists_eq_succ_of_ne_zero (Nat.ne_of_gt (Nat.zero_lt_of_lt hfuel))
      have hpos := h.length_pos
      rw [List.length_append] at hfuel
      refine ⟨fuel, by omega, ?_⟩
      simp only [skipOpen, nextValue_nil h, bind, Except.bind]
    | cons v vs ih =>
      obtain ⟨fuel, rfl⟩ := Nat.exists_eq_succ_of_ne_zero (Nat.ne_of_gt (Nat.zero_lt_of_lt hfuel))
      obtain ⟨hv, hvs⟩ := List.forall_mem_cons.mp hdepth
      obtain ⟨b, w, ws', hb, hw, hws', hlength, hnext⟩ := nextValue_cons h
      rw [List.length_append] at hfuel
      by_cases hscalar : v.depth = 0
      · have hpos := length_pos_of_writes hw
        have hfuel' : (ws' ++ rest).length < fuel := by rw [List.length_append]; omega
        obtain ⟨fuel', hleft, hskip⟩ := ih hvs hws' hfuel'
        refine ⟨fuel', hleft, ?_⟩
        simp only [skipOpen, hnext, skipOpening_scalar hw hscalar hb hws'.ends, hskip, bind,
          Except.bind]
      · obtain ⟨inner, vs', wi, hvs', hinner, hwi, hopening⟩ := skipOpening_of_writes hw hscalar hb
        have hfuel' : (wi ++ (ws' ++ rest)).length < fuel := by
          rw [List.length_append, List.length_append]
          omega
        obtain ⟨fuel₁, hleft₁, hskip₁⟩ : ∃ fuel₁, (ws' ++ rest).length < fuel₁ ∧
            skipOpen fuel (inner :: enclosure :: outer) true (wi ++ (ws' ++ rest)) =
              skipOpen fuel₁ (enclosure :: outer) false (ws' ++ rest) :=
          ihdepth v.depth hv hvs' hinner hfuel'
        obtain ⟨fuel₂, hleft₂, hskip₂⟩ := ih hvs hws' hleft₁
        refine ⟨fuel₂, hleft₂, ?_⟩
        simp only [skipOpen, hnext, hopening, hskip₁, hskip₂, bind, Except.bind]

/-- A value is passed with each of its texts. -/
theorem skipValue_of_writes (hw : Writes v w) (hb : Blank b) (hrest : Ends rest) :
    skipValue (b ++ (w ++ rest)) = .ok rest := by
  by_cases hscalar : v.depth = 0
  · rw [skipValue, skipOpening_scalar hw hscalar hb hrest]
    rfl
  · obtain ⟨inner, vs, ws, hvs, hinner, -, hopening⟩ := skipOpening_of_writes hw hscalar hb
    obtain ⟨fuel, hleft, hskip⟩ : ∃ fuel, rest.length < fuel ∧
        skipOpen ((ws ++ rest).length + 1) [inner] true (ws ++ rest) =
          skipOpen fuel [] false rest :=
      skipOpen_of_isLeft hvs hinner (Nat.lt_succ_self _)
    obtain ⟨fuel, rfl⟩ := Nat.exists_eq_succ_of_ne_zero (Nat.ne_of_gt (Nat.zero_lt_of_lt hleft))
    rw [skipValue, hopening]
    exact hskip

end Json

end Packrat
