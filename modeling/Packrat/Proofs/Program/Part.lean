import Packrat.Proofs.Grammar.Part
import Packrat.Proofs.Interning
import Packrat.Proofs.Program.Renumbered

/-!
# Programs of parts of grammars

The sketches of the rules of a part are those of the whole grammar with the calls under other
numbers. So a part needs no kinds and no terminals but those of the whole, its program can be made
whenever that of the whole can, and is embedded in it.
-/

/-!
## Sketches of parts
-/

namespace Packrat

namespace Op

variable {τ κ τ' κ' τ'' κ'' : Type}

mutual

/-- Other numbers of rules leave the kinds and the terminals. -/
theorem kinds_renumber (rules : Nat → Nat) : (op : Op τ κ) →
    (op.renumber rules id id).kinds = op.kinds ∧
      (op.renumber rules id id).terminals = op.terminals
  | blank => ⟨rfl, rfl⟩
  | token _ _ _ => ⟨rfl, rfl⟩
  | call _ renamed => ⟨by simp [renumber, kinds], rfl⟩
  | seq members => kindsAmong_renumberAll rules members
  | choice members => kindsAmong_renumberAll rules members
  | repetition body _ _ => kinds_renumber rules body
  | wrap body _ => by
    obtain ⟨hkinds, hterminals⟩ := kinds_renumber rules body
    exact ⟨by simp [renumber, kinds, hkinds], hterminals⟩

/-- Other numbers of rules leave the kinds and terminals of operations alone. -/
theorem kindsAmong_renumberAll (rules : Nat → Nat) : (ops : List (Op τ κ)) →
    kindsAmong (renumberAll rules id id ops) = kindsAmong ops ∧
      terminalsAmong (renumberAll rules id id ops) = terminalsAmong ops
  | [] => ⟨rfl, rfl⟩
  | op :: ops => by
    obtain ⟨hkinds, hterminals⟩ := kinds_renumber rules op
    obtain ⟨hkinds', hterminals'⟩ := kindsAmong_renumberAll rules ops
    simp only [renumberAll, kindsAmong, terminalsAmong, hkinds, hterminals, hkinds', hterminals',
      and_self]

end

mutual

/-- An operation over other tables is the one over the first ones under other numbers, if the
numbers of what is in it are. -/
theorem map_renumber {rules : Nat → Nat} {f : τ → τ'} {f' : τ → τ''} {t : τ' → τ''} {k : κ → κ'}
    {k' : κ → κ''} {l : κ' → κ''} : (op : Op τ κ) → (∀ x ∈ op.terminals, f' x = t (f x)) →
    (∀ x ∈ op.kinds, k' x = l (k x)) →
    (op.renumber rules id id).map f' k' = (op.map f k).renumber rules t l
  | blank, _, _ => rfl
  | token _ _ _, hf, hk => by
    simp only [terminals, kinds, List.forall_mem_singleton] at hf hk
    simp only [renumber, map, id, hf, hk]
  | call _ none, _, _ => rfl
  | call _ (some _), _, hk => by
    simp only [kinds, Option.toList_some, List.forall_mem_singleton] at hk
    simp only [renumber, map, Option.map_some, id, hk]
  | seq members, hf, hk => congrArg seq (mapAll_renumberAll members hf hk)
  | choice members, hf, hk => congrArg choice (mapAll_renumberAll members hf hk)
  | repetition body _ _, hf, hk => by
    simp only [renumber, map, map_renumber body hf hk]
  | wrap body _, hf, hk => by
    simp only [kinds, List.forall_mem_append, List.forall_mem_singleton] at hk
    simp only [renumber, map, map_renumber body hf hk.1, id, hk.2]

/-- Operations can be numbered before the rules in them are renumbered or after. -/
theorem mapAll_renumberAll {rules : Nat → Nat} {f : τ → τ'} {f' : τ → τ''} {t : τ' → τ''}
    {k : κ → κ'} {k' : κ → κ''} {l : κ' → κ''} : (ops : List (Op τ κ)) →
    (∀ x ∈ terminalsAmong ops, f' x = t (f x)) → (∀ x ∈ kindsAmong ops, k' x = l (k x)) →
    mapAll f' k' (renumberAll rules id id ops) = renumberAll rules t l (mapAll f k ops)
  | [], _, _ => rfl
  | op :: ops, hf, hk => by
    simp only [terminalsAmong, kindsAmong, List.forall_mem_append] at hf hk
    simp only [renumberAll, mapAll, map_renumber op hf.1 hk.1, mapAll_renumberAll ops hf.2 hk.2]

end

end Op

/-- Whether an analysed grammar is a part of another one with the same start rule. -/
structure Analysed.IsPartOf (a' a : Analysed) (place : Nat → Nat) : Prop where
  grammar : a'.grammar.IsPartOf a.grammar place
  start : place a'.analysis.start = a.analysis.start
  lexical : a.analysis.lexical = a.grammar.lexicality a.analysis.start
  lexical' : a'.analysis.lexical = a'.grammar.lexicality a'.analysis.start

namespace Analysed.IsPartOf

variable {a a' : Analysed} {place : Nat → Nat} (hpart : a'.IsPartOf a place)

include hpart

/-- A rule of the part is a token just when it is one in the whole. -/
theorem isLexical_place (i : Nat) : a.isLexical (place i) = a'.isLexical i := by
  rw [isLexical_eq hpart.lexical, isLexical_eq hpart.lexical', Grammar.isLexical,
    Grammar.isLexical, hpart.grammar.body_place, ← hpart.start]
  congr 1
  rw [Bool.eq_iff_iff, bne_iff_ne, bne_iff_ne, hpart.grammar.increasing.injective.ne_iff]

/-- A rule of the part has the same kind in the whole. -/
theorem ruleKind_place (i : Nat) : a.ruleKind (place i) = a'.ruleKind i := by
  rw [ruleKind, ruleKind, hpart.grammar.ruleName_place, hpart.isLexical_place]

omit hpart in
/-- A leaf calls no rule, so other numbers of rules leave it as it is. -/
theorem renumber_leaf (rule : String) (r : Rule) (kind : TerminalForm → Kind) :
    (leaf rule r kind).renumber place id id = leaf rule r kind := by
  unfold leaf
  split <;> rfl

/-- A reference in the part is lowered to the call of the same rule under its number in the
whole. -/
theorem reference_eq {name : String} (hname : a'.grammar.defines name = true)
    (renamed : Option (String × Bool)) :
    (a'.reference name renamed).renumber place id id = a.reference name renamed := by
  obtain ⟨i, hi, hplace⟩ := hpart.grammar.exists_number? hname
  simp only [reference, hi, hplace, hpart.isLexical_place, hpart.grammar.body_place,
    hpart.ruleKind_place]
  split
  · rw [renumber_leaf]
  · simp only [Op.renumber, Option.map_id_fun, id]

omit hpart

mutual

/-- The sketch of an expression of a part is the one in the whole under other numbers. -/
theorem sketch_eq (hpart : a'.IsPartOf a place) (rule : String) : (r : Rule) →
    (∀ name ∈ r.references, a'.grammar.defines name = true) →
    (a'.sketch rule r).renumber place id id = a.sketch rule r
  | .blank, _ => rfl
  | .literal _, _ => renumber_leaf _ _ _
  | .pattern _ _, _ => renumber_leaf _ _ _
  | .token _ _, _ => renumber_leaf _ _ _
  | .symbol name, h => by
    simp only [sketch, hpart.reference_eq (h name List.mem_cons_self)]
  | .seq members, h => congrArg Op.seq (sketchAll_eq hpart rule members h)
  | .choice members, h => congrArg Op.choice (sketchAll_eq hpart rule members h)
  | .repetition content _ _, h => by
    simp only [sketch, Op.renumber, sketch_eq hpart rule content h]
  | .field _ content, h => sketch_eq hpart rule content h
  | .renamed content name named, h => by
    simp only [sketch]
    split
    · rename_i target htarget
      have hmem : target ∈ content.references := Rule.mem_references_of_unwrapped htarget
      exact hpart.reference_eq (h target hmem) _
    · split
      · exact renumber_leaf _ _ _
      · simp only [Op.renumber, sketch_eq hpart rule content h, id]

/-- Expressions in the part are lowered to the same operations under the numbers of the whole. -/
theorem sketchAll_eq (hpart : a'.IsPartOf a place) (rule : String) : (rs : List Rule) →
    (∀ name ∈ Rule.referencesAmong rs, a'.grammar.defines name = true) →
    Op.renumberAll place id id (a'.sketchAll rule rs) = a.sketchAll rule rs
  | [], _ => rfl
  | r :: rs, h => by
    rw [Rule.referencesAmong, List.forall_mem_append] at h
    simp only [sketchAll, Op.renumberAll, sketch_eq hpart rule r h.1,
      sketchAll_eq hpart rule rs h.2]

end

include hpart

/-- A rule of the part is lowered to the same operation under the numbers of the whole. -/
theorem ruleSketch_eq {i : Nat} (hi : i < a'.grammar.rules.length) :
    (a'.ruleSketch i).renumber place id id = a.ruleSketch (place i) := by
  simp only [ruleSketch, hpart.isLexical_place, hpart.grammar.ruleName_place,
    hpart.grammar.body_place, hpart.ruleKind_place]
  split
  · rw [renumber_leaf]
  · exact hpart.sketch_eq _ _ fun name hname => hpart.grammar.defines_of_body hi hname

/-- An extra has the same terminal and kind in the part. -/
theorem extra?_eq {r : Rule} (hr : r ∈ a.grammar.extras) : a'.extra? r = a.extra? r := by
  unfold extra?
  split
  · rename_i name hname
    obtain ⟨i, hi, hplace⟩ := hpart.grammar.exists_number?
      (hpart.grammar.extras r hr name (Rule.mem_references_of_unwrapped hname))
    simp only [hi, hplace, bind, Option.bind_some, hpart.grammar.body_place, hpart.ruleKind_place]
  · rfl

/-- The extras have the same terminals and kinds in the part, in the same order. -/
theorem filterMap_extra? :
    a'.grammar.extras.filterMap a'.extra? = a.grammar.extras.filterMap a.extra? := by
  rw [hpart.grammar.extras_eq]
  exact List.filterMap_congr fun r hr => hpart.extra?_eq hr

/-- What stands in the sketches of a part stands in those of the whole. -/
theorem exists_sketch {sketch : Sketch} (h : sketch ∈ a'.sketches) :
    ∃ sketch' ∈ a.sketches, sketch'.kinds = sketch.kinds ∧
      sketch'.terminals = sketch.terminals := by
  obtain ⟨i, hi, rfl⟩ := List.mem_map.mp h
  rw [List.mem_range] at hi
  refine ⟨a.ruleSketch (place i), List.mem_map.mpr ⟨place i, ?_, rfl⟩, ?_⟩
  · exact List.mem_range.mpr (hpart.grammar.lt_length.mpr hi)
  · rw [← hpart.ruleSketch_eq hi]
    exact Op.kinds_renumber place _

/-- A part needs no further kinds. -/
theorem neededKinds_subset : ∀ kind ∈ a'.neededKinds, kind ∈ a.neededKinds := by
  intro kind h
  simp only [neededKinds, List.mem_append, hpart.filterMap_extra?] at h ⊢
  refine h.imp_left fun h => ?_
  rcases h with (h | h) | h
  · exact .inl (.inl h)
  · obtain ⟨i, hi, rfl⟩ := List.mem_map.mp h
    rw [List.mem_range] at hi
    refine .inl (.inr (List.mem_map.mpr ⟨place i, ?_, hpart.ruleKind_place i⟩))
    exact List.mem_range.mpr (hpart.grammar.lt_length.mpr hi)
  · obtain ⟨sketch, hsketch, hkind⟩ := List.mem_flatMap.mp h
    obtain ⟨sketch', hsketch', hkinds, -⟩ := hpart.exists_sketch hsketch
    exact .inr (List.mem_flatMap.mpr ⟨sketch', hsketch', hkinds ▸ hkind⟩)

/-- A part needs no further terminals. -/
theorem neededForms_subset : ∀ form ∈ a'.neededForms [], form ∈ a.neededForms [] := by
  intro form h
  simp only [neededForms, List.map_nil, List.append_nil, List.mem_append,
    hpart.filterMap_extra?] at h ⊢
  refine h.imp_left fun h => ?_
  obtain ⟨use, huse, rfl⟩ := List.mem_map.mp h
  obtain ⟨sketch, hsketch, huse⟩ := List.mem_flatMap.mp huse
  obtain ⟨sketch', hsketch', -, hterminals⟩ := hpart.exists_sketch hsketch
  exact List.mem_map_of_mem (List.mem_flatMap.mpr ⟨sketch', hsketch', hterminals ▸ huse⟩)

end Analysed.IsPartOf

end Packrat

/-!
## Programs of parts
-/

namespace Packrat

namespace Program.Interns

variable {p : Program} {a : Analysed} {sync : List String} {kindNumber : Kind → Nat}
  {formNumber : TerminalForm → Nat} (h : p.Interns a sync kindNumber formNumber)

include h

/-- A kind in the table is needed, and its number is its place. -/
theorem of_getElem? {k : Nat} {kind : Kind} (hk : p.kinds[k]? = some kind) :
    kind ∈ a.neededKinds ∧ kindNumber kind = k := by
  obtain ⟨hlt, -⟩ := Array.getElem?_eq_some_iff.mp hk
  obtain ⟨kind', hkind', rfl⟩ := h.kinds.surjOn hlt
  obtain rfl := Option.some.inj ((h.kind kind' hkind').symm.trans hk)
  exact ⟨hkind', rfl⟩

/-- A kind that is needed has a number in the program. -/
theorem kindNumber_lt {kind : Kind} (hkind : kind ∈ a.neededKinds) :
    kindNumber kind < p.kinds.size := h.kinds.mapsTo hkind

/-- There are no more rules in a program than in its grammar. -/
theorem rule_of_le {r : Nat} (hr : a.grammar.rules.length ≤ r) : p.rule r = default := by
  rw [Program.rule, Array.getElem?_eq_none (h.ruleCount ▸ hr), Option.getD_none]

end Program.Interns

namespace Analysed.IsPartOf

variable {a a' : Analysed} {place : Nat → Nat} {p q : Program} {kindNumber kindNumber' : Kind → Nat}
  {formNumber formNumber' : TerminalForm → Nat}

/-- Where the kinds of a table are in another one. Numbers beyond the table go beyond the other one,
some way behind its end. -/
def kindPlace (q p : Program) (kindNumber : Kind → Nat) (spare k : Nat) : Nat :=
  match q.kinds[k]? with
  | some kind => kindNumber kind
  | none => p.kinds.size + spare + k

/-- A kind that the part needs has, in the whole, the place that its number in the part is sent
to. -/
theorem kindPlace_kindNumber (hq : q.Interns a' [] kindNumber' formNumber') (spare : Nat) :
    ∀ kind ∈ a'.neededKinds,
      kindNumber kind = kindPlace q p kindNumber spare (kindNumber' kind) := by
  intro kind hkind
  rw [kindPlace, hq.kind kind hkind]

section

variable (hpart : a'.IsPartOf a place) (hp : p.Interns a [] kindNumber formNumber)
  (hq : q.Interns a' [] kindNumber' formNumber')

include hpart hp hq

/-- Distinct numbers of kinds are sent to distinct places. -/
theorem injective_kindPlace (spare : Nat) :
    Function.Injective (kindPlace q p kindNumber spare) := by
  have hknown : ∀ {k kind}, q.kinds[k]? = some kind → kind ∈ a.neededKinds ∧ kindNumber' kind = k :=
    fun hk => (hq.of_getElem? hk).imp_left (hpart.neededKinds_subset _)
  intro k l hkl
  unfold kindPlace at hkl
  cases hk : q.kinds[k]? with
  | some kind =>
    have hlt := hp.kindNumber_lt (hknown hk).1
    cases hl : q.kinds[l]? with
    | some kind' =>
      rw [hk, hl] at hkl
      obtain rfl := hp.kinds.injOn (hknown hk).1 (hknown hl).1 hkl
      exact (hknown hk).2.symm.trans (hknown hl).2
    | none =>
      simp only [hk, hl] at hkl
      omega
  | none =>
    cases hl : q.kinds[l]? with
    | some kind' =>
      have hlt := hp.kindNumber_lt (hknown hl).1
      simp only [hk, hl] at hkl
      omega
    | none =>
      simp only [hk, hl] at hkl
      omega

/-- At the place of a kind stands the same kind. -/
theorem kinds_kindPlace (spare k : Nat) :
    p.kinds[kindPlace q p kindNumber spare k]? = q.kinds[k]? := by
  unfold kindPlace
  cases hk : q.kinds[k]? with
  | some kind => exact hp.kind kind (hpart.neededKinds_subset kind (hq.of_getElem? hk).1)
  | none =>
    have hbeyond : p.kinds.size ≤ p.kinds.size + spare + k := by omega
    exact Array.getElem?_eq_none hbeyond

/-- The terminals of a part are in the table of the whole. -/
theorem exists_terminalPlace : ∃ terminalPlace : Nat → Nat,
    (∀ form ∈ a'.neededForms [], formNumber form = terminalPlace (formNumber' form)) ∧
      ∀ t, p.terminal (terminalPlace t) = q.terminal t := by
  have hplace : ∀ t, ∃ u,
      (∀ form ∈ a'.neededForms [], formNumber' form = t → formNumber form = u) ∧
        p.terminal u = q.terminal t := by
    intro t
    by_cases ht : t < q.terminals.size
    · obtain ⟨form, hform, rfl⟩ := hq.terminals.surjOn ht
      refine ⟨formNumber form, fun form' hform' hsame => ?_, ?_⟩
      · rw [hq.terminals.injOn hform' hform hsame]
      · have hwhole := hp.terminal form (hpart.neededForms_subset form hform)
        exact Except.ok.inj (hwhole.symm.trans (hq.terminal form hform))
    · refine ⟨p.terminals.size, fun form hform hsame => ?_, ?_⟩
      · exact absurd (hsame ▸ hq.terminals.mapsTo hform) ht
      · rw [Program.terminal, Program.terminal, Array.getElem?_eq_none (Nat.le_refl _),
          Array.getElem?_eq_none (Nat.le_of_not_lt ht)]
  choose terminalPlace hform hterminal using hplace
  exact ⟨terminalPlace, fun form hmem => hform _ form hmem rfl, hterminal⟩

end

variable {t t' : Tables}

/-- A rule of a part is the one of the whole under other numbers of the kinds and terminals that the
part needs. -/
theorem programRule_place (hpart : a'.IsPartOf a place) {m : Renumbering} (hplace : m.rule = place)
    (hkind : ∀ kind ∈ a'.neededKinds, t.kindNumber kind = m.kind (t'.kindNumber kind))
    (hform : ∀ form ∈ a'.neededForms [],
      (t.forms.number? form).getD 0 = m.terminal ((t'.forms.number? form).getD 0))
    {i : Nat} (hi : i < a'.grammar.rules.length) :
    (a.programRule t (a.ruleSketch (place i), place i)).kind =
        m.kind (a'.programRule t' (a'.ruleSketch i, i)).kind ∧
      (a.programRule t (a.ruleSketch (place i), place i)).hidden =
        (a'.programRule t' (a'.ruleSketch i, i)).hidden ∧
      (a.programRule t (a.ruleSketch (place i), place i)).body =
        m.step (a'.programRule t' (a'.ruleSketch i, i)).body := by
  have hsketch : a'.ruleSketch i ∈ a'.sketches :=
    List.mem_map.mpr ⟨i, List.mem_range.mpr hi, rfl⟩
  have hhidden : ∀ name, a'.grammar.isHidden name = a.grammar.isHidden name := by
    intro name
    rw [hpart.grammar.others]
    rfl
  refine ⟨?_, ?_, ?_⟩
  · simp only [programRule, hpart.ruleKind_place]
    refine hkind _ ?_
    simp only [neededKinds, List.mem_append]
    exact .inl (.inl (.inr (List.mem_map.mpr ⟨i, List.mem_range.mpr hi, rfl⟩)))
  · simp only [programRule, hpart.grammar.ruleName_place, hhidden]
  · simp only [programRule, ← hpart.ruleSketch_eq hi, Renumbering.step, hplace]
    refine Op.map_renumber _ (fun use huse => hform use.form ?_) fun kind hmem => hkind kind ?_
    · simp only [neededForms, List.mem_append]
      exact .inl (.inl (List.mem_map_of_mem (List.mem_flatMap.mpr ⟨_, hsketch, huse⟩)))
    · simp only [neededKinds, List.mem_append]
      exact .inl (.inr (List.mem_flatMap.mpr ⟨_, hsketch, hmem⟩))

/-- The program of a part is embedded in that of the whole. The numbers of kinds beyond its table
may stand for any beyond the other one. -/
theorem exists_embeds (hpart : a'.IsPartOf a place)
    (ht : (a.mentions a.sketches []).foldlM Tables.enter {} = .ok t)
    (ht' : (a'.mentions a'.sketches []).foldlM Tables.enter {} = .ok t') (spare : Nat) :
    ∃ m, (a'.programOver [] t').Embeds (a.programOver [] t) m ∧
      m.kind = kindPlace (a'.programOver [] t') (a.programOver [] t) t.kindNumber spare := by
  have hp := interns_programOver ht
  have hq := interns_programOver ht'
  obtain ⟨terminalPlace, hform, hterminal⟩ := hpart.exists_terminalPlace hp hq
  have hkind : ∀ kind ∈ a'.neededKinds, t.kindNumber kind =
      kindPlace (a'.programOver [] t') (a.programOver [] t) t.kindNumber spare
        (t'.kindNumber kind) := kindPlace_kindNumber hq spare
  have herror : kindPlace (a'.programOver [] t') (a.programOver [] t) t.kindNumber spare errorKind =
      errorKind := by
    simpa only [hp.error, hq.error] using (hkind .error (by simp [neededKinds])).symm
  have hskipped : kindPlace (a'.programOver [] t') (a.programOver [] t) t.kindNumber spare
      skippedKind = skippedKind := by
    simpa only [hp.skipped, hq.skipped] using (hkind .skipped (by simp [neededKinds])).symm
  let m : Renumbering := ⟨place, terminalPlace,
    kindPlace (a'.programOver [] t') (a.programOver [] t) t.kindNumber spare⟩
  have hrule : ∀ r,
      ((a.programOver [] t).rule (place r)).kind = m.kind ((a'.programOver [] t').rule r).kind ∧
      ((a.programOver [] t).rule (place r)).hidden = ((a'.programOver [] t').rule r).hidden ∧
      ((a.programOver [] t).rule (place r)).body =
        m.step ((a'.programOver [] t').rule r).body := by
    intro r
    by_cases hr : r < a'.grammar.rules.length
    · rw [rule_eq rfl hr, rule_eq rfl (hpart.grammar.lt_length.mpr hr)]
      exact hpart.programRule_place rfl hkind hform hr
    · have hwhole : a.grammar.rules.length ≤ place r :=
        Nat.le_of_not_lt fun h => hr (hpart.grammar.lt_length.mp h)
      rw [hq.rule_of_le (Nat.le_of_not_lt hr), hp.rule_of_le hwhole]
      exact ⟨herror.symm, rfl, rfl⟩
  refine ⟨m, ?_, rfl⟩
  constructor
  · exact hpart.grammar.increasing.injective
  · exact hpart.injective_kindPlace hp hq spare
  · exact herror
  · exact hskipped
  · exact hpart.kinds_kindPlace hp hq spare
  · exact hterminal
  · exact fun r => (hrule r).1
  · exact fun r => (hrule r).2.1
  · exact fun r => (hrule r).2.2
  · rw [hp.extras, hq.extras, ← hpart.filterMap_extra?, List.map_map]
    refine List.map_congr_left fun e he => ?_
    rw [Function.comp_apply, Prod.mk.injEq]
    refine ⟨hform _ ?_, hkind _ ?_⟩
    · simp only [neededForms, List.map_nil, List.append_nil, List.mem_append]
      exact .inr (List.mem_map_of_mem he)
    · simp only [neededKinds, List.mem_append]
      exact .inr (List.mem_map_of_mem he)
  · rfl
  · exact hpart.start.symm

/-- The program of a part can be made where that of the whole can. -/
theorem exists_program (hpart : a'.IsPartOf a place) (h : a.program [] = .ok p) :
    ∃ t t', (a.mentions a.sketches []).foldlM Tables.enter {} = .ok t ∧ p = a.programOver [] t ∧
      (a'.mentions a'.sketches []).foldlM Tables.enter {} = .ok t' ∧
        a'.program [] = .ok (a'.programOver [] t') := by
  obtain ⟨t, ht, heq⟩ := Except.of_bind_ok (program_eq_bind a [] ▸ h)
  have hbuild : ∀ form ∈ a.neededForms [], ∃ x, form.terminal = .ok x := fun form hform =>
    ⟨_, (interns_programOver ht).terminal form hform⟩
  have hfew : a.neededKinds.toFinset.card ≤ kindLimit := by
    rcases program_cases hbuild with ⟨hfew, -⟩ | ⟨-, hfull⟩
    · exact hfew
    · cases hfull.symm.trans h
  rcases program_cases (a := a') fun form hform => hbuild form (hpart.neededForms_subset form hform)
    with ⟨-, t', ht', hprogram⟩ | ⟨hmany, -⟩
  · exact ⟨t, t', ht, (Except.ok.inj heq).symm, ht', hprogram⟩
  · refine absurd hfew (Nat.not_le.mpr (Nat.lt_of_lt_of_le hmany (Finset.card_le_card ?_)))
    intro kind hkind
    rw [List.mem_toFinset] at hkind ⊢
    exact hpart.neededKinds_subset kind hkind

end Analysed.IsPartOf

end Packrat
