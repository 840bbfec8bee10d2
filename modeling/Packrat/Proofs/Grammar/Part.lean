import Mathlib.Data.List.NodupEquivFin
import Packrat.Proofs.EndlessRecursion
import Packrat.Proofs.LeftCycles

/-!
# Parts of grammars

Some rules of a grammar are a grammar of their own if they refer to each other only. Every check
that the whole grammar passes is passed by such a part, since what the check looks for in the part,
a repeated name, a flaw, a cycle of left calls, or rules that need each other, is there in the whole
as well.
-/

namespace Packrat

namespace Rule

variable {f f' : String → Bool}

mutual

/-- What is wrong with an expression depends on the names in it. -/
theorem flaw?_congr (inToken : Bool) : (r : Rule) → (∀ name ∈ r.references, f name = f' name) →
    r.flaw? f inToken = r.flaw? f' inToken
  | symbol name, h => by
    rw [flaw?, flaw?, h name List.mem_cons_self]
  | seq members, h => flawAmong?_congr inToken members h
  | choice members, h => flawAmong?_congr inToken members h
  | repetition content _ _, h => flaw?_congr inToken content h
  | token content _, h => flaw?_congr true content h
  | renamed content _ _, h => flaw?_congr inToken content h
  | field _ content, h => flaw?_congr inToken content h
  | blank, _ => rfl
  | literal _, _ => rfl
  | pattern _ _, _ => rfl

/-- The first flaw in a list is the same when the same names of those in it are defined. -/
theorem flawAmong?_congr (inToken : Bool) : (rs : List Rule) →
    (∀ name ∈ referencesAmong rs, f name = f' name) →
    flawAmong? f inToken rs = flawAmong? f' inToken rs
  | [], _ => rfl
  | r :: rs, h => by
    rw [referencesAmong, List.forall_mem_append] at h
    rw [flawAmong?, flawAmong?, flaw?_congr inToken r h.1, flawAmong?_congr inToken rs h.2]

end

mutual

/-- Whether an expression has a way out depends on the names in it. -/
theorem escapes_congr : (r : Rule) → (∀ name ∈ r.references, f name = f' name) →
    r.escapes f = r.escapes f'
  | symbol name, h => by
    rw [escapes, escapes, h name List.mem_cons_self]
  | seq members, h => allEscape_congr members h
  | choice members, h => someEscape_congr members h
  | repetition content _ _, h => by
    rw [escapes, escapes, escapes_congr content h]
  | renamed content _ _, h => escapes_congr content h
  | field _ content, h => escapes_congr content h
  | blank, _ => rfl
  | literal _, _ => rfl
  | pattern _ _, _ => rfl
  | token _ _, _ => rfl

/-- Whether all of some expressions have a way out depends on the rules that they refer to. -/
theorem allEscape_congr : (rs : List Rule) → (∀ name ∈ referencesAmong rs, f name = f' name) →
    allEscape f rs = allEscape f' rs
  | [], _ => rfl
  | r :: rs, h => by
    rw [referencesAmong, List.forall_mem_append] at h
    rw [allEscape, allEscape, escapes_congr r h.1, allEscape_congr rs h.2]

/-- Whether one of some expressions has a way out depends on the rules that they refer to. -/
theorem someEscape_congr : (rs : List Rule) → (∀ name ∈ referencesAmong rs, f name = f' name) →
    someEscape f rs = someEscape f' rs
  | [], _ => rfl
  | r :: rs, h => by
    rw [referencesAmong, List.forall_mem_append] at h
    rw [someEscape, someEscape, escapes_congr r h.1, someEscape_congr rs h.2]

end

/-- Wrappers refer to nothing of their own. -/
theorem references_unwrapped (r : Rule) : r.unwrapped.references = r.references := by
  fun_induction unwrapped r with
  | case1 name content ih => exact ih
  | case2 => rfl

/-- An expression refers to what stands under its roles. -/
theorem mem_references_of_unwrapped {r : Rule} {name : String} (h : r.unwrapped = .symbol name) :
    name ∈ r.references := by
  rw [← references_unwrapped, h]
  exact List.mem_singleton_self name

end Rule

/-- Where nothing comes twice, nothing is found that does. -/
theorem firstRepeated?_eq_none {α : Type} [BEq α] [LawfulBEq α] {seen l : List α}
    (hnodup : l.Nodup) (hnew : ∀ a ∈ l, a ∉ seen) : firstRepeated? seen l = none := by
  induction l generalizing seen with
  | nil => rfl
  | cons a l ih =>
    rw [List.forall_mem_cons] at hnew
    obtain ⟨ha, hl⟩ := List.nodup_cons.mp hnodup
    rw [firstRepeated?, if_neg (by simpa using hnew.1)]
    refine ih hl fun b hb hseen => ?_
    rcases List.mem_cons.mp hseen with rfl | hseen
    · exact ha hb
    · exact hnew.2 b hb hseen

namespace Graph

variable {g : Graph} {members : List Nat} {v w : Nat}

/-- Vertices one of which is a target of another one of them are recursive. -/
theorem isRecursive_of_adj (hv : v ∈ members) (hw : w ∈ members) (h : g.Adj v w) :
    g.isRecursive members = true := by
  match members with
  | [] => cases hv
  | [u] =>
    obtain rfl := List.mem_singleton.mp hv
    obtain rfl := List.mem_singleton.mp hw
    exact List.contains_iff_mem.mpr h
  | _ :: _ :: _ => rfl

end Graph

namespace Grammar

/-- Whether the rules of a grammar are some of those of another one, in the same order, where
`place` tells the numbers that they have there, and all that these rules and the extras refer to is
among them. -/
structure IsPartOf (g' g : Grammar) (place : Nat → Nat) : Prop where
  others : g' = { g with rules := g'.rules }
  rule : ∀ i, g'.rules[i]? = g.rules[place i]?
  increasing : StrictMono place
  distinct : (g.rules.map (·.1)).Nodup
  closed : ∀ rule ∈ g'.rules, ∀ name ∈ rule.2.references, g'.defines name = true
  extras : ∀ extra ∈ g.extras, ∀ name ∈ extra.references, g'.defines name = true

variable {g g' : Grammar} {r : Rule} {name : String} {i j : Nat}

/-- What an expression begins with in a part of a grammar it begins with in the whole. -/
theorem LeftRefers.of_subset (h : g'.LeftRefers r name) (hrules : g'.rules ⊆ g.rules) :
    g.LeftRefers r name := by
  induction h with
  | symbol => exact .symbol
  | seq vanish _ ih => exact .seq (fun e he => (vanish e he).of_subset hrules) ih
  | choice member _ ih => exact .choice member ih
  | repetition _ ih => exact .repetition ih
  | renamed _ ih => exact .renamed ih
  | field _ ih => exact .field ih

namespace IsPartOf

variable {place : Nat → Nat} (hpart : g'.IsPartOf g place)

include hpart

/-- The rules of a part come in the order of the whole. -/
theorem sublist : g'.rules.Sublist g.rules :=
  List.sublist_iff_exists_orderEmbedding_getElem?_eq.mpr
    ⟨OrderEmbedding.ofStrictMono place hpart.increasing, hpart.rule⟩

/-- Names that are given once in the whole are given once in the part. -/
theorem nodup : (g'.rules.map (·.1)).Nodup :=
  (hpart.sublist.map _).nodup hpart.distinct

/-- A part has all extras. -/
theorem extras_eq : g'.extras = g.extras := by
  rw [hpart.others]

/-- The rules of a part stand at places of rules in the whole. -/
theorem lt_length : place i < g.rules.length ↔ i < g'.rules.length := by
  rw [← not_iff_not, Nat.not_lt, Nat.not_lt, ← List.getElem?_eq_none_iff,
    ← List.getElem?_eq_none_iff, hpart.rule]

/-- A rule has the same body in the whole. -/
theorem body_place (i : Nat) : g.body (place i) = g'.body i := by
  rw [body, body, hpart.rule]

/-- A rule has the same name in the whole. -/
theorem ruleName_place (i : Nat) : g.ruleName (place i) = g'.ruleName i := by
  rw [ruleName, ruleName, hpart.rule]

/-- A rule has in the whole grammar the number that `place` tells. -/
theorem number?_place (h : g'.number? name = some i) : g.number? name = some (place i) := by
  obtain ⟨hi, hname⟩ := of_number? h
  have hlt := hpart.lt_length.mpr hi
  obtain ⟨k, hk, -⟩ := number?_of_mem hpart.distinct (mem_rules hlt)
  rw [hpart.ruleName_place, hname] at hk
  obtain ⟨hklt, hkname⟩ := of_number? hk
  have hsame : k = place i := ruleName_inj hpart.distinct hklt hlt (by
    rw [hkname, hpart.ruleName_place, hname])
  rw [hk, hsame]

/-- A name that the part defines stands for the same rule in the whole. -/
theorem exists_number? (h : g'.defines name = true) :
    ∃ i, g'.number? name = some i ∧ g.number? name = some (place i) := by
  obtain ⟨i, hi⟩ := Option.isSome_iff_exists.mp h
  exact ⟨i, hi, hpart.number?_place hi⟩

/-- The rules of the part refer to rules of it. -/
theorem defines_of_body (hi : i < g'.rules.length) (hname : name ∈ (g'.body i).references) :
    g'.defines name = true :=
  hpart.closed _ (mem_rules hi) name hname

/-- Names that the part defines are defined in the whole. -/
theorem defines_eq (h : g'.defines name = true) : g'.defines name = g.defines name := by
  obtain ⟨i, hi, hplace⟩ := hpart.exists_number? h
  simp only [defines, hi, hplace, Option.isSome_some]

/-! ### Checks that a part passes -/

/-- The check of the names passes in a part that has rules. -/
theorem checkNames (hne : g'.rules ≠ []) : g'.checkNames = .ok () := by
  rw [Grammar.checkNames, if_neg (by simpa using hne),
    firstRepeated?_eq_none hpart.nodup (by simp)]

/-- An extra is one in the part just when it is one in the whole. -/
theorem isExtra_eq (hextra : r ∈ g.extras) : g'.isExtra r = g.isExtra r := by
  unfold isExtra
  split
  · rename_i name hname
    obtain ⟨i, hi, hplace⟩ := hpart.exists_number?
      (hpart.extras r hextra name (Rule.mem_references_of_unwrapped hname))
    simp only [find?_eq, hi, hplace, Option.map_some, hpart.body_place]
  · rfl

/-- The check of rules and extras passes in a part if it does in the whole. -/
theorem checkReferences (h : g.checkReferences = .ok ()) : g'.checkReferences = .ok () := by
  obtain ⟨hflawless, hextras⟩ := of_checkReferences h
  have hrule : ∀ rule ∈ g'.rules, g'.checkRule rule.1 rule.2 = .ok () := by
    intro rule hrule
    obtain ⟨i, hi, rfl⟩ := List.getElem_of_mem hrule
    have hbody := hflawless _ (hpart.lt_length.mpr hi)
    rw [hpart.body_place, body_eq hi, ← Rule.flaw?_congr false _ fun name hname =>
      hpart.defines_eq (hpart.closed _ hrule name hname)] at hbody
    rw [checkRule, hbody]
  have hextra : ∀ extra ∈ g'.extras.zipIdx, g'.checkExtra extra = .ok () := by
    intro extra hmem
    have hmem : extra.1 ∈ g.extras := by
      rw [← hpart.extras_eq]
      exact (List.mem_zipIdx hmem).2.2 ▸ List.getElem_mem _
    obtain ⟨hflaw, hsingle⟩ := hextras extra.1 hmem
    rw [← Rule.flaw?_congr false _ fun name hname =>
      hpart.defines_eq (hpart.extras extra.1 hmem name hname)] at hflaw
    rw [← hpart.isExtra_eq hmem] at hsingle
    simp only [checkExtra, checkRule, hflaw, hsingle]
    rfl
  cases hchecked : g'.checkReferences with
  | ok => rfl
  | error e =>
    rcases Except.of_bind_error hchecked with hrules | ⟨_, -, hextras⟩
    · obtain ⟨rule, hmem, herror⟩ := Except.of_forM_error hrules
      cases (hrule rule hmem).symm.trans herror
    · obtain ⟨extra, hmem, herror⟩ := Except.of_forM_error hextras
      cases (hextra extra hmem).symm.trans herror

/-- A cycle of left calls in the part is one in the whole. -/
theorem checkLeftRecursion (h : g.checkLeftRecursion g.nullability = .ok ()) :
    g'.checkLeftRecursion g'.nullability = .ok () := by
  cases hchecked : g'.checkLeftRecursion g'.nullability with
  | ok => rfl
  | error e =>
    obtain ⟨cycle, -, rfl⟩ := of_checkLeftRecursion hchecked
    obtain ⟨hcycle, -⟩ := isCycle_of_checkLeftRecursion hpart.nodup hchecked
    have hwhole : IsCycle g.LeftCalls ((cycle.map g'.ruleName).map id) :=
      hcycle.map fun caller callee ⟨body, hrule, hrefers⟩ =>
        ⟨body, hpart.sublist.subset hrule, hrefers.of_subset hpart.sublist.subset⟩
    exact absurd hwhole (not_isCycle_of_checkLeftRecursion hpart.distinct h)

/-- A reference in the part is one in the whole. -/
theorem adj_place (h : g'.referenceGraph.Adj i j) : g.referenceGraph.Adj (place i) (place j) := by
  obtain ⟨hi, name, hname, hj⟩ := (adj_iff_of_references _).mp h
  rw [← hpart.body_place] at hname
  exact adj_referenceGraph (hpart.lt_length.mpr hi) hname (hpart.number?_place hj)

/-- What can be reached in the part can be reached in the whole. -/
theorem reaches_place (h : g'.referenceGraph.Reaches i j) :
    g.referenceGraph.Reaches (place i) (place j) := by
  induction h with
  | refl => exact .refl _
  | step first _ ih => exact .step (hpart.adj_place first) ih

/-- What a rule of the part leads to in the whole it leads to in the part. -/
theorem exists_reaches {k : Nat} (hi : i < g'.rules.length)
    (h : g.referenceGraph.Reaches (place i) k) :
    ∃ j < g'.rules.length, k = place j ∧ g'.referenceGraph.Reaches i j := by
  generalize hu : place i = u at h
  induction h generalizing i with
  | refl => exact ⟨i, hi, hu.symm, .refl i⟩
  | step first _ ih =>
    subst hu
    obtain ⟨-, name, hname, hk⟩ := (adj_iff_of_references _).mp first
    rw [hpart.body_place] at hname
    obtain ⟨j, hj, hplace⟩ := hpart.exists_number? (hpart.defines_of_body hi hname)
    obtain rfl := Option.some.inj (hplace.symm.trans hk)
    obtain ⟨l, hlt, hl, hrest⟩ := ih (of_number? hj).1 rfl
    exact ⟨l, hlt, hl, .step (adj_referenceGraph hi hname hj) hrest⟩

/-- Rules that need each other in the part are those that do so in the whole. -/
theorem exists_component {group : List Nat} (h : group ∈ g'.referenceGraph.components) :
    ∃ group' ∈ g.referenceGraph.components, ∀ k, k ∈ group' ↔ ∃ j ∈ group, k = place j := by
  have hcomponent := (Graph.components_correct g'.closed_referenceGraph).1 group h
  have hinside := ((Graph.components_guarded g'.closed_referenceGraph).2 group h).2
  rw [size_referenceGraph] at hinside
  obtain ⟨i, hi, -⟩ := id hcomponent
  have hlt := hinside i hi
  obtain ⟨hcomponents, hcover⟩ := Graph.components_correct g.closed_referenceGraph
  obtain ⟨group', hgroup', hi'⟩ := hcover (place i) (by
    rw [size_referenceGraph]
    exact hpart.lt_length.mpr hlt)
  refine ⟨group', hgroup', fun k => ?_⟩
  rw [(hcomponents group' hgroup').mem_iff hi']
  constructor
  · rintro ⟨hik, hki⟩
    obtain ⟨j, hj, rfl, hij⟩ := hpart.exists_reaches hlt hik
    obtain ⟨l, -, hl, hjl⟩ := hpart.exists_reaches hj hki
    obtain rfl := hpart.increasing.injective hl
    exact ⟨j, (hcomponent.mem_iff hi).mpr ⟨hij, hjl⟩, rfl⟩
  · rintro ⟨j, hj, rfl⟩
    obtain ⟨hij, hji⟩ := (hcomponent.mem_iff hi).mp hj
    exact ⟨hpart.reaches_place hij, hpart.reaches_place hji⟩

/-- Rules that need each other have the way out that they have in the whole. -/
theorem checkEscape {start : Option String} {a : Analysis} (h : g.analyze start = .ok a) :
    g'.checkEscape = .ok () := by
  cases hchecked : g'.checkEscape with
  | ok => rfl
  | error e =>
    obtain ⟨group, hgroup, hrecursive, hnone, -⟩ := of_checkEscape hchecked
    have hclosed := g'.closed_referenceGraph
    have hcomponent := (Graph.components_correct hclosed).1 group hgroup
    have hnodup := (List.nodup_flatten.mp (Graph.nodup_components hclosed)).1 group hgroup
    obtain ⟨i, hi, -⟩ := id hcomponent
    obtain ⟨j, hj, hadj⟩ := hcomponent.exists_adj hnodup hrecursive hi
    obtain ⟨group', hgroup', hmem⟩ := hpart.exists_component hgroup
    have hrecursive' := Graph.isRecursive_of_adj ((hmem _).mpr ⟨i, hi, rfl⟩)
      ((hmem _).mpr ⟨j, hj, rfl⟩) (hpart.adj_place hadj)
    have hescape := (escape_of_analyze h group' hgroup').resolve_left (by simp [hrecursive'])
    obtain ⟨k, hk, hescapes⟩ := List.any_eq_true.mp hescape
    obtain ⟨l, hl, rfl⟩ := (hmem k).mp hk
    have hlt : l < g'.rules.length := by
      rw [← size_referenceGraph]
      exact ((Graph.components_guarded hclosed).2 group hgroup).2 l hl
    have hsame : ∀ name ∈ (g'.body l).references,
        g.isAmong group' name = g'.isAmong group name := by
      intro name hname
      obtain ⟨m, hm, hplace⟩ := hpart.exists_number? (hpart.defines_of_body hlt hname)
      rw [Bool.eq_iff_iff, isAmong_eq_true, isAmong_eq_true]
      simp only [hm, hplace, Option.some.injEq, exists_eq_left', hmem,
        hpart.increasing.injective.eq_iff, exists_eq_right']
    rw [hpart.body_place, Rule.escapes_congr _ hsame, hasEscape_eq_false.mp hnone l hl] at hescapes
    cases hescapes

end IsPartOf

end Grammar

end Packrat
