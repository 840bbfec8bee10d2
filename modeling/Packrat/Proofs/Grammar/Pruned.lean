import Packrat.Proofs.Grammar.Part
import Packrat.Proofs.Graph.Reachable

/-!
# Grammars without unreachable rules

An analysis tells which rules the start rule or an extra leads to. These rules are a part of the
grammar, so the grammar is accepted without the others, and starts with the same rule.
-/

namespace Packrat

namespace Grammar

/-- `g.IsNeeded start i` says that the start rule is the rule of a number or that it, or an extra,
leads to that rule through references. -/
inductive IsNeeded (g : Grammar) (start : Option String) : Nat → Prop
  | start {name i} (chosen : start.or g.startRule? = some name) (number : g.number? name = some i) :
      IsNeeded g start i
  | extra {extra name i} (member : extra ∈ g.extras) (refers : name ∈ extra.references)
      (number : g.number? name = some i) : IsNeeded g start i
  | reference {i name j} (needed : IsNeeded g start i) (refers : name ∈ (g.body i).references)
      (number : g.number? name = some j) : IsNeeded g start j

/-- The grammar without the rules that are not reached. -/
def pruned (g : Grammar) (reached : List Bool) : Grammar :=
  { g with
    rules := (g.rules.zip reached).filterMap fun rule => if rule.2 then some rule.1 else none }

variable {g : Grammar} {start : Option String} {a : Analysis} {i : Nat}

/-- A rule that is needed is one of the grammar. -/
theorem IsNeeded.lt_length (h : g.IsNeeded start i) : i < g.rules.length := by
  cases h with
  | start _ number => exact (of_number? number).1
  | extra _ _ number => exact (of_number? number).1
  | reference _ _ number => exact (of_number? number).1

/-- An analysis starts with the rule of the chosen name. -/
theorem exists_startName (h : g.analyze start = .ok a) :
    ∃ name, start.or g.startRule? = some name ∧ g.number? name = some a.start := by
  unfold analyze at h
  split at h
  · rename_i name hname
    obtain ⟨⟨⟩, -, h⟩ := Except.of_bind_ok h
    split at h
    · cases h
    · rename_i i hi
      obtain ⟨⟨⟩, -, h⟩ := Except.of_bind_ok h
      obtain ⟨⟨⟩, -, h⟩ := Except.of_bind_ok h
      obtain ⟨⟨⟩, -, h⟩ := Except.of_bind_ok h
      cases h
      exact ⟨name, hname, hi⟩
  · cases h

/-- The rules that the start rule and the extras lead to are the ones that are needed. -/
theorem exists_reaches_iff {name : String} {first : Nat} (hname : start.or g.startRule? = some name)
    (hfirst : g.number? name = some first) :
    (∃ v ∈ first :: g.extras.flatMap fun extra => extra.references.filterMap g.number?,
      g.referenceGraph.Reaches v i) ↔ g.IsNeeded start i := by
  constructor
  · rintro ⟨v, hv, hreaches⟩
    have hneeded : g.IsNeeded start v := by
      rcases List.mem_cons.mp hv with rfl | hv
      · exact .start hname hfirst
      · obtain ⟨extra, hextra, hv⟩ := List.mem_flatMap.mp hv
        obtain ⟨target, htarget, hnumber⟩ := List.mem_filterMap.mp hv
        exact .extra hextra htarget hnumber
    clear hv
    induction hreaches with
    | refl => exact hneeded
    | step edge _ ih =>
      obtain ⟨-, target, htarget, hnumber⟩ := (adj_iff_of_references _).mp edge
      exact ih (.reference hneeded htarget hnumber)
  · intro hneeded
    induction hneeded with
    | start chosen number =>
      cases chosen.symm.trans hname
      cases number.symm.trans hfirst
      exact ⟨first, List.mem_cons_self, .refl first⟩
    | extra member refers number =>
      refine ⟨_, List.mem_cons_of_mem first (List.mem_flatMap.mpr ⟨_, member, ?_⟩), .refl _⟩
      exact List.mem_filterMap.mpr ⟨_, refers, number⟩
    | reference needed refers number ih =>
      obtain ⟨v, hv, hreaches⟩ := ih
      refine ⟨v, hv, hreaches.trans (.single ?_)⟩
      exact adj_referenceGraph needed.lt_length refers number

/-- An analysis tells exactly which rules are needed. -/
theorem reachable_iff (h : g.analyze start = .ok a) :
    a.reachable[i]? = some true ↔ g.IsNeeded start i := by
  obtain ⟨name, hname, hstart⟩ := exists_startName h
  have hstarts : ∀ i ∈ a.start :: g.extras.flatMap fun extra =>
      extra.references.filterMap g.number?, i < g.referenceGraph.size := by
    intro i hi
    rw [size_referenceGraph]
    exact ((exists_reaches_iff hname hstart).mp ⟨i, hi, .refl i⟩).lt_length
  have hreachable : a.reachable = g.reachability a.start :=
    congrArg Analysis.reachable (accepted_of_analyze h).analysis
  rw [hreachable, ← exists_reaches_iff hname hstart,
    ← Graph.mem_reachable_iff g.closed_referenceGraph hstarts]
  simp only [reachability, List.getElem?_map, Option.map_eq_some_iff, List.getElem?_eq_some_iff,
    List.length_range, List.getElem_range, List.contains_iff_mem]
  constructor
  · rintro ⟨_, ⟨-, rfl⟩, hmem⟩
    exact hmem
  · intro hmem
    have hlt := ((exists_reaches_iff hname hstart).mp
      ((Graph.mem_reachable_iff g.closed_referenceGraph hstarts).mp hmem)).lt_length
    exact ⟨i, ⟨hlt, rfl⟩, hmem⟩

/-- The rules that are left are those that can be reached. -/
theorem mem_rules_pruned {reached : List Bool} {rule : String × Rule} :
    rule ∈ (g.pruned reached).rules ↔
      ∃ i : Nat, g.rules[i]? = some rule ∧ reached[i]? = some true := by
  rw [pruned, List.mem_filterMap]
  constructor
  · rintro ⟨⟨kept, reaches⟩, hmem, hkept⟩
    obtain ⟨i, hi⟩ := List.mem_iff_getElem?.mp hmem
    obtain ⟨hrule, hreached⟩ := List.getElem?_zip_eq_some.mp hi
    cases reaches with
    | true => exact ⟨i, Option.some.inj hkept ▸ hrule, hreached⟩
    | false => cases hkept
  · rintro ⟨i, hrule, hreached⟩
    exact ⟨(rule, true),
      List.mem_iff_getElem?.mpr ⟨i, List.getElem?_zip_eq_some.mpr ⟨hrule, hreached⟩⟩, rfl⟩

/-- The rules that are left come in their order. -/
theorem sublist_pruned (reached : List Bool) : (g.pruned reached).rules.Sublist g.rules := by
  have hkept : ∀ (rules : List (String × Rule)) (reached : List Bool),
      ((rules.zip reached).filterMap fun rule =>
        if rule.2 then some rule.1 else none).Sublist rules := by
    intro rules
    induction rules with
    | nil => exact fun _ => List.Sublist.slnil
    | cons rule rules ih =>
      intro reached
      cases reached with
      | nil => exact List.nil_sublist _
      | cons reaches reached =>
        cases reaches with
        | true => exact (ih reached).cons_cons rule
        | false => exact (ih reached).cons rule
  exact hkept g.rules reached

/-- A rule that is needed is kept. -/
theorem defines_pruned {name : String} (h : g.analyze start = .ok a)
    (hnumber : g.number? name = some i) (hneeded : g.IsNeeded start i) :
    (g.pruned a.reachable).defines name = true := by
  have hnodup := ((g.sublist_pruned a.reachable).map (·.1)).nodup (nodup_of_analyze h)
  have hrule : (g.ruleName i, g.body i) ∈ (g.pruned a.reachable).rules := by
    refine mem_rules_pruned.mpr ⟨i, ?_, (reachable_iff h).mpr hneeded⟩
    simp [ruleName, body, hneeded.lt_length]
  obtain ⟨j, hj, -⟩ := number?_of_mem hnodup hrule
  rw [(of_number? hnumber).2] at hj
  rw [defines, hj, Option.isSome_some]

/-- What an accepted grammar needs is a part of it. -/
theorem exists_isPartOf_pruned (h : g.analyze start = .ok a) :
    ∃ place, (g.pruned a.reachable).IsPartOf g place := by
  obtain ⟨place, hplace⟩ :=
    List.sublist_iff_exists_orderEmbedding_getElem?_eq.mp (g.sublist_pruned a.reachable)
  obtain ⟨hflawless, hextras⟩ := of_checkReferences (accepted_of_analyze h).references
  refine ⟨place, rfl, hplace, place.strictMono, nodup_of_analyze h, fun rule hrule name hname => ?_,
    fun extra hextra name hname => ?_⟩
  · obtain ⟨i, hi, hreached⟩ := mem_rules_pruned.mp hrule
    obtain ⟨hlt, rfl⟩ := List.getElem?_eq_some_iff.mp hi
    rw [← body_eq hlt] at hname
    obtain ⟨j, hj⟩ := Option.isSome_iff_exists.mp
      ((g.body i).defined_of_references (hflawless i hlt) hname)
    exact defines_pruned h hj (.reference ((reachable_iff h).mp hreached) hname hj)
  · obtain ⟨j, hj⟩ := Option.isSome_iff_exists.mp
      (extra.defined_of_references (hextras extra hextra).1 hname)
    exact defines_pruned h hj (.extra hextra hname hj)

/-- Where the first rule is the start rule, it is the first one that is kept. -/
theorem startName_pruned (h : g.analyze start = .ok a) :
    start.or (g.pruned a.reachable).startRule? = start.or g.startRule? := by
  obtain ⟨name, hname, hnumber⟩ := exists_startName h
  have hreached := (reachable_iff h).mpr (.start hname hnumber)
  cases start with
  | some _ => rfl
  | none =>
    rw [Option.none_or, Option.none_or]
    rw [Option.none_or] at hname
    cases hchosen : g.start with
    | some chosen => simp only [startRule?, pruned, hchosen]
    | none =>
      simp only [startRule?, hchosen] at hname
      obtain ⟨rule, hrule, rfl⟩ := Option.map_eq_some_iff.mp hname
      obtain ⟨rules, hrules⟩ := List.head?_eq_some_iff.mp hrule
      have hfirst : a.start = 0 := by
        simpa [number?, hrules, List.findIdx?_cons] using hnumber.symm
      rw [hfirst, ← List.head?_eq_getElem?] at hreached
      obtain ⟨reached, hreached⟩ := List.head?_eq_some_iff.mp hreached
      simp only [startRule?, pruned, hchosen, hrules, hreached, List.zip_cons_cons,
        List.filterMap_cons, if_true, List.head?_cons]

/-- A grammar is accepted without the rules that it does not need, and starts with the same one. -/
theorem exists_analyze_pruned (h : g.analyze start = .ok a) :
    ∃ place a', (g.pruned a.reachable).IsPartOf g place ∧
      (g.pruned a.reachable).analyze start = .ok a' ∧ place a'.start = a.start := by
  obtain ⟨place, hpart⟩ := exists_isPartOf_pruned h
  obtain ⟨name, hname, hstart⟩ := exists_startName h
  obtain ⟨i, hi, hplace⟩ :=
    hpart.exists_number? (defines_pruned h hstart (.start hname hstart))
  have haccepted := accepted_of_analyze h
  have hne : (g.pruned a.reachable).rules ≠ [] :=
    List.ne_nil_of_length_pos (Nat.zero_lt_of_lt (of_number? hi).1)
  rw [← startName_pruned h] at hname
  have hanalyze := analyze_of_checks (hpart.checkNames hne) hname hi
    (hpart.checkReferences haccepted.references)
  rw [hpart.checkLeftRecursion haccepted.leftRecursion, hpart.checkEscape h] at hanalyze
  exact ⟨place, _, hpart, hanalyze, Option.some.inj (hplace.symm.trans hstart)⟩

end Grammar

end Packrat
