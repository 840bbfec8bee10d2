import Packrat.Grammar.Recursion
import Packrat.Proofs.Grammar.Nullability
import Packrat.Proofs.Graph.Cycle
import Packrat.Proofs.Terminal.Scan

/-!
# Layers of rules

A grammar without left recursion has its rules on layers: the rules that an expression refers to
before anything was matched lie below its own rule. The same check can be made of the grammar in
which a sequence may end early, behind its first member; it is stronger, as more expressions can
match nothing there.
-/

namespace Packrat

namespace Rule

/-- Some members in order, of which all but the first may be left out together if `early` says
so. -/
def sequence (early : Bool) : List Rule → Rule
  | [] => seq []
  | r :: rs => if early then choice [seq (r :: rs), r] else seq (r :: rs)

mutual

/-- The expression in which every sequence may end early if `early` says so. -/
def endingEarly (early : Bool) : Rule → Rule
  | seq members => sequence early (endingEarlyAll early members)
  | choice members => choice (endingEarlyAll early members)
  | repetition content min max => repetition (content.endingEarly early) min max
  | renamed content name named => renamed (content.endingEarly early) name named
  | field name content => field name (content.endingEarly early)
  | r => r

/-- The same for a list. -/
def endingEarlyAll (early : Bool) : List Rule → List Rule
  | [] => []
  | r :: rs => r.endingEarly early :: endingEarlyAll early rs

end

mutual

/-- The single terminals in an expression. -/
def leaves : Rule → List Rule
  | literal text => [literal text]
  | pattern source flags => [pattern source flags]
  | token content immediate => [token content immediate]
  | seq members => leavesAmong members
  | choice members => leavesAmong members
  | repetition content _ _ => content.leaves
  | renamed content _ _ => content.leaves
  | field _ content => content.leaves
  | _ => []

/-- The same for a list. -/
def leavesAmong : List Rule → List Rule
  | [] => []
  | r :: rs => r.leaves ++ leavesAmong rs

end

mutual

/-- An expression in which no sequence may end early is what it is. -/
@[simp] theorem endingEarly_false : (r : Rule) → r.endingEarly false = r
  | seq members => by
    rw [endingEarly, endingEarlyAll_false members]
    cases members <;> rfl
  | choice members => by rw [endingEarly, endingEarlyAll_false members]
  | repetition content _ _ => by rw [endingEarly, endingEarly_false content]
  | renamed content _ _ => by rw [endingEarly, endingEarly_false content]
  | field _ content => by rw [endingEarly, endingEarly_false content]
  | blank => rfl
  | literal _ => rfl
  | pattern _ _ => rfl
  | symbol _ => rfl
  | token _ _ => rfl

/-- The same for a list. -/
theorem endingEarlyAll_false : (rs : List Rule) → endingEarlyAll false rs = rs
  | [] => rfl
  | r :: rs => by rw [endingEarlyAll, endingEarly_false r, endingEarlyAll_false rs]

end

variable {f : String → Bool} {early : Bool}

/-- A sequence that may end early can match nothing if its first member can. -/
theorem isNullable_sequence_cons {r : Rule} {rs : List Rule} :
    (sequence early (r :: rs)).isNullable f = true ↔
      r.isNullable f = true ∧ (early = true ∨ allNullable f rs = true) := by
  cases early with
  | false => simp [sequence, isNullable, allNullable]
  | true =>
    simp only [sequence, if_true, isNullable, allNullable, someNullable, Bool.or_false,
      Bool.or_eq_true, Bool.and_eq_true, true_or, and_true]
    exact or_iff_right_of_imp And.left

/-- What a sequence refers to first does not depend on whether it may end early. -/
theorem mem_leftReferences_sequence {rs : List Rule} {name : String} :
    name ∈ (sequence early rs).leftReferences f ↔ name ∈ leftReferencesOfSeq f rs := by
  cases rs with
  | nil => rfl
  | cons r rs =>
    cases early with
    | false => rfl
    | true =>
      simp only [sequence, if_true, leftReferences, leftReferencesAmong, leftReferencesOfSeq,
        List.mem_append]
      tauto

/-- A terminal is its own leaf, without its wrappers. -/
theorem isTerminal_mem_leaves {r : Rule} (h : r.isTerminal = true) : r.unwrapped ∈ r.leaves := by
  fun_induction unwrapped r with
  | case1 _ _ ih => exact ih h
  | case2 r hr =>
    rw [isTerminal_eq] at h
    cases r with
    | field => exact absurd rfl (hr _ _)
    | literal => exact List.mem_singleton_self _
    | pattern => exact List.mem_singleton_self _
    | token => exact List.mem_singleton_self _
    | _ => cases h

/-- A single terminal has no sequences that might end early. -/
theorem isNullable_endingEarly_of_isTerminal {r : Rule} (h : r.isTerminal = true) :
    (r.endingEarly early).isNullable f = r.isNullable f := by
  fun_induction unwrapped r with
  | case1 _ _ ih => exact ih h
  | case2 r hr =>
    rw [isTerminal_eq] at h
    cases r with
    | field => exact absurd rfl (hr _ _)
    | literal => rfl
    | pattern => rfl
    | token => rfl
    | _ => cases h

/-- A reference stays one where sequences may end early. -/
theorem unwrapped_endingEarly_of_symbol {r : Rule} {name : String}
    (h : r.unwrapped = .symbol name) : (r.endingEarly early).unwrapped = .symbol name := by
  fun_induction unwrapped r with
  | case1 _ _ ih => exact ih h
  | case2 r hr =>
    subst h
    rfl

/-- Wrappers begin with nothing of their own. -/
theorem leftReferences_unwrapped (r : Rule) :
    r.unwrapped.leftReferences f = r.leftReferences f := by
  fun_induction unwrapped r with
  | case1 _ _ ih => simpa only [leftReferences] using ih
  | case2 r hr => rfl

end Rule

/-- Whether a terminal matches nothing at some place of some text. -/
def Terminal.MayBeEmpty (t : Terminal) : Prop :=
  ∃ text position, (t.scanAt text position).length = some 0

/-- A literal that matches nothing somewhere is empty. -/
theorem Terminal.eq_empty_of_mayBeEmpty {text : String} (h : (literal text).MayBeEmpty) :
    text = "" := by
  obtain ⟨whole, position, hlength⟩ := h
  unfold scanAt at hlength
  split at hlength
  · simp only [scan] at hlength
    cases hchars : text.toList with
    | nil => simpa using hchars
    | cons c cs =>
      rw [hchars] at hlength
      have hpos := Char.utf8Size_pos c
      rename_i spot _
      cases hrest : spot.rest with
      | nil => simp [hrest, literalScan] at hlength
      | cons d ds =>
        rw [hrest, literalScan] at hlength
        split at hlength
        · obtain ⟨-, ws, -, -, hn⟩ := exists_of_literalScan_length hlength
          omega
        · simp at hlength
  · simp at hlength

/-- Whether every terminal in an expression that may match nothing is judged so. -/
def Rule.JudgesEmpty (r : Rule) : Prop :=
  ∀ leaf ∈ r.leaves, ∀ t, leaf.terminal? = some t → t.MayBeEmpty →
    leaf.isNullable (fun _ => false) = true

/-- The leaves of a list are those of each in order. -/
theorem Rule.leavesAmong_eq_flatMap (rs : List Rule) : leavesAmong rs = rs.flatMap leaves := by
  induction rs with
  | nil => rfl
  | cons r rs ih => rw [leavesAmong, ih, List.flatMap_cons]

/-- The terminals in a sequence are judged well when those in each member are. -/
theorem Rule.judgesEmpty_seq {rs : List Rule} :
    (seq rs).JudgesEmpty ↔ ∀ r ∈ rs, r.JudgesEmpty := by
  simp only [JudgesEmpty, leaves, leavesAmong_eq_flatMap, List.forall_mem_flatMap]

/-- The terminals in a choice are judged well when those in each member are. -/
theorem Rule.judgesEmpty_choice {rs : List Rule} :
    (choice rs).JudgesEmpty ↔ ∀ r ∈ rs, r.JudgesEmpty := by
  simp only [JudgesEmpty, leaves, leavesAmong_eq_flatMap, List.forall_mem_flatMap]

/-- Literals that are not empty match something. -/
theorem Rule.judgesEmpty_of_literals {r : Rule}
    (h : ∀ leaf ∈ r.leaves, ∃ text, leaf = .literal text ∧ text ≠ "") : r.JudgesEmpty := by
  intro leaf hleaf t ht hempty
  obtain ⟨text, rfl, htext⟩ := h leaf hleaf
  obtain rfl : Terminal.literal text = t := Option.some.inj ht
  exact absurd (Terminal.eq_empty_of_mayBeEmpty hempty) htext

/-- A single terminal that may match nothing is judged so, whatever rules can. -/
theorem Rule.JudgesEmpty.isNullable {r : Rule} (h : r.JudgesEmpty) (hr : r.isTerminal = true)
    {t : Terminal} (ht : r.terminal? = some t) (hempty : t.MayBeEmpty) (f : String → Bool) :
    r.isNullable f = true := by
  rw [← terminal?_unwrapped] at ht
  rw [← isNullable_unwrapped]
  exact r.unwrapped.isNullable_mono (by simp) (h _ (isTerminal_mem_leaves hr) t ht hempty)

namespace Grammar

/-- The grammar in which every sequence may end early if `early` says so. -/
def endingEarly (g : Grammar) (early : Bool) : Grammar :=
  { g with rules := g.rules.map fun rule => (rule.1, rule.2.endingEarly early) }

/-- Whether every terminal in the rules that may match nothing is judged so. -/
def JudgesEmpty (g : Grammar) : Prop := ∀ rule ∈ g.rules, rule.2.JudgesEmpty

variable {g : Grammar} {early : Bool}

/-- There are as many rules where sequences may end early. -/
@[simp] theorem length_endingEarly : (g.endingEarly early).rules.length = g.rules.length := by
  simp [endingEarly]

/-- The rules have the same numbers where sequences may end early. -/
@[simp] theorem number?_endingEarly (name : String) :
    (g.endingEarly early).number? name = g.number? name := by
  simp only [number?, endingEarly, List.findIdx?_map]
  rfl

/-- A grammar in which no sequence may end early is what it is. -/
@[simp] theorem endingEarly_false : g.endingEarly false = g := by
  simp [endingEarly]

/-- The body of a rule is its former body with sequences that may end early. -/
theorem body_endingEarly (i : Nat) :
    (g.endingEarly early).body i = (g.body i).endingEarly early := by
  simp only [body, endingEarly, List.getElem?_map, Option.map_map]
  cases g.rules[i]? <;> rfl

/-- The terminals in the body of a rule are judged well when all in the grammar are. -/
theorem JudgesEmpty.body (h : g.JudgesEmpty) {i : Nat} (hi : i < g.rules.length) :
    (g.body i).JudgesEmpty := by
  rw [body_eq hi]
  exact h _ (List.getElem_mem hi)

/-- The rules of a grammar without left recursion lie on layers, each above those that it refers
to before anything was matched. -/
theorem exists_layers {known : Nullability} (h : g.checkLeftRecursion known = .ok ()) :
    ∃ (layer : Nat → Nat) (top : Nat), (∀ i, layer i ≤ top) ∧ ∀ i < g.rules.length,
      ∀ name ∈ (g.body i).leftReferences (g.nullableRule known), ∀ j,
        g.number? name = some j → layer j < layer i := by
  unfold checkLeftRecursion at h
  simp only at h
  split at h
  · cases h
  · rename_i hnone
    obtain ⟨layer, top, htop, hlayer⟩ := Graph.exists_layers (Graph.ends_of_cycle? hnone)
    refine ⟨layer, top, htop, fun i hi name hname j hj => hlayer i j ?_⟩
    exact (adj_iff_of_references _).mpr ⟨hi, name, hname, hj⟩

end Grammar

end Packrat
