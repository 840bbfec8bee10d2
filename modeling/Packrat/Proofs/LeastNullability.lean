import Mathlib.Order.Basic
import Mathlib.Order.Bounds.Defs
import Packrat.Proofs.Grammar.Vanishing

/-!
# The least solution

The rules can be judged in place: one after the other, each by all that is known by then, until a
pass over them finds nothing new. A pass mixes what was known before it with what it has found
itself, so what it leaves depends on the order of the rules. Where the passes end does not: they
only tell of rules that have a derivation of nothing, and at the end of all of these.
-/

namespace Packrat

namespace Grammar

namespace Nullability

variable {known wider widest : Nullability}

/-- What is known lies within itself. -/
theorem Within.refl (known : Nullability) : known.Within known :=
  List.forall₂_same.mpr fun _ _ => id

/-- What lies within something that lies within more lies within this. -/
theorem Within.trans (h : known.Within wider) (h' : wider.Within widest) : known.Within widest := by
  induction h generalizing widest with
  | nil => exact h'
  | cons hab _ ih =>
    cases h' with
    | cons hbc htail => exact .cons (fun ha => hbc (hab ha)) (ih htail)

/-- Accounts that lie within each other are the same. -/
theorem Within.antisymm (h : known.Within wider) (h' : wider.Within known) : known = wider := by
  by_contra hne
  have hlt := h.count_lt (Ne.symm hne)
  have hle := h'.count_lt hne
  omega

/-- To learn of another rule that it can match nothing only adds to what is known. -/
theorem within_set (known : Nullability) (i : Nat) : known.Within (known.set i true) := by
  induction known generalizing i with
  | nil => exact .nil
  | cons a known ih =>
    cases i with
    | zero => exact .cons (fun _ => rfl) (Within.refl known)
    | succ i => exact .cons id (ih i)

end Nullability

variable {g : Grammar} {known : Nullability} {i : Nat}

/-- What is known after a look at the rule of a number, unless it is known already. -/
def judge (g : Grammar) (known : Nullability) (i : Nat) : Nullability :=
  if known[i]?.getD false then known
  else if (g.body i).isNullable (g.nullableRule known) then known.set i true
  else known

/-- To judge a rule in place only adds to what is known. -/
theorem within_judge : known.Within (g.judge known i) := by
  unfold judge
  split
  · exact .refl known
  · split
    · exact known.within_set i
    · exact .refl known

/-- To judge a rule in place tells of a derivation of nothing only if there is one. -/
theorem IsSound.judge (h : g.IsSound known) : g.IsSound (g.judge known i) := by
  unfold Grammar.judge
  split
  · exact h
  · split
    · rename_i hbody
      intro j hj
      by_cases hij : i = j
      · exact hij ▸ h.vanishes hbody
      · exact h j (by simpa [List.getElem?_set_ne hij] using hj)
    · exact h

/-- A look that finds nothing new leaves no rule out that it has looked at. -/
theorem getD_of_judge_eq (h : g.judge known i = known) (hi : i < known.length)
    (hbody : (g.body i).isNullable (g.nullableRule known) = true) :
    known[i]?.getD false = true := by
  unfold judge at h
  rw [if_pos hbody] at h
  split at h
  · assumption
  · rw [← h, List.getElem?_set_self hi, Option.getD_some]

/-- To judge rules one after the other only adds to what is known. -/
theorem within_foldl_judge (is : List Nat) : known.Within (is.foldl g.judge known) := by
  induction is generalizing known with
  | nil => exact .refl known
  | cons i is ih => exact within_judge.trans ih

/-- To judge rules one after the other tells only of those that have a derivation of nothing. -/
theorem IsSound.foldl_judge (h : g.IsSound known) (is : List Nat) :
    g.IsSound (is.foldl g.judge known) := by
  induction is generalizing known with
  | nil => exact h
  | cons i is ih => exact ih h.judge

/-- Where some looks find nothing new together, none of them does. -/
theorem judge_eq_of_foldl {is : List Nat} (h : is.foldl g.judge known = known) :
    ∀ i ∈ is, g.judge known i = known := by
  induction is with
  | nil => nofun
  | cons i is ih =>
    have hback : (g.judge known i).Within known := by
      have hrest : (g.judge known i).Within (is.foldl g.judge (g.judge known i)) :=
        within_foldl_judge is
      rwa [← List.foldl_cons, h] at hrest
    have hfirst : g.judge known i = known := hback.antisymm within_judge
    rw [List.foldl_cons, hfirst] at h
    exact List.forall_mem_cons.mpr ⟨hfirst, ih h⟩

/-- A pass over the rules in their order, each judged by what is known by then. -/
def pass (g : Grammar) (known : Nullability) : Nullability :=
  (List.range g.rules.length).foldl g.judge known

/-- A pass over the rules only adds to what is known. -/
theorem within_pass (g : Grammar) (known : Nullability) : known.Within (g.pass known) :=
  within_foldl_judge _

/-- Passes over the rules until one of them changes nothing. Every other pass finds a further rule,
so they come to an end. -/
def settle (g : Grammar) (known : Nullability) : Nullability :=
  let wider := g.pass known
  if wider = known then known else g.settle wider
termination_by known.length - known.count true
decreasing_by
  rename_i hnew
  have hwithin := g.within_pass known
  have hcount := hwithin.count_lt hnew
  have hlength : known.length = (g.pass known).length := List.Forall₂.length_eq hwithin
  have hle := (g.pass known).count_le_length (a := true)
  omega

/-- A pass that finds nothing new has judged all rules by what is known in the end. -/
theorem isSettled_of_pass (h : g.pass known = known) (hlength : known.length = g.rules.length) :
    g.IsSettled known :=
  fun i hi hbody => getD_of_judge_eq (judge_eq_of_foldl h i (List.mem_range.mpr hi))
    (hlength ▸ hi) hbody

/-- What is known at the end of the passes is sound, and another look finds nothing new. -/
theorem settle_spec (h : g.IsSound known) (hlength : known.length = g.rules.length) :
    g.IsSound (g.settle known) ∧ g.IsSettled (g.settle known) ∧
      (g.settle known).length = g.rules.length := by
  fun_induction settle g known with
  | case1 known wider hfixed => exact ⟨h, isSettled_of_pass hfixed hlength, hlength⟩
  | case2 known wider hnew ih =>
    exact ih (h.foldl_judge _) ((List.Forall₂.length_eq (g.within_pass known)).symm.trans hlength)

/-- Judging the rules in place comes to the same as looking at all of them at once. -/
theorem settle_eq_nullability (hnames : (g.rules.map (·.1)).Nodup) :
    g.settle (g.rules.map fun _ => false) = g.nullability := by
  obtain ⟨hsound, hsettled, hlength⟩ := settle_spec (g := g) isSound_none (by simp)
  exact hsettled.unique hnames hsound g.isSettled_nullability g.isSound_nullability hlength
    g.length_nullability

/-- Derivations of nothing are what the least names closed under the rules tell of. -/
theorem isLeast_nullableRule (hnames : (g.rules.map (·.1)).Nodup) :
    IsLeast {f | g.Closed f} (g.nullableRule g.nullability) := by
  refine ⟨g.isSettled_nullability.closed hnames, fun f hf name hname => ?_⟩
  have hvanishes : g.Vanishes (.symbol name) := g.isSound_nullability.vanishes hname
  exact hvanishes.isNullable hf

/-- Nullability is the least solution. In a grammar whose rules have distinct names, the passes over
the rules end with the account of the analysis. It solves the equations of the rules, and its names
are the least ones that are closed under them: a rule is told if and only if its expression has a
finite derivation of nothing, in whatever order the rules stand. -/
theorem nullability_least (hnames : (g.rules.map (·.1)).Nodup) :
    g.settle (g.rules.map fun _ => false) = g.nullability ∧
      (∀ rule ∈ g.rules, g.nullableRule g.nullability rule.1 =
        rule.2.isNullable (g.nullableRule g.nullability)) ∧
      IsLeast {f | g.Closed f} (g.nullableRule g.nullability) ∧
      (∀ i (hi : i < g.rules.length),
        g.nullability[i]? = some true ↔ g.Vanishes g.rules[i].2) ∧
      ∀ g' : Grammar, g'.rules.Perm g.rules →
        g'.nullableRule g'.nullability = g.nullableRule g.nullability := by
  refine ⟨settle_eq_nullability hnames, fun rule hrule => ?_, isLeast_nullableRule hnames,
    fun i hi => ?_, fun g' hperm => ?_⟩
  · obtain ⟨i, hnumber, hbody⟩ := number?_of_mem hnames hrule
    rw [nullableRule_of_number? hnumber, getD_nullability (of_number? hnumber).1, hbody]
  · have hjudged := getD_nullability hi
    rw [body_eq hi] at hjudged
    rw [← isNullable_iff_vanishes hnames, ← hjudged]
    simp [hi, length_nullability]
  · have hnames' : (g'.rules.map (·.1)).Nodup := (hperm.map _).nodup_iff.mpr hnames
    funext name
    have hvanishes : g'.Vanishes (.symbol name) ↔ g.Vanishes (.symbol name) :=
      ⟨fun h => h.of_subset hperm.subset, fun h => h.of_subset hperm.symm.subset⟩
    rw [← isNullable_iff_vanishes hnames', ← isNullable_iff_vanishes hnames] at hvanishes
    exact Bool.eq_iff_iff.mpr hvanishes

/-- An item may be a list, and a list may be empty. The second pass finds that of lists, after it
has looked at the start rule. -/
def emptyLists : Grammar where
  name := "emptyLists"
  rules := [
    ("s", .seq [.symbol "list", .symbol "stop"]),
    ("list", .choice [.seq [.symbol "item", .symbol "list"], .symbol "stop"]),
    ("item", .choice [.literal "n", .seq [.symbol "list", .literal ","]]),
    ("stop", .choice [.literal ";", .blank])]

/-- Lists that may be empty: the passes end with the three rules that can match nothing. -/
theorem nullability_least_emptyLists :
    emptyLists.settle [false, false, false, false] = [true, true, false, true] ∧
      IsLeast {f | emptyLists.Closed f} (emptyLists.nullableRule [true, true, false, true]) ∧
      emptyLists.Vanishes (.seq [.symbol "list", .symbol "stop"]) ∧
      ¬ emptyLists.Vanishes (.choice [.literal "n", .seq [.symbol "list", .literal ","]]) := by
  have hnullability : emptyLists.nullability = [true, true, false, true] := by rfl
  obtain ⟨hsettle, -, hleast, hvanishes, -⟩ := nullability_least (g := emptyLists) (by decide)
  rw [hnullability] at hsettle hleast hvanishes
  exact ⟨hsettle, hleast, (hvanishes 0 (by decide)).mp rfl, mt (hvanishes 2 (by decide)).mpr nofun⟩

/-- One pass does not find all that the rules stand for. -/
example : emptyLists.pass [false, false, false, false] = [false, false, false, true] ∧
    emptyLists.pass [false, false, false, true] = [false, true, false, true] := ⟨rfl, rfl⟩

end Grammar

end Packrat
