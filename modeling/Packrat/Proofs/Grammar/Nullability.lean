import Mathlib.Data.List.Forall2
import Packrat.Proofs.Grammar.Checked

/-!
# The rules that can match nothing

The more rules can match nothing, the more expressions can. So every look at the rules only finds
further ones, and as there are finitely many, the last look has found all: what is judged of a rule
is what is judged of its expression.
-/

namespace Packrat

namespace Rule

variable {f f' : String → Bool}

mutual

/-- An expression that can match nothing still can when more rules can. -/
theorem isNullable_mono (h : ∀ name, f name = true → f' name = true) : (r : Rule) →
    r.isNullable f = true → r.isNullable f' = true
  | blank, hr => hr
  | literal _, hr => hr
  | pattern _ _, hr => hr
  | symbol name, hr => h name hr
  | seq members, hr => allNullable_mono h members hr
  | choice members, hr => someNullable_mono h members hr
  | repetition content _ _, hr => by
    simp only [isNullable, Bool.or_eq_true] at hr ⊢
    exact hr.imp_right (isNullable_mono h content)
  | token content _, hr => isNullable_mono h content hr
  | renamed content _ _, hr => isNullable_mono h content hr
  | field _ content, hr => isNullable_mono h content hr

/-- If more rules can match nothing, all of some expressions still can. -/
theorem allNullable_mono (h : ∀ name, f name = true → f' name = true) : (rs : List Rule) →
    allNullable f rs = true → allNullable f' rs = true
  | [], _ => rfl
  | r :: rs, hrs => by
    simp only [allNullable, Bool.and_eq_true] at hrs ⊢
    exact hrs.imp (isNullable_mono h r) (allNullable_mono h rs)

/-- If more rules can match nothing, one of some expressions still can. -/
theorem someNullable_mono (h : ∀ name, f name = true → f' name = true) : (rs : List Rule) →
    someNullable f rs = true → someNullable f' rs = true
  | [], hrs => hrs
  | r :: rs, hrs => by
    simp only [someNullable, Bool.or_eq_true] at hrs ⊢
    exact hrs.imp (isNullable_mono h r) (someNullable_mono h rs)

end

/-- All of some expressions can match nothing when each of them can. -/
theorem allNullable_iff {rs : List Rule} :
    allNullable f rs = true ↔ ∀ r ∈ rs, r.isNullable f = true := by
  induction rs with
  | nil => simp [allNullable]
  | cons r rs ih => simp [allNullable, ih]

/-- One of some expressions can match nothing when there is one that can. -/
theorem someNullable_iff {rs : List Rule} :
    someNullable f rs = true ↔ ∃ r ∈ rs, r.isNullable f = true := by
  induction rs with
  | nil => simp [someNullable]
  | cons r rs ih => simp [someNullable, ih]

/-- Wrappers match nothing of their own. -/
theorem isNullable_unwrapped (r : Rule) : r.unwrapped.isNullable f = r.isNullable f := by
  fun_induction unwrapped r with
  | case1 _ _ ih => simpa only [isNullable] using ih
  | case2 r hr => rfl

end Rule

namespace Grammar

namespace Nullability

/-- Whether all rules that can match nothing by one account can by another one. -/
def Within (known wider : Nullability) : Prop :=
  List.Forall₂ (fun a b => a = true → b = true) known wider

variable {known wider : Nullability}

/-- What is known of a rule is known of it in a wider account. -/
theorem Within.getD (h : known.Within wider) (i : Nat) (hi : known[i]?.getD false = true) :
    wider[i]?.getD false = true := by
  induction h generalizing i with
  | nil => exact hi
  | cons hab _ ih =>
    cases i with
    | zero => exact hab hi
    | succ i => exact ih i hi

/-- A wider account tells of more rules, unless it is the same. -/
theorem Within.count_lt (h : known.Within wider) (hne : wider ≠ known) :
    known.count true < wider.count true := by
  have hcount : known.count true ≤ wider.count true ∧
      (known.count true = wider.count true → wider = known) := by
    clear hne
    induction h with
    | nil => exact ⟨Nat.le_refl _, fun _ => rfl⟩
    | @cons a b _ _ hab _ ih =>
      cases a <;> cases b <;> simp_all
      omega
  have hlt := mt hcount.2 hne
  omega

end Nullability

variable {g : Grammar} {known wider : Nullability}

/-- A name is looked up under the number of its rule. -/
theorem nullableRule_of_number? {name : String} {i : Nat} (h : g.number? name = some i) :
    g.nullableRule known name = known[i]?.getD false := by
  simp only [nullableRule, h]

/-- A rule that is known to match nothing is known so in a wider account. -/
theorem nullableRule_mono (h : known.Within wider) (name : String)
    (hname : g.nullableRule known name = true) : g.nullableRule wider name = true := by
  cases hnumber : g.number? name with
  | none => simp [nullableRule, hnumber] at hname
  | some i =>
    rw [nullableRule_of_number? hnumber] at hname ⊢
    exact h.getD i hname

/-- A look with more knowledge finds more. -/
theorem widen_mono (h : known.Within wider) : (g.widen known).Within (g.widen wider) := by
  unfold widen Nullability.Within
  rw [List.forall₂_map_left_iff, List.forall₂_map_right_iff, List.forall₂_same]
  exact fun rule _ => rule.2.isNullable_mono (nullableRule_mono h)

/-- Looks that find only further rules end with one that finds nothing new. -/
theorem widen_saturate {rounds : Nat} (hlength : known.length = g.rules.length)
    (hwithin : known.Within (g.widen known))
    (hrounds : g.rules.length < rounds + known.count true) :
    g.widen (g.saturate rounds known) = g.saturate rounds known := by
  induction rounds generalizing known with
  | zero =>
    have := known.count_le_length (a := true)
    omega
  | succ rounds ih =>
    simp only [saturate]
    split
    · assumption
    · rename_i hnew
      have hcount := hwithin.count_lt hnew
      exact ih (by simp [widen]) (widen_mono hwithin) (by omega)

/-- The first look finds only further rules. -/
theorem within_widen (g : Grammar) (known : Nullability) :
    Nullability.Within (g.rules.map fun _ => false) (g.widen known) := by
  unfold widen Nullability.Within
  rw [List.forall₂_map_left_iff, List.forall₂_map_right_iff, List.forall₂_same]
  simp

/-- Another look at the rules finds nothing new. -/
theorem widen_nullability (g : Grammar) : g.widen g.nullability = g.nullability :=
  widen_saturate (by simp) (g.within_widen _) (by omega)

/-- There is an answer for every rule. -/
theorem length_nullability (g : Grammar) : g.nullability.length = g.rules.length := by
  rw [← widen_nullability]
  simp [widen]

/-- A rule can match nothing if and only if its expression can. -/
theorem getD_nullability {i : Nat} (hi : i < g.rules.length) :
    g.nullability[i]?.getD false = (g.body i).isNullable (g.nullableRule g.nullability) := by
  conv_lhs => rw [← widen_nullability]
  simp [widen, hi, body_eq]

end Grammar

end Packrat
