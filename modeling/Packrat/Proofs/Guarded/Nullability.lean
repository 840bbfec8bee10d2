import Packrat.Grammar.Analysis
import Packrat.Proofs.Grammar.Nullability
import Packrat.Proofs.Guarded.Basic

/-!
# Guarded judgments of expressions

What is judged of an expression by which rules can match nothing looks these up for the rules that
the expression refers to. The look-ups meet no fault if there is an answer for every rule, and the
look at all rules is repeated no more often than it is allowed to be.
-/

namespace Packrat

namespace Guarded

mutual

/-- `Rule.isNullable` with its look-ups guarded. -/
def isNullable (nullable : String → Guarded Bool) : Rule → Guarded Bool
  | .blank => return true
  | .literal text => return text.isEmpty
  | .pattern source flags => return Pattern.isNullable source flags
  | .symbol name => nullable name
  | .seq members => allNullable nullable members
  | .choice members => someNullable nullable members
  | .repetition content min _ => if min == 0 then return true else isNullable nullable content
  | .token content _ => isNullable nullable content
  | .renamed content _ _ => isNullable nullable content
  | .field _ content => isNullable nullable content

/-- `Rule.allNullable` with its look-ups guarded. -/
def allNullable (nullable : String → Guarded Bool) : List Rule → Guarded Bool
  | [] => return true
  | r :: rs => do if ← isNullable nullable r then allNullable nullable rs else return false

/-- `Rule.someNullable` with its look-ups guarded. -/
def someNullable (nullable : String → Guarded Bool) : List Rule → Guarded Bool
  | [] => return false
  | r :: rs => do if ← isNullable nullable r then return true else someNullable nullable rs

end

mutual

/-- `Rule.leftReferences` with its look-ups guarded. -/
def leftReferences (nullable : String → Guarded Bool) : Rule → Guarded (List String)
  | .symbol name => return [name]
  | .seq members => leftReferencesOfSeq nullable members
  | .choice members => leftReferencesAmong nullable members
  | .repetition content _ _ => leftReferences nullable content
  | .renamed content _ _ => leftReferences nullable content
  | .field _ content => leftReferences nullable content
  | _ => return []

/-- `Rule.leftReferencesOfSeq` with its look-ups guarded. -/
def leftReferencesOfSeq (nullable : String → Guarded Bool) : List Rule → Guarded (List String)
  | [] => return []
  | r :: rs => do
    let names ← leftReferences nullable r
    if ← isNullable nullable r then return names ++ (← leftReferencesOfSeq nullable rs)
    else return names

/-- `Rule.leftReferencesAmong` with its look-ups guarded. -/
def leftReferencesAmong (nullable : String → Guarded Bool) : List Rule → Guarded (List String)
  | [] => return []
  | r :: rs => return (← leftReferences nullable r) ++ (← leftReferencesAmong nullable rs)

end

mutual

/-- `Rule.repeatsNullable` with its look-ups guarded. -/
def repeatsNullable (nullable : String → Guarded Bool) : Rule → Guarded Bool
  | .seq members => someRepeatsNullable nullable members
  | .choice members => someRepeatsNullable nullable members
  | .repetition content _ _ => do
    if ← isNullable nullable content then return true else repeatsNullable nullable content
  | .renamed content _ _ => repeatsNullable nullable content
  | .field _ content => repeatsNullable nullable content
  | _ => return false

/-- `Rule.someRepeatsNullable` with its look-ups guarded. -/
def someRepeatsNullable (nullable : String → Guarded Bool) : List Rule → Guarded Bool
  | [] => return false
  | r :: rs => do
    if ← repeatsNullable nullable r then return true else someRepeatsNullable nullable rs

end

/-- The place of the first expression that can match nothing. -/
def firstNullable (nullable : String → Guarded Bool) : List Rule → Guarded (Option Nat)
  | [] => return none
  | r :: rs => do
    if ← isNullable nullable r then return some 0
    else return (← firstNullable nullable rs).map (· + 1)

/-- `Packrat.winner?` with its look-up guarded. -/
def winner? (firstNullable : Option Nat) (members : List Rule) (member : Rule × Nat) :
    Guarded (Option Nat) :=
  if member.1 = .blank then return none
  else
    match firstNullable.filter (· < member.2) with
    | some j => return some j
    | none =>
      match member.1.literal? with
      | none => return none
      | some text => do
        let earlier ← initial members member.2
        return earlier.findIdx? fun earlier =>
          match earlier.literal? with
          | some start => startsWith text start
          | none => false

/-- `Packrat.shadowed` with its look-ups guarded. -/
def shadowed (nullable : String → Guarded Bool) (members : List Rule) :
    Guarded (List (Nat × Nat)) := do
  let firstNullable ← firstNullable nullable members
  let winners ← members.zipIdx.mapM fun member => do
    return (← winner? firstNullable members member).map fun j => (member.2, j)
  return winners.filterMap id

/-- `Grammar.nullableRule` with its look-up guarded. -/
def nullableRule (g : Grammar) (known : Grammar.Nullability) (name : String) : Guarded Bool :=
  match g.number? name with
  | some i => fetch known i
  | none => return false

/-- `Grammar.widen` with its look-ups guarded. Rules that are known are not looked at again. -/
def widen (g : Grammar) (known : Grammar.Nullability) : Guarded Grammar.Nullability :=
  g.rules.zipIdx.mapM fun rule => do
    if ← fetch known rule.2 then return true else isNullable (nullableRule g known) rule.1.2

/-- `Grammar.saturate` with its look-ups guarded. -/
def saturate (g : Grammar) : (rounds : Nat) → Grammar.Nullability → Guarded Grammar.Nullability
  | 0, _ => .error .endless
  | rounds + 1, known => do
    let wider ← widen g known
    if wider = known then return known else saturate g rounds wider

/-- `Grammar.nullability` with its look-ups guarded. -/
def nullability (g : Grammar) : Guarded Grammar.Nullability :=
  saturate g (g.rules.length + 1) (g.rules.map fun _ => false)

end Guarded

namespace Rule

variable {f : String → Guarded Bool} {f' : String → Bool}

mutual

/-- Whether an expression can match nothing is judged without a fault. -/
theorem isNullable_guarded (h : ∀ name, f name = .ok (f' name)) : (r : Rule) →
    Guarded.isNullable f r = .ok (r.isNullable f')
  | blank => rfl
  | literal _ => rfl
  | pattern _ _ => rfl
  | symbol name => h name
  | seq members => allNullable_guarded h members
  | choice members => someNullable_guarded h members
  | repetition content min _ => by
    rw [Guarded.isNullable, isNullable, isNullable_guarded h content]
    cases min == 0 <;> rfl
  | token content _ => isNullable_guarded h content
  | renamed content _ _ => isNullable_guarded h content
  | field _ content => isNullable_guarded h content

/-- Whether all of some expressions can match nothing is judged without a fault. -/
theorem allNullable_guarded (h : ∀ name, f name = .ok (f' name)) : (rs : List Rule) →
    Guarded.allNullable f rs = .ok (allNullable f' rs)
  | [] => rfl
  | r :: rs => by
    rw [Guarded.allNullable, allNullable, isNullable_guarded h r, allNullable_guarded h rs]
    cases r.isNullable f' <;> rfl

/-- Whether one of some expressions can match nothing is judged without a fault. -/
theorem someNullable_guarded (h : ∀ name, f name = .ok (f' name)) : (rs : List Rule) →
    Guarded.someNullable f rs = .ok (someNullable f' rs)
  | [] => rfl
  | r :: rs => by
    rw [Guarded.someNullable, someNullable, isNullable_guarded h r, someNullable_guarded h rs]
    cases r.isNullable f' <;> rfl

end

mutual

/-- What an expression can begin with is found without a fault. -/
theorem leftReferences_guarded (h : ∀ name, f name = .ok (f' name)) : (r : Rule) →
    Guarded.leftReferences f r = .ok (r.leftReferences f')
  | blank => rfl
  | literal _ => rfl
  | pattern _ _ => rfl
  | symbol _ => rfl
  | seq members => leftReferencesOfSeq_guarded h members
  | choice members => leftReferencesAmong_guarded h members
  | repetition content _ _ => leftReferences_guarded h content
  | token _ _ => rfl
  | renamed content _ _ => leftReferences_guarded h content
  | field _ content => leftReferences_guarded h content

/-- What a sequence can begin with is found without a fault. -/
theorem leftReferencesOfSeq_guarded (h : ∀ name, f name = .ok (f' name)) : (rs : List Rule) →
    Guarded.leftReferencesOfSeq f rs = .ok (leftReferencesOfSeq f' rs)
  | [] => rfl
  | r :: rs => by
    rw [Guarded.leftReferencesOfSeq, leftReferencesOfSeq, leftReferences_guarded h r,
      isNullable_guarded h r, leftReferencesOfSeq_guarded h rs]
    cases r.isNullable f'
    · rw [if_neg (by decide), List.append_nil]
      rfl
    · rfl

/-- What alternatives can begin with is found without a fault. -/
theorem leftReferencesAmong_guarded (h : ∀ name, f name = .ok (f' name)) : (rs : List Rule) →
    Guarded.leftReferencesAmong f rs = .ok (leftReferencesAmong f' rs)
  | [] => rfl
  | r :: rs => by
    rw [Guarded.leftReferencesAmong, leftReferences_guarded h r, leftReferencesAmong_guarded h rs]
    rfl

end

mutual

/-- Whether something nullable is repeated is found without a fault. -/
theorem repeatsNullable_guarded (h : ∀ name, f name = .ok (f' name)) : (r : Rule) →
    Guarded.repeatsNullable f r = .ok (r.repeatsNullable f')
  | blank => rfl
  | literal _ => rfl
  | pattern _ _ => rfl
  | symbol _ => rfl
  | seq members => someRepeatsNullable_guarded h members
  | choice members => someRepeatsNullable_guarded h members
  | repetition content _ _ => by
    rw [Guarded.repeatsNullable, repeatsNullable, isNullable_guarded h content,
      repeatsNullable_guarded h content]
    cases content.isNullable f' <;> rfl
  | token _ _ => rfl
  | renamed content _ _ => repeatsNullable_guarded h content
  | field _ content => repeatsNullable_guarded h content

/-- The same for a list. -/
theorem someRepeatsNullable_guarded (h : ∀ name, f name = .ok (f' name)) : (rs : List Rule) →
    Guarded.someRepeatsNullable f rs = .ok (someRepeatsNullable f' rs)
  | [] => rfl
  | r :: rs => by
    rw [Guarded.someRepeatsNullable, someRepeatsNullable, repeatsNullable_guarded h r,
      someRepeatsNullable_guarded h rs]
    cases r.repeatsNullable f' <;> rfl

end

end Rule

section

variable {f : String → Guarded Bool} {f' : String → Bool} (h : ∀ name, f name = .ok (f' name))

include h

/-- The first alternative that can match nothing is found without a fault. -/
theorem firstNullable_guarded (rs : List Rule) :
    Guarded.firstNullable f rs = .ok (rs.findIdx? (·.isNullable f')) := by
  induction rs with
  | nil => rfl
  | cons r rs ih =>
    rw [Guarded.firstNullable, r.isNullable_guarded h, ih, List.findIdx?_cons]
    cases r.isNullable f' <;> rfl

omit h in
/-- The members before one of them can be taken. -/
theorem winner?_guarded (first : Option Nat) {members : List Rule} {member : Rule × Nat}
    (hmember : member ∈ members.zipIdx) :
    Guarded.winner? first members member = .ok (winner? first members member) := by
  have hplace : member.2 ≤ members.length := by
    obtain ⟨-, hlt, -⟩ := List.mem_zipIdx hmember
    omega
  rw [Guarded.winner?, winner?]
  by_cases hblank : member.1 = .blank
  · rw [if_pos hblank, if_pos hblank]
    rfl
  · rw [if_neg hblank, if_neg hblank]
    cases first.filter (· < member.2) with
    | some j => rfl
    | none =>
      cases member.1.literal? with
      | none => rfl
      | some text =>
        simp only [Guarded.initial, hplace, if_true]
        rfl

/-- The alternatives that are shadowed are found without a fault. -/
theorem shadowed_guarded (members : List Rule) :
    Guarded.shadowed f members = .ok (shadowed f' members) := by
  rw [Guarded.shadowed, firstNullable_guarded h, Guarded.ok_bind,
    Guarded.mapM_map_eq fun member hmember => winner?_guarded _ hmember, shadowed]
  exact congrArg Except.ok (List.filterMap_map ..)

end

namespace Grammar

variable {g : Grammar} {known : Nullability}

/-- A name is looked up without a fault where there is an answer for every rule. -/
theorem nullableRule_guarded (hlength : known.length = g.rules.length) (name : String) :
    Guarded.nullableRule g known name = .ok (g.nullableRule known name) := by
  rw [Guarded.nullableRule, nullableRule]
  cases hnumber : g.number? name with
  | none => rfl
  | some i =>
    exact Guarded.fetch_eq_getD (hlength ▸ (of_number? hnumber).1) false

/-- What is known of a rule need not be judged again, as a look finds it once more. -/
theorem widen_guarded (hlength : known.length = g.rules.length)
    (hwithin : known.Within (g.widen known)) :
    Guarded.widen g known = .ok (g.widen known) := by
  refine Guarded.mapM_zipIdx_eq 0 (by simp [widen]) fun i rule wider hrule hwider => ?_
  obtain ⟨hi, -⟩ := List.getElem?_eq_some_iff.mp hrule
  have hknown : known[i]? = some known[i] := List.getElem?_eq_getElem (hlength ▸ hi)
  have hjudged : rule.2.isNullable (g.nullableRule known) = wider := by
    simpa [widen, hrule] using hwider
  rw [Nat.zero_add, Guarded.fetch_eq hknown, Guarded.ok_bind]
  cases hi : known[i] with
  | true =>
    have := hwithin.getD i (by rw [hknown, hi]; rfl)
    rw [hwider] at this
    exact congrArg _ this.symm
  | false => rw [← hjudged, rule.2.isNullable_guarded (nullableRule_guarded hlength)]; rfl

/-- Looks at the rules come to an end before they were too many. -/
theorem saturate_guarded {rounds : Nat} (hlength : known.length = g.rules.length)
    (hwithin : known.Within (g.widen known))
    (hrounds : g.rules.length < rounds + known.count true) :
    Guarded.saturate g rounds known = .ok (g.saturate rounds known) := by
  induction rounds generalizing known with
  | zero =>
    have := known.count_le_length (a := true)
    omega
  | succ rounds ih =>
    rw [Guarded.saturate, widen_guarded hlength hwithin, Guarded.ok_bind, saturate]
    by_cases hnew : g.widen known = known
    · simp only [hnew, if_true]
      rfl
    · have hcount := hwithin.count_lt hnew
      simp only [hnew, if_false]
      exact ih (by simp [widen]) (widen_mono hwithin) (by omega)

/-- All rules are judged without a fault, and in no more looks at them than are allowed. -/
theorem nullability_guarded (g : Grammar) : Guarded.nullability g = .ok g.nullability :=
  saturate_guarded (by simp) (g.within_widen _) (by omega)

end Grammar

end Packrat
