import Packrat.Proofs.Grammar.Nullability

/-!
# Derivations of nothing

An expression that can match nothing has a finite derivation of that from the rules. Accounts of the
rules are judged by it: one is sound if it tells only of rules that have such a derivation, and
settled if another look at the rules finds nothing new. There is one account that is both, and
expressions are judged by it as their derivations say.
-/

namespace Packrat

namespace Grammar

variable {g g' : Grammar} {r : Rule} {known known' : Nullability}

/-- `g.Vanishes r` says that an expression has a finite derivation of nothing. A literal has one if
it is empty, and a pattern if the least length of what it matches is zero. -/
inductive Vanishes (g : Grammar) : Rule → Prop
  | blank : Vanishes g .blank
  | literal : Vanishes g (.literal "")
  | pattern {source flags regex} (parsed : Pattern.parse source flags = .ok regex)
      (least : regex.minLength? = some 0) : Vanishes g (.pattern source flags)
  | symbol {rule} (defined : rule ∈ g.rules) (body : Vanishes g rule.2) :
      Vanishes g (.symbol rule.1)
  | seq {rs} (each : ∀ r ∈ rs, Vanishes g r) : Vanishes g (.seq rs)
  | choice {r rs} (member : r ∈ rs) (one : Vanishes g r) : Vanishes g (.choice rs)
  | noIteration {r max} : Vanishes g (.repetition r 0 max)
  | repetition {r min max} (content : Vanishes g r) : Vanishes g (.repetition r min max)
  | token {r immediate} (content : Vanishes g r) : Vanishes g (.token r immediate)
  | renamed {r name named} (content : Vanishes g r) : Vanishes g (.renamed r name named)
  | field {r name} (content : Vanishes g r) : Vanishes g (.field name r)

/-- The order of the rules does not count. -/
theorem Vanishes.of_subset (h : g.Vanishes r) (hrules : g.rules ⊆ g'.rules) : g'.Vanishes r := by
  induction h with
  | blank => exact .blank
  | literal => exact .literal
  | pattern parsed least => exact .pattern parsed least
  | symbol defined _ ih => exact .symbol (hrules defined) ih
  | seq _ ih => exact .seq ih
  | choice member _ ih => exact .choice member ih
  | noIteration => exact .noIteration
  | repetition _ ih => exact .repetition ih
  | token _ ih => exact .token ih
  | renamed _ ih => exact .renamed ih
  | field _ ih => exact .field ih

/-- Whether names that are told to match nothing are closed under the rules: the name of a rule is
among them if its expression can match nothing by them. -/
def Closed (g : Grammar) (f : String → Bool) : Prop :=
  ∀ rule ∈ g.rules, rule.2.isNullable f = true → f rule.1 = true

/-- By names that are closed under the rules, everything can match nothing that has a derivation. -/
theorem Vanishes.isNullable {f : String → Bool} (h : g.Vanishes r) (hf : g.Closed f) :
    r.isNullable f = true := by
  induction h with
  | blank => rfl
  | literal => rfl
  | pattern parsed least =>
    simp [Rule.isNullable, Pattern.isNullable, parsed, Regex.isNullable, least]
  | symbol defined _ ih => exact hf _ defined ih
  | seq _ ih => exact Rule.allNullable_iff.mpr ih
  | choice member _ ih => exact Rule.someNullable_iff.mpr ⟨_, member, ih⟩
  | noIteration => rfl
  | repetition _ ih => simp [Rule.isNullable, ih]
  | token _ ih => exact ih
  | renamed _ ih => exact ih
  | field _ ih => exact ih

variable {f : String → Bool}

mutual

/-- Where only names are told that have a derivation, what is judged by them has one. -/
theorem vanishes_of_isNullable (hf : ∀ name, f name = true → g.Vanishes (.symbol name)) :
    (r : Rule) → r.isNullable f = true → g.Vanishes r
  | .blank, _ => .blank
  | .literal text, h => by
    obtain rfl : text = "" := by simpa [Rule.isNullable] using h
    exact .literal
  | .pattern source flags, h => by
    simp only [Rule.isNullable, Pattern.isNullable] at h
    split at h
    · rename_i parsed
      exact .pattern parsed (by simpa [Regex.isNullable] using h)
    · cases h
  | .symbol name, h => hf name h
  | .seq members, h => .seq (vanishes_of_allNullable hf members h)
  | .choice members, h => by
    obtain ⟨r, hr, hvanishes⟩ := vanishes_of_someNullable hf members h
    exact .choice hr hvanishes
  | .repetition content min _, h => by
    rcases Bool.or_eq_true_iff.mp h with hmin | hcontent
    · obtain rfl : min = 0 := by simpa using hmin
      exact .noIteration
    · exact .repetition (vanishes_of_isNullable hf content hcontent)
  | .token content _, h => .token (vanishes_of_isNullable hf content h)
  | .renamed content _ _, h => .renamed (vanishes_of_isNullable hf content h)
  | .field _ content, h => .field (vanishes_of_isNullable hf content h)

/-- Expressions of which all are judged to match nothing all derive nothing. -/
theorem vanishes_of_allNullable (hf : ∀ name, f name = true → g.Vanishes (.symbol name)) :
    (rs : List Rule) → Rule.allNullable f rs = true → ∀ r ∈ rs, g.Vanishes r
  | [], _ => nofun
  | r :: rs, h => by
    rw [Rule.allNullable, Bool.and_eq_true] at h
    exact List.forall_mem_cons.mpr
      ⟨vanishes_of_isNullable hf r h.1, vanishes_of_allNullable hf rs h.2⟩

/-- Of expressions of which one is judged to match nothing, one derives nothing. -/
theorem vanishes_of_someNullable (hf : ∀ name, f name = true → g.Vanishes (.symbol name)) :
    (rs : List Rule) → Rule.someNullable f rs = true → ∃ r ∈ rs, g.Vanishes r
  | [], h => nomatch h
  | r :: rs, h => by
    rw [Rule.someNullable, Bool.or_eq_true] at h
    rcases h with h | h
    · exact ⟨r, List.mem_cons_self, vanishes_of_isNullable hf r h⟩
    · obtain ⟨r', hr', hvanishes⟩ := vanishes_of_someNullable hf rs h
      exact ⟨r', List.mem_cons_of_mem r hr', hvanishes⟩

end

/-- Whether an account of the rules tells only of those that have a derivation of nothing. -/
def IsSound (g : Grammar) (known : Nullability) : Prop :=
  ∀ i, known[i]?.getD false = true → g.Vanishes (g.body i)

/-- Whether an account of the rules tells of all those that can match nothing by it. -/
def IsSettled (g : Grammar) (known : Nullability) : Prop :=
  ∀ i < g.rules.length, (g.body i).isNullable (g.nullableRule known) = true →
    known[i]?.getD false = true

/-- What is judged by a sound account has a derivation. -/
theorem IsSound.vanishes (h : g.IsSound known)
    (hr : r.isNullable (g.nullableRule known) = true) : g.Vanishes r := by
  refine vanishes_of_isNullable (fun name hname => ?_) r hr
  unfold nullableRule at hname
  split at hname
  · rename_i i hnumber
    obtain ⟨hi, rfl⟩ := of_number? hnumber
    exact .symbol (mem_rules hi) (h i hname)
  · cases hname

/-- A settled account tells of all rules whose bodies it judges to match nothing. -/
theorem IsSettled.closed (h : g.IsSettled known) (hnames : (g.rules.map (·.1)).Nodup) :
    g.Closed (g.nullableRule known) := by
  intro rule hrule hbody
  obtain ⟨i, hnumber, heq⟩ := number?_of_mem hnames hrule
  rw [nullableRule_of_number? hnumber]
  exact h i (of_number? hnumber).1 (by rwa [heq])

/-- By a settled account everything is judged to match nothing that has a derivation. -/
theorem IsSettled.isNullable (h : g.IsSettled known) (hnames : (g.rules.map (·.1)).Nodup)
    (hr : g.Vanishes r) : r.isNullable (g.nullableRule known) = true :=
  hr.isNullable (h.closed hnames)

/-- There is only one account that is sound and settled. -/
theorem IsSettled.unique (hnames : (g.rules.map (·.1)).Nodup) (h : g.IsSettled known)
    (hs : g.IsSound known) (h' : g.IsSettled known') (hs' : g.IsSound known')
    (hlength : known.length = g.rules.length) (hlength' : known'.length = g.rules.length) :
    known = known' := by
  have hwithin : ∀ {known known' : Nullability}, g.IsSound known → g.IsSettled known' →
      ∀ i < g.rules.length, known[i]?.getD false = true → known'[i]?.getD false = true :=
    fun hs h' i hi hknown => h' i hi (h'.isNullable hnames (hs i hknown))
  refine List.ext_getElem (hlength.trans hlength'.symm) fun i hi hi' => ?_
  have hforth := hwithin hs h' i (hlength ▸ hi)
  have hback := hwithin hs' h i (hlength ▸ hi)
  simp only [List.getElem?_eq_getElem hi, List.getElem?_eq_getElem hi', Option.getD_some]
    at hforth hback
  exact Bool.eq_iff_iff.mpr ⟨hforth, hback⟩

/-- An account that tells of no rule is sound. -/
theorem isSound_none : g.IsSound (g.rules.map fun _ => false) := by
  intro i h
  by_cases hi : i < g.rules.length <;> simp [hi] at h

/-- Another look at the rules leaves a sound account sound. -/
theorem IsSound.widen (h : g.IsSound known) : g.IsSound (g.widen known) := by
  intro i hi
  by_cases hlt : i < g.rules.length
  · refine h.vanishes ?_
    simpa [Grammar.widen, hlt, body_eq hlt] using hi
  · simp [Grammar.widen, hlt] at hi

/-- Any number of looks at the rules leave a sound account sound. -/
theorem IsSound.saturate (h : g.IsSound known) (rounds : Nat) :
    g.IsSound (g.saturate rounds known) := by
  induction rounds generalizing known with
  | zero => exact h
  | succ rounds ih =>
    unfold Grammar.saturate
    dsimp only
    split
    · exact h
    · exact ih h.widen

/-- The account of a grammar tells only of rules that derive nothing. -/
theorem isSound_nullability (g : Grammar) : g.IsSound g.nullability := isSound_none.saturate _

/-- Another look at the rules adds nothing to the account of a grammar. -/
theorem isSettled_nullability (g : Grammar) : g.IsSettled g.nullability := by
  intro i hi h
  rwa [getD_nullability hi]

/-- An expression is judged to match nothing if and only if it has a derivation of nothing. -/
theorem isNullable_iff_vanishes (hnames : (g.rules.map (·.1)).Nodup) :
    r.isNullable (g.nullableRule g.nullability) = true ↔ g.Vanishes r :=
  ⟨g.isSound_nullability.vanishes, g.isSettled_nullability.isNullable hnames⟩

end Grammar

end Packrat
