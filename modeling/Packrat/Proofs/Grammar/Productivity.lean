import Packrat.Proofs.Grammar.Nullability
import Packrat.Proofs.Terminal.Scan

/-!
# Texts that expressions derive

A grammar is read here as a context-free one: an expression derives a text if finitely many choices
of alternatives and numbers of iterations lead to it. What an expression derives without some rules
does not depend on them, and that is what a way out of them is.
-/

namespace Packrat

/-- Whether a terminal matches a text: at some place of some text it takes just that. -/
def Terminal.Matches (t : Terminal) (w : String) : Prop :=
  ∃ text p n, (t.scanAt text p).length = some n ∧ w = text.slice p (p + n)

/-- A literal matches itself, wherever it stands. -/
theorem length_literalScan_self (cs : List Char) (offset : Nat) :
    (literalScan cs cs offset).length = some (offset + utf8Length cs) := by
  induction cs generalizing offset with
  | nil => simp [literalScan, utf8Length]
  | cons c cs ih => rw [literalScan, if_pos rfl, ih, utf8Length, Nat.add_assoc]

/-- A literal matches itself. -/
theorem Terminal.literal_matches (w : String) : (literal w).Matches w := by
  refine ⟨.ofString w, 0, (Text.ofString w).size, ?_, ?_⟩
  · rw [scanAt, (Text.splits_zero _).spot?]
    exact (length_literalScan_self w.toList 0).trans (by rw [Nat.zero_add]; rfl)
  · rw [Nat.zero_add, Text.slice_ofString]

namespace Grammar

/-- `g.Derives r w` says that an expression has a finite derivation, which yields a text. -/
inductive Derives (g : Grammar) : Rule → String → Prop
  | blank : Derives g .blank ""
  | terminal {r t w} (leaf : r.isLeaf = true) (known : r.terminal? = some t)
      (matched : t.Matches w) : Derives g r w
  | symbol {name i w} (number : g.number? name = some i) (body : Derives g (g.body i) w) :
      Derives g (.symbol name) w
  | seqNil : Derives g (.seq []) ""
  | seqCons {r rs v w} (head : Derives g r v) (tail : Derives g (.seq rs) w) :
      Derives g (.seq (r :: rs)) (v ++ w)
  | choice {r rs w} (member : r ∈ rs) (one : Derives g r w) : Derives g (.choice rs) w
  | repetition {r min max} (ws : List String) (each : ∀ w ∈ ws, Derives g r w)
      (least : min.toNat ≤ ws.length) (most : ∀ m ∈ max, ws.length ≤ m.toNat) :
      Derives g (.repetition r min max) (String.join ws)
  | renamed {r name named w} (content : Derives g r w) : Derives g (.renamed r name named) w
  | field {r name w} (content : Derives g r w) : Derives g (.field name r) w

/-- Whether an expression derives any text. -/
def Productive (g : Grammar) (r : Rule) : Prop := ∃ w, g.Derives r w

/-- Whether an expression has a finite derivation when every terminal is taken to have one, and
every repetition that has one iteration to have as many as it needs. -/
inductive Derivable (g : Grammar) : Rule → Prop
  | blank : Derivable g .blank
  | terminal {r} (leaf : r.isLeaf = true) : Derivable g r
  | symbol {name i} (number : g.number? name = some i) (body : Derivable g (g.body i)) :
      Derivable g (.symbol name)
  | seq {rs} (each : ∀ r ∈ rs, Derivable g r) : Derivable g (.seq rs)
  | choice {r rs} (member : r ∈ rs) (one : Derivable g r) : Derivable g (.choice rs)
  | noIteration {r max} : Derivable g (.repetition r 0 max)
  | repetition {r min max} (content : Derivable g r) : Derivable g (.repetition r min max)
  | renamed {r name named} (content : Derivable g r) : Derivable g (.renamed r name named)
  | field {r name} (content : Derivable g r) : Derivable g (.field name r)

end Grammar

namespace Rule

mutual

/-- Whether every choice has an alternative, every terminal matches some text, and no repetition
has to have more iterations than it may have. -/
def Satisfiable : Rule → Prop
  | blank => True
  | symbol _ => True
  | literal text => ∃ t w, (literal text).terminal? = some t ∧ t.Matches w
  | pattern source flags => ∃ t w, (pattern source flags).terminal? = some t ∧ t.Matches w
  | token content immediate => ∃ t w, (token content immediate).terminal? = some t ∧ t.Matches w
  | seq members => SatisfiableAll members
  | choice members => members ≠ [] ∧ SatisfiableAll members
  | repetition content min max => (∀ m ∈ max, min ≤ m) ∧ content.Satisfiable
  | renamed content _ _ => content.Satisfiable
  | field _ content => content.Satisfiable

/-- The same for all of some expressions. -/
def SatisfiableAll : List Rule → Prop
  | [] => True
  | r :: rs => r.Satisfiable ∧ SatisfiableAll rs

end

/-- A literal matches some text, its own. -/
theorem satisfiable_literal (text : String) : (literal text).Satisfiable :=
  ⟨.literal text, text, rfl, Terminal.literal_matches text⟩

variable {defined inside : String → Bool} {inToken : Bool}

mutual

/-- An expression without a flaw refers to rules that there are. -/
theorem defined_of_references {name : String} : (r : Rule) → {inToken : Bool} →
    r.flaw? defined inToken = none → name ∈ r.references → defined name = true
  | symbol target, inToken, h, hname => by
    obtain rfl : name = target := by simpa [references] using hname
    unfold flaw? at h
    split at h
    · cases h
    · simp_all
  | seq members, _, h, hname => defined_of_referencesAmong members h hname
  | choice members, _, h, hname => defined_of_referencesAmong members h hname
  | repetition content _ _, _, h, hname => content.defined_of_references h hname
  | token content _, _, h, hname => @defined_of_references name content true h hname
  | renamed content _ _, _, h, hname => content.defined_of_references h hname
  | field _ content, _, h, hname => content.defined_of_references h hname
  | blank, _, _, hname => by cases hname
  | literal _, _, _, hname => by cases hname
  | pattern _ _, _, _, hname => by cases hname

/-- A list of expressions without flaw refers to rules that are defined. -/
theorem defined_of_referencesAmong {name : String} : (rs : List Rule) → {inToken : Bool} →
    flawAmong? defined inToken rs = none → name ∈ referencesAmong rs → defined name = true
  | [], _, _, hname => by cases hname
  | r :: rs, _, h, hname => by
    rw [flawAmong?, Option.or_eq_none_iff] at h
    rcases List.mem_append.mp hname with hname | hname
    · exact r.defined_of_references h.1 hname
    · exact defined_of_referencesAmong rs h.2 hname

end

mutual

/-- An expression that refers to none of some rules can be matched without them. -/
theorem escapes_of_references : (r : Rule) → r.Satisfiable →
    (∀ name ∈ r.references, inside name = false) → r.escapes inside = true
  | symbol name, _, h => by simpa [escapes, references] using h
  | seq members, hs, h => allEscape_of_references members hs h
  | choice members, hs, h => someEscape_of_references members hs.1 hs.2 h
  | repetition content _ _, hs, h => by
    rw [escapes, content.escapes_of_references hs.2 h, Bool.or_true]
  | renamed content _ _, hs, h => content.escapes_of_references hs h
  | field _ content, hs, h => content.escapes_of_references hs h
  | blank, _, _ => rfl
  | literal _, _, _ => rfl
  | pattern _ _, _, _ => rfl
  | token _ _, _, _ => rfl

/-- Expressions that refer to none of some rules all have a way out of them. -/
theorem allEscape_of_references : (rs : List Rule) → SatisfiableAll rs →
    (∀ name ∈ referencesAmong rs, inside name = false) → allEscape inside rs = true
  | [], _, _ => rfl
  | r :: rs, hs, h => by
    rw [referencesAmong, List.forall_mem_append] at h
    rw [allEscape, r.escapes_of_references hs.1 h.1, allEscape_of_references rs hs.2 h.2,
      Bool.and_true]

/-- Of expressions that refer to none of some rules, one has a way out of them if there is one. -/
theorem someEscape_of_references : (rs : List Rule) → rs ≠ [] → SatisfiableAll rs →
    (∀ name ∈ referencesAmong rs, inside name = false) → someEscape inside rs = true
  | [], hne, _, _ => absurd rfl hne
  | r :: rs, _, hs, h => by
    rw [referencesAmong, List.forall_mem_append] at h
    rw [someEscape, r.escapes_of_references hs.1 h.1, Bool.true_or]

end

/-- All of some expressions have a way out if each of them has. -/
theorem allEscape_of_forall {rs : List Rule} (h : ∀ r ∈ rs, r.escapes inside = true) :
    allEscape inside rs = true := by
  induction rs with
  | nil => rfl
  | cons r rs ih =>
    rw [List.forall_mem_cons] at h
    rw [allEscape, h.1, ih h.2, Bool.and_true]

/-- One of some expressions has a way out if this one has. -/
theorem someEscape_of_mem {r : Rule} {rs : List Rule} (hr : r ∈ rs)
    (h : r.escapes inside = true) : someEscape inside rs = true := by
  induction rs with
  | nil => cases hr
  | cons first rs ih =>
    rw [someEscape, Bool.or_eq_true]
    rcases List.mem_cons.mp hr with rfl | hr
    · exact .inl h
    · exact .inr (ih hr)

end Rule

namespace Grammar

variable {g : Grammar} {inside : String → Bool}

/-- A sequence derives a text if its first member and the rest of it do. -/
theorem Productive.seqCons {r : Rule} {rs : List Rule} (h : g.Productive r)
    (h' : g.Productive (.seq rs)) : g.Productive (.seq (r :: rs)) := by
  obtain ⟨v, hv⟩ := h
  obtain ⟨w, hw⟩ := h'
  exact ⟨v ++ w, .seqCons hv hw⟩

/-- A choice derives a text if one of its members does. -/
theorem Productive.choice {r : Rule} {rs : List Rule} (h : g.Productive r) (hr : r ∈ rs) :
    g.Productive (.choice rs) := by
  obtain ⟨w, hw⟩ := h
  exact ⟨w, .choice hr hw⟩

/-- A repetition takes no more iterations than it has to. -/
theorem Productive.repetition {r : Rule} {min : UInt32} {max : Option UInt32}
    (hbounds : ∀ m ∈ max, min ≤ m) (h : min = 0 ∨ g.Productive r) :
    g.Productive (.repetition r min max) := by
  rcases h with rfl | ⟨w, hw⟩
  · exact ⟨_, .repetition [] (by simp) (Nat.le_refl _) fun m _ => Nat.zero_le _⟩
  · refine ⟨_, .repetition (List.replicate min.toNat w) ?_ ?_ fun m hm => ?_⟩
    · exact fun v hv => List.eq_of_mem_replicate hv ▸ hw
    · exact Nat.le_of_eq (List.length_replicate ..).symm
    · rw [List.length_replicate]
      exact UInt32.le_iff_toNat_le.mp (hbounds m hm)

/-- A terminal derives a text that it matches. -/
theorem Productive.terminal {r : Rule} (hleaf : r.isLeaf = true)
    (h : ∃ t w, r.terminal? = some t ∧ t.Matches w) : g.Productive r := by
  obtain ⟨t, w, ht, hw⟩ := h
  exact ⟨w, .terminal hleaf ht hw⟩

mutual

/-- What can be matched without some rules is productive if the other rules are that it refers
to. -/
theorem Productive.of_escapes : (r : Rule) → r.Satisfiable → r.escapes inside = true →
    (∀ name ∈ r.references, inside name = false → g.Productive (.symbol name)) → g.Productive r
  | .symbol name, _, hr, h =>
    h name (List.mem_singleton_self name) (by simpa [Rule.escapes] using hr)
  | .seq members, hs, hr, h => .of_allEscape members hs hr h
  | .choice members, hs, hr, h => .of_someEscape members hs.2 hr h
  | .repetition content min max, hs, hr, h => by
    refine .repetition hs.1 ?_
    rw [Rule.escapes, Bool.or_eq_true, beq_iff_eq] at hr
    exact hr.imp_right fun hr => .of_escapes content hs.2 hr h
  | .renamed content _ _, hs, hr, h =>
    (Productive.of_escapes content hs hr h).imp fun _ => .renamed
  | .field _ content, hs, hr, h => (Productive.of_escapes content hs hr h).imp fun _ => .field
  | .blank, _, _, _ => ⟨"", .blank⟩
  | .literal _, hs, _, _ => .terminal rfl hs
  | .pattern _ _, hs, _, _ => .terminal rfl hs
  | .token _ _, hs, _, _ => .terminal rfl hs

/-- A sequence whose members have ways out derives a text if the rules outside do. -/
theorem Productive.of_allEscape : (rs : List Rule) → Rule.SatisfiableAll rs →
    Rule.allEscape inside rs = true →
    (∀ name ∈ Rule.referencesAmong rs, inside name = false → g.Productive (.symbol name)) →
    g.Productive (.seq rs)
  | [], _, _, _ => ⟨"", .seqNil⟩
  | r :: rs, hs, hr, h => by
    rw [Rule.allEscape, Bool.and_eq_true] at hr
    rw [Rule.referencesAmong, List.forall_mem_append] at h
    exact .seqCons (.of_escapes r hs.1 hr.1 h.1) (.of_allEscape rs hs.2 hr.2 h.2)

/-- A choice of which a member has a way out derives a text if the rules outside do. -/
theorem Productive.of_someEscape : (rs : List Rule) → Rule.SatisfiableAll rs →
    Rule.someEscape inside rs = true →
    (∀ name ∈ Rule.referencesAmong rs, inside name = false → g.Productive (.symbol name)) →
    g.Productive (.choice rs)
  | r :: rs, hs, hr, h => by
    rw [Rule.someEscape, Bool.or_eq_true] at hr
    rw [Rule.referencesAmong, List.forall_mem_append] at h
    rcases hr with hr | hr
    · exact (Productive.of_escapes r hs.1 hr h.1).choice List.mem_cons_self
    · obtain ⟨w, hw⟩ := Productive.of_someEscape rs hs.2 hr h.2
      cases hw with
      | terminal leaf => cases leaf
      | choice member one => exact ⟨w, .choice (List.mem_cons_of_mem r member) one⟩

end

/-- What derives a text has a finite derivation. -/
theorem Derives.derivable {r : Rule} {w : String} (h : g.Derives r w) : g.Derivable r := by
  induction h with
  | blank => exact .blank
  | terminal leaf => exact .terminal leaf
  | symbol number _ ih => exact .symbol number ih
  | seqNil => exact .seq (List.forall_mem_nil _)
  | seqCons _ _ ihhead ihtail =>
    cases ihtail with
    | terminal leaf => cases leaf
    | seq each => exact .seq (List.forall_mem_cons.mpr ⟨ihhead, each⟩)
  | choice member _ ih => exact .choice member ih
  | @repetition r min max ws _ least _ ih =>
    cases ws with
    | nil =>
      obtain rfl : min = 0 := UInt32.toNat_inj.mp (Nat.le_zero.mp least)
      exact .noIteration
    | cons w ws => exact .repetition (ih w List.mem_cons_self)
  | renamed _ ih => exact .renamed ih
  | field _ ih => exact .field ih

/-- What has a finite derivation can be matched without rules that cannot be matched without each
other. -/
theorem Derivable.escapes {r : Rule} (h : g.Derivable r)
    (hstuck : ∀ name i, inside name = true → g.number? name = some i →
      (g.body i).escapes inside = false) : r.escapes inside = true := by
  induction h with
  | blank => rfl
  | @terminal r leaf => cases r <;> first | rfl | cases leaf
  | @symbol name i number _ ih =>
    cases hinside : inside name with
    | false => rw [Rule.escapes, hinside, Bool.not_false]
    | true => rw [hstuck name i hinside number] at ih; cases ih
  | seq _ ih => exact Rule.allEscape_of_forall ih
  | choice member _ ih => exact Rule.someEscape_of_mem member ih
  | noIteration => rfl
  | repetition _ ih => rw [Rule.escapes, ih, Bool.or_true]
  | renamed _ ih => exact ih
  | field _ ih => exact ih

end Grammar

end Packrat
