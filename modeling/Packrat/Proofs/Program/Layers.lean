import Packrat.Proofs.Grammar.Recursion
import Packrat.Proofs.Program.Lowered

/-!
# Layers of the rules of a program

Which operations may succeed without taking anything, and which rules they may call first, is said
here of programs in the way in which the analysis says it of grammars. Recovery makes a difference
to it: a sequence that has come past its first member may end wherever a search has to stop. A
program has a layering if its rules begin with calls of rules on lower layers only.
-/

namespace Packrat

namespace Program

mutual

/-- Whether an operation may succeed without taking anything, given which rules may. A sequence may
end behind its first member if `early` says so. -/
def Idles (p : Program) (early : Bool) (idle : Nat → Prop) : Step → Prop
  | .blank => True
  | .token terminal _ _ => (p.terminal terminal).MayBeEmpty
  | .call rule _ => idle rule
  | .seq members => p.IdlesThrough early idle members
  | .choice members => p.IdlesAmong early idle members
  | .repetition _ min _ => min.toNat = 0
  | .wrap body _ => p.Idles early idle body

/-- The same for operations in order. -/
def IdlesThrough (p : Program) (early : Bool) (idle : Nat → Prop) : List Step → Prop
  | [] => True
  | step :: steps => p.Idles early idle step ∧ (early = true ∨ p.IdlesThrough early idle steps)

/-- The same for alternatives. -/
def IdlesAmong (p : Program) (early : Bool) (idle : Nat → Prop) : List Step → Prop
  | [] => False
  | step :: steps => p.Idles early idle step ∨ p.IdlesAmong early idle steps

end

mutual

/-- Whether an operation may call a rule before anything is taken. -/
def Begins (p : Program) (early : Bool) (idle : Nat → Prop) (rule : Nat) : Step → Prop
  | .call called _ => called = rule
  | .seq members => p.BeginsThrough early idle rule members
  | .choice members => p.BeginsAmong early idle rule members
  | .repetition body _ _ => p.Begins early idle rule body
  | .wrap body _ => p.Begins early idle rule body
  | _ => False

/-- The same for operations in order. -/
def BeginsThrough (p : Program) (early : Bool) (idle : Nat → Prop) (rule : Nat) : List Step → Prop
  | [] => False
  | step :: steps => p.Begins early idle rule step ∨
      p.Idles early idle step ∧ p.BeginsThrough early idle rule steps

/-- The same for alternatives. -/
def BeginsAmong (p : Program) (early : Bool) (idle : Nat → Prop) (rule : Nat) : List Step → Prop
  | [] => False
  | step :: steps => p.Begins early idle rule step ∨ p.BeginsAmong early idle rule steps

end

/-- Layers of the rules of a program: what a rule may call before anything is taken lies below
it. -/
structure Layering (p : Program) (early : Bool) where
  /-- Which rules may succeed without taking anything. -/
  idle : Nat → Prop
  layer : Nat → Nat
  /-- The highest layer. -/
  top : Nat
  layer_le : ∀ rule, layer rule ≤ top
  idle_of_body : ∀ rule, p.Idles early idle (p.rule rule).body → idle rule
  layer_lt : ∀ rule below, p.Begins early idle below (p.rule rule).body → layer below < layer rule

end Program

namespace Grammar

variable {g : Grammar} {early : Bool}

/-- What is judged of the rules of a grammar whose sequences may end early. -/
abbrev judgement (g : Grammar) (early : Bool) : String → Bool :=
  (g.endingEarly early).nullableRule (g.endingEarly early).nullability

/-- Whether the rule of a number is judged to match nothing. A number without a rule counts as
such. -/
def IdleRule (g : Grammar) (early : Bool) (i : Nat) : Prop :=
  (g.endingEarly early).nullability[i]?.getD true = true

/-- A rule is judged to match nothing if and only if its expression is. -/
theorem idleRule_iff {i : Nat} (hi : i < g.rules.length) : g.IdleRule early i ↔
    ((g.body i).endingEarly early).isNullable (g.judgement early) = true := by
  have hi' : i < (g.endingEarly early).rules.length := by simpa using hi
  have hlength : i < (g.endingEarly early).nullability.length := by
    rwa [length_nullability]
  rw [← body_endingEarly, judgement, ← getD_nullability hi', IdleRule,
    List.getElem?_eq_getElem hlength, Option.getD_some, Option.getD_some]

/-- A name is judged as the rule that it stands for. -/
theorem judgement_iff {name : String} {i : Nat} (h : g.number? name = some i) :
    g.judgement early name = true ↔ g.IdleRule early i := by
  have hi : i < (g.endingEarly early).rules.length := by simpa using (of_number? h).1
  rw [idleRule_iff (of_number? h).1, ← body_endingEarly, judgement, ← getD_nullability hi,
    nullableRule_of_number? (by simpa using h)]

end Grammar

section

variable {g : Grammar} {start : Nat} {p : Program} {early : Bool}

/-- A leaf that takes nothing is judged so. -/
theorem Program.TakesLeaf.isNullable {r : Rule} {kind : Kind} {step : Step} {f : String → Bool}
    {idle : Nat → Prop} (h : p.TakesLeaf r kind step) (hr : r.isTerminal = true)
    (hjudges : r.JudgesEmpty) (hidles : p.Idles early idle step) :
    (r.endingEarly early).isNullable f = true := by
  obtain ⟨terminal, number, rfl, hterminal, -⟩ := h
  rw [Rule.isNullable_endingEarly_of_isTerminal hr]
  exact hjudges.isNullable hr hterminal hidles f

/-- A rule that is a single terminal and takes nothing is judged so. -/
theorem Grammar.JudgesEmpty.judgement (hg : g.JudgesEmpty) {name : String} {i : Nat} {kind : Kind}
    {step : Step} {idle : Nat → Prop} (hnumber : g.number? name = some i)
    (hlexical : g.isLexical start i = true) (hleaf : p.TakesLeaf (g.body i) kind step)
    (hidles : p.Idles early idle step) : g.judgement early name = true := by
  have hi := (of_number? hnumber).1
  rw [judgement_iff hnumber, idleRule_iff hi]
  exact hleaf.isNullable (isTerminal_of_isLexical hlexical) (hg.body hi) hidles

mutual

/-- What stands for an expression takes nothing only if the expression is judged so. -/
theorem Lowers.isNullable (hg : g.JudgesEmpty) {r : Rule} {step : Step} : Lowers g start p r step →
    r.JudgesEmpty → p.Idles early (g.IdleRule early) step →
    (r.endingEarly early).isNullable (g.judgement early) = true
  | .blank, _, _ => rfl
  | .leaf single _ leaf, hr, hidles =>
    leaf.isNullable (Rule.isTerminal_of_isLeaf single) hr hidles
  | .lexical number lexical leaf, _, hidles => hg.judgement number lexical leaf hidles
  | .symbol number _, _, hidles => (Grammar.judgement_iff number).mpr hidles
  | .seq .nil, _, _ => rfl
  | .seq (.cons head tail), hr, hidles => by
    obtain ⟨hhead, htail⟩ := hidles
    obtain ⟨hr, hrs⟩ := List.forall_mem_cons.mp (Rule.judgesEmpty_seq.mp hr)
    exact Rule.isNullable_sequence_cons.mpr
      ⟨head.isNullable hg hr hhead, htail.elim .inl (tail.allNullable hg hrs)⟩
  | .choice members, hr, hidles =>
    members.someNullable hg (Rule.judgesEmpty_choice.mp hr) hidles
  | .repetition _, _, hidles => by
    have hmin := UInt32.toNat_inj.mp (hidles.trans UInt32.toNat_zero.symm)
    simp [Rule.endingEarly, Rule.isNullable, hmin]
  | .field content, hr, hidles => content.isNullable hg hr hidles
  | .renamedLexical content number lexical leaf, _, hidles => by
    simp only [Rule.endingEarly, Rule.isNullable]
    rw [← Rule.isNullable_unwrapped, Rule.unwrapped_endingEarly_of_symbol content]
    exact hg.judgement number lexical leaf hidles
  | .renamedSymbol content number _ _, _, hidles => by
    simp only [Rule.endingEarly, Rule.isNullable]
    rw [← Rule.isNullable_unwrapped, Rule.unwrapped_endingEarly_of_symbol content]
    exact (Grammar.judgement_iff number).mpr hidles
  | .renamedLeaf single leaf, hr, hidles => leaf.isNullable single hr hidles
  | .renamedNode _ _ content _, hr, hidles => content.isNullable hg hr hidles

/-- The same for members in order. -/
theorem LowersAll.allNullable (hg : g.JudgesEmpty) {rs : List Rule} {steps : List Step} :
    LowersAll g start p rs steps → (∀ r ∈ rs, r.JudgesEmpty) →
    p.IdlesThrough early (g.IdleRule early) steps →
    early = true ∨ Rule.allNullable (g.judgement early) (Rule.endingEarlyAll early rs) = true
  | .nil, _, _ => .inr rfl
  | .cons head tail, hrs, ⟨hhead, htail⟩ => by
    obtain ⟨hr, hrs⟩ := List.forall_mem_cons.mp hrs
    have hhead := head.isNullable hg hr hhead
    have htail := htail.elim .inl (tail.allNullable hg hrs)
    exact htail.imp_right fun htail => Bool.and_eq_true_iff.mpr ⟨hhead, htail⟩

/-- The same for alternatives. -/
theorem LowersAll.someNullable (hg : g.JudgesEmpty) {rs : List Rule} {steps : List Step} :
    LowersAll g start p rs steps → (∀ r ∈ rs, r.JudgesEmpty) →
    p.IdlesAmong early (g.IdleRule early) steps →
    Rule.someNullable (g.judgement early) (Rule.endingEarlyAll early rs) = true
  | .cons head tail, hrs, hidles => by
    obtain ⟨hr, hrs⟩ := List.forall_mem_cons.mp hrs
    exact Bool.or_eq_true_iff.mpr
      (hidles.imp (head.isNullable hg hr) (tail.someNullable hg hrs))

end

mutual

/-- What stands for an expression first calls rules that the expression is judged to refer to
first. -/
theorem Lowers.leftReferences (hg : g.JudgesEmpty) {r : Rule} {step : Step} {i : Nat} :
    Lowers g start p r step → r.JudgesEmpty → p.Begins early (g.IdleRule early) i step →
    ∃ name ∈ (r.endingEarly early).leftReferences (g.judgement early), g.number? name = some i
  | .leaf _ _ ⟨_, _, hstep, _⟩, _, hbegins => by
    subst hstep
    exact hbegins.elim
  | .lexical _ _ ⟨_, _, hstep, _⟩, _, hbegins => by
    subst hstep
    exact hbegins.elim
  | .symbol number _, _, hbegins => ⟨_, List.mem_singleton_self _, hbegins ▸ number⟩
  | .seq members, hr, hbegins => by
    obtain ⟨name, hname, hnumber⟩ :=
      members.leftReferencesOfSeq hg (Rule.judgesEmpty_seq.mp hr) hbegins
    exact ⟨name, Rule.mem_leftReferences_sequence.mpr hname, hnumber⟩
  | .choice members, hr, hbegins =>
    members.leftReferencesAmong hg (Rule.judgesEmpty_choice.mp hr) hbegins
  | .repetition content, hr, hbegins => content.leftReferences hg hr hbegins
  | .field content, hr, hbegins => content.leftReferences hg hr hbegins
  | .renamedLexical _ _ _ ⟨_, _, hstep, _⟩, _, hbegins => by
    subst hstep
    exact hbegins.elim
  | .renamedSymbol content number _ _, _, hbegins => by
    refine ⟨_, ?_, hbegins ▸ number⟩
    simp only [Rule.endingEarly, Rule.leftReferences]
    rw [← Rule.leftReferences_unwrapped, Rule.unwrapped_endingEarly_of_symbol content]
    exact List.mem_singleton_self _
  | .renamedLeaf _ ⟨_, _, hstep, _⟩, _, hbegins => by
    subst hstep
    exact hbegins.elim
  | .renamedNode _ _ content _, hr, hbegins => content.leftReferences hg hr hbegins

/-- The same for members in order. -/
theorem LowersAll.leftReferencesOfSeq (hg : g.JudgesEmpty) {rs : List Rule} {steps : List Step}
    {i : Nat} : LowersAll g start p rs steps → (∀ r ∈ rs, r.JudgesEmpty) →
    p.BeginsThrough early (g.IdleRule early) i steps →
    ∃ name ∈ Rule.leftReferencesOfSeq (g.judgement early) (Rule.endingEarlyAll early rs),
      g.number? name = some i
  | .cons head tail, hrs, .inl hhead => by
    obtain ⟨name, hname, hnumber⟩ :=
      head.leftReferences hg (List.forall_mem_cons.mp hrs).1 hhead
    exact ⟨name, List.mem_append_left _ hname, hnumber⟩
  | .cons head tail, hrs, .inr ⟨hhead, htail⟩ => by
    obtain ⟨hr, hrs⟩ := List.forall_mem_cons.mp hrs
    obtain ⟨name, hname, hnumber⟩ := tail.leftReferencesOfSeq hg hrs htail
    refine ⟨name, List.mem_append_right _ ?_, hnumber⟩
    rwa [if_pos (head.isNullable hg hr hhead)]

/-- The same for alternatives. -/
theorem LowersAll.leftReferencesAmong (hg : g.JudgesEmpty) {rs : List Rule} {steps : List Step}
    {i : Nat} : LowersAll g start p rs steps → (∀ r ∈ rs, r.JudgesEmpty) →
    p.BeginsAmong early (g.IdleRule early) i steps →
    ∃ name ∈ Rule.leftReferencesAmong (g.judgement early) (Rule.endingEarlyAll early rs),
      g.number? name = some i
  | .cons head tail, hrs, .inl hhead => by
    obtain ⟨name, hname, hnumber⟩ :=
      head.leftReferences hg (List.forall_mem_cons.mp hrs).1 hhead
    exact ⟨name, List.mem_append_left _ hname, hnumber⟩
  | .cons head tail, hrs, .inr htail => by
    obtain ⟨name, hname, hnumber⟩ :=
      tail.leftReferencesAmong hg (List.forall_mem_cons.mp hrs).2 htail
    exact ⟨name, List.mem_append_right _ hname, hnumber⟩

end

/-- The programs of a grammar have layerings, with one highest layer for all of them, if the grammar
in which sequences may end early has no left recursion. In them the rules that may succeed without
taking anything are those that are judged so. -/
theorem Grammar.JudgesEmpty.exists_layering_judged (hg : g.JudgesEmpty)
    (hcheck : (g.endingEarly early).checkLeftRecursion (g.endingEarly early).nullability = .ok ()) :
    ∃ top, ∀ (start : Nat) (p : Program), p.Implements g start →
      ∃ layers : p.Layering early, layers.top = top ∧ layers.idle = g.IdleRule early := by
  obtain ⟨layer, top, htop, hlayer⟩ := Grammar.exists_layers hcheck
  refine ⟨top, fun start p h => ?_⟩
  have hbeyond : ∀ i, ¬ i < g.rules.length → (p.rule i).body = .blank := fun i hi => by
    have hsize := h.size
    rw [Program.rule, Array.getElem?_eq_none (by omega), Option.getD_none]
    rfl
  refine ⟨⟨g.IdleRule early, layer, top, htop, fun i hidles => ?_, fun i below hbegins => ?_⟩, rfl,
    rfl⟩
  · by_cases hi : i < g.rules.length
    · rw [Grammar.idleRule_iff hi]
      cases hlexical : g.isLexical start i with
      | true =>
        exact (h.leaf i hi hlexical).isNullable (Grammar.isTerminal_of_isLexical hlexical)
          (hg.body hi) hidles
      | false => exact (h.body i hi hlexical).isNullable hg (hg.body hi) hidles
    · have hlength : (g.endingEarly early).nullability.length ≤ i := by
        rw [Grammar.length_nullability, Grammar.length_endingEarly]
        omega
      rw [Grammar.IdleRule, List.getElem?_eq_none hlength, Option.getD_none]
  · by_cases hi : i < g.rules.length
    · cases hlexical : g.isLexical start i with
      | true =>
        obtain ⟨_, _, hstep, -⟩ := h.leaf i hi hlexical
        rw [hstep] at hbegins
        exact hbegins.elim
      | false =>
        obtain ⟨name, hname, hnumber⟩ :=
          (h.body i hi hlexical).leftReferences hg (hg.body hi) hbegins
        refine hlayer i (by simpa using hi) name ?_ below (by simpa using hnumber)
        rwa [Grammar.body_endingEarly]
    · rw [hbeyond i hi] at hbegins
      exact hbegins.elim

/-- A grammar that passes the check for left recursion has its rules on layers, in every program of
it, and on as many in all of them. -/
theorem Grammar.JudgesEmpty.exists_layering (hg : g.JudgesEmpty)
    (hcheck : (g.endingEarly early).checkLeftRecursion (g.endingEarly early).nullability = .ok ()) :
    ∃ top, ∀ (start : Nat) (p : Program), p.Implements g start →
      ∃ layers : p.Layering early, layers.top = top := by
  obtain ⟨top, hlayers⟩ := hg.exists_layering_judged hcheck
  refine ⟨top, fun start p h => ?_⟩
  obtain ⟨layers, htop, -⟩ := hlayers start p h
  exact ⟨layers, htop⟩

/-- A program of a grammar has a layering if the grammar in which sequences may end early has no
left recursion. -/
theorem Program.Implements.exists_layering (h : p.Implements g start) (hg : g.JudgesEmpty)
    (hcheck : (g.endingEarly early).checkLeftRecursion (g.endingEarly early).nullability = .ok ()) :
    Nonempty (p.Layering early) := by
  obtain ⟨top, hlayers⟩ := hg.exists_layering hcheck
  obtain ⟨layers, -⟩ := hlayers start p h
  exact ⟨layers⟩

end

end Packrat
