import Packrat.Proofs.Grammar.Rejection
import Packrat.Proofs.Grammar.Vanishing
import Packrat.Proofs.Graph.Cycle
import Packrat.Proofs.Program.Kinds

/-!
# Left recursion is told exactly

A rule left-calls another one if it refers to it at a place before which everything can match
nothing. The graph that is searched for a cycle is the one of these calls, so left recursion is told
if and only if they have a cycle, and what is told is such a cycle without a repeated rule.
-/

namespace Packrat

namespace Rule

variable {f : String → Bool} {name : String} {r : Rule}

/-- What a member begins with, the sequence does, if the members before it can match nothing. -/
theorem mem_leftReferencesOfSeq {before after : List Rule}
    (hbefore : ∀ e ∈ before, e.isNullable f = true) (h : name ∈ r.leftReferences f) :
    name ∈ leftReferencesOfSeq f (before ++ r :: after) := by
  induction before with
  | nil => exact List.mem_append_left _ h
  | cons e before ih =>
    obtain ⟨he, hbefore⟩ := List.forall_mem_cons.mp hbefore
    rw [List.cons_append, leftReferencesOfSeq, if_pos he]
    exact List.mem_append_right _ (ih hbefore)

/-- What one of some alternatives begins with, they begin with. -/
theorem mem_leftReferencesAmong {rs : List Rule} (hr : r ∈ rs) (h : name ∈ r.leftReferences f) :
    name ∈ leftReferencesAmong f rs := by
  induction rs with
  | nil => cases hr
  | cons first rs ih =>
    rcases List.mem_cons.mp hr with rfl | hr
    · exact List.mem_append_left _ h
    · exact List.mem_append_right _ (ih hr)

end Rule

namespace Grammar

/-- `g.LeftRefers r name` says that an expression refers to a name outside of tokens, at a place
where every earlier member of every sequence around it can match nothing. -/
inductive LeftRefers (g : Grammar) : Rule → (name : String) → Prop
  | symbol {name} : LeftRefers g (.symbol name) name
  | seq {before r after name} (vanish : ∀ e ∈ before, g.Vanishes e)
      (member : LeftRefers g r name) : LeftRefers g (.seq (before ++ r :: after)) name
  | choice {r rs name} (member : r ∈ rs) (one : LeftRefers g r name) :
      LeftRefers g (.choice rs) name
  | repetition {r min max name} (content : LeftRefers g r name) :
      LeftRefers g (.repetition r min max) name
  | renamed {r other named name} (content : LeftRefers g r name) :
      LeftRefers g (.renamed r other named) name
  | field {r role name} (content : LeftRefers g r name) : LeftRefers g (.field role r) name

/-- Whether the rule of a name left-calls that of another one. -/
def LeftCalls (g : Grammar) (caller callee : String) : Prop :=
  ∃ body, (caller, body) ∈ g.rules ∧ g.LeftRefers body callee

variable {g : Grammar} {start : Option String} {name : String} {cycle : List String}
  {f : String → Bool}

/-- A reference behind what derives nothing is found, if derivations of nothing are judged well. -/
theorem LeftRefers.mem_leftReferences {r : Rule} (h : g.LeftRefers r name)
    (hf : ∀ r, g.Vanishes r → r.isNullable f = true) : name ∈ r.leftReferences f := by
  induction h with
  | symbol => exact List.mem_singleton_self _
  | seq vanish _ ih => exact Rule.mem_leftReferencesOfSeq (fun e he => hf e (vanish e he)) ih
  | choice member _ ih => exact Rule.mem_leftReferencesAmong member ih
  | repetition _ ih => exact ih
  | renamed _ ih => exact ih
  | field _ ih => exact ih

mutual

/-- A reference that is found stands behind what derives nothing. -/
theorem leftRefers_of_mem (hf : ∀ r, r.isNullable f = true → g.Vanishes r) : (r : Rule) →
    name ∈ r.leftReferences f → g.LeftRefers r name
  | .symbol target, h => by
    obtain rfl : name = target := List.mem_singleton.mp h
    exact .symbol
  | .seq members, h => by
    obtain ⟨before, r, after, rfl, hbefore, hr⟩ := leftRefers_of_memOfSeq hf members h
    exact .seq hbefore hr
  | .choice members, h => by
    obtain ⟨r, hmember, hr⟩ := leftRefers_of_memAmong hf members h
    exact .choice hmember hr
  | .repetition content _ _, h => .repetition (leftRefers_of_mem hf content h)
  | .renamed content _ _, h => .renamed (leftRefers_of_mem hf content h)
  | .field _ content, h => .field (leftRefers_of_mem hf content h)
  | .blank, h => nomatch h
  | .literal _, h => nomatch h
  | .pattern _ _, h => nomatch h
  | .token _ _, h => nomatch h

/-- A reference that is found in a sequence stands in a member, behind members that derive
nothing. -/
theorem leftRefers_of_memOfSeq (hf : ∀ r, r.isNullable f = true → g.Vanishes r) :
    (rs : List Rule) → name ∈ Rule.leftReferencesOfSeq f rs → ∃ before r after,
      rs = before ++ r :: after ∧ (∀ e ∈ before, g.Vanishes e) ∧ g.LeftRefers r name
  | [], h => nomatch h
  | r :: rs, h => by
    rcases List.mem_append.mp h with h | h
    · exact ⟨[], r, rs, rfl, nofun, leftRefers_of_mem hf r h⟩
    · split at h
      · rename_i hr
        obtain ⟨before, r', after, rfl, hbefore, hr'⟩ := leftRefers_of_memOfSeq hf rs h
        exact ⟨r :: before, r', after, rfl, List.forall_mem_cons.mpr ⟨hf r hr, hbefore⟩, hr'⟩
      · cases h

/-- A reference that is found among alternatives stands in one of them. -/
theorem leftRefers_of_memAmong (hf : ∀ r, r.isNullable f = true → g.Vanishes r) :
    (rs : List Rule) → name ∈ Rule.leftReferencesAmong f rs → ∃ r ∈ rs, g.LeftRefers r name
  | [], h => nomatch h
  | r :: rs, h => by
    rcases List.mem_append.mp h with h | h
    · exact ⟨r, List.mem_cons_self, leftRefers_of_mem hf r h⟩
    · obtain ⟨r', hmember, hr'⟩ := leftRefers_of_memAmong hf rs h
      exact ⟨r', List.mem_cons_of_mem r hmember, hr'⟩

end

/-- The graph that is searched is the one of the left calls, by the numbers of the rules. -/
theorem adj_leftGraph (hnames : (g.rules.map (·.1)).Nodup) {i j : Nat} :
    (g.leftGraph g.nullability).Adj i j ↔
      i < g.rules.length ∧ ∃ name, g.LeftRefers (g.body i) name ∧ g.number? name = some j := by
  refine (adj_iff_of_references _).trans (and_congr_right fun _ => exists_congr fun name => ?_)
  refine and_congr_left fun _ => ⟨?_, ?_⟩
  · exact leftRefers_of_mem (fun _ => (isNullable_iff_vanishes hnames).mp) _
  · exact fun h => h.mem_leftReferences fun _ => (isNullable_iff_vanishes hnames).mpr

/-- An edge of the graph that is searched is a left call. -/
theorem leftCalls_of_adj (hnames : (g.rules.map (·.1)).Nodup) {i j : Nat}
    (h : (g.leftGraph g.nullability).Adj i j) : g.LeftCalls (g.ruleName i) (g.ruleName j) := by
  obtain ⟨hi, name, hname, hj⟩ := (adj_leftGraph hnames).mp h
  rw [(of_number? hj).2]
  exact ⟨g.body i, mem_rules hi, hname⟩

/-- Where the left calls have a cycle, a way through their graph need not end. -/
theorem exists_not_ends (hnames : (g.rules.map (·.1)).Nodup) (h : IsCycle g.LeftCalls cycle) :
    ∃ i, ¬ (g.leftGraph g.nullability).Ends i := by
  have hcalls : ∀ name ∈ cycle, ∃ body i, g.number? name = some i ∧ g.body i = body ∧
      ∃ callee ∈ cycle, g.LeftRefers body callee := by
    intro name hname
    obtain ⟨callee, hcallee, body, hrule, hrefers⟩ := h.exists_next hname
    obtain ⟨i, hi, hbody⟩ := number?_of_mem hnames hrule
    exact ⟨body, i, hi, hbody, callee, hcallee, hrefers⟩
  obtain ⟨first, hfirst⟩ := List.exists_mem_of_ne_nil cycle h.1
  obtain ⟨_, i, hi, -⟩ := hcalls first hfirst
  refine ⟨i, Graph.not_ends_of_forall_adj (P := fun i => ∃ name ∈ cycle, g.number? name = some i)
    (fun i ⟨name, hname, hi⟩ => ?_) ⟨first, hfirst, hi⟩⟩
  obtain ⟨_, i', hi', rfl, callee, hcallee, hrefers⟩ := hcalls name hname
  cases hi.symm.trans hi'
  obtain ⟨_, j, hj, -⟩ := hcalls callee hcallee
  exact ⟨j, ⟨callee, hcallee, hj⟩,
    (adj_leftGraph hnames).mpr ⟨(of_number? hi).1, callee, hrefers, hj⟩⟩

/-- What the check tells is a cycle of left calls, and no rule is on it twice. -/
theorem isCycle_of_checkLeftRecursion (hnames : (g.rules.map (·.1)).Nodup)
    (h : g.checkLeftRecursion g.nullability = .error (.leftRecursion cycle)) :
    IsCycle g.LeftCalls cycle ∧ cycle.Nodup := by
  obtain ⟨found, hfound, htold⟩ := of_checkLeftRecursion h
  cases htold
  obtain ⟨hcycle, hnodup⟩ := Graph.isCycle_of_cycle? hfound
  refine ⟨hcycle.map fun i j => leftCalls_of_adj hnames, hnodup.map_on fun i hi j hj => ?_⟩
  have hlt : ∀ k ∈ found, k < g.rules.length := fun k hk => by
    obtain ⟨_, -, hadj⟩ := hcycle.exists_next hk
    exact ((adj_leftGraph hnames).mp hadj).1
  exact ruleName_inj hnames (hlt i hi) (hlt j hj)

/-- A check that is passed has found that the left calls have no cycle. -/
theorem not_isCycle_of_checkLeftRecursion (hnames : (g.rules.map (·.1)).Nodup)
    (h : g.checkLeftRecursion g.nullability = .ok ()) : ¬ IsCycle g.LeftCalls cycle := by
  intro hcycle
  obtain ⟨i, hi⟩ := exists_not_ends hnames hcycle
  refine hi (Graph.ends_of_cycle? ?_ i)
  unfold checkLeftRecursion at h
  simp only at h
  split at h
  · cases h
  · assumption

/-- Left recursion is told exactly. A grammar that passes the checks before is rejected for it if
and only if its left calls have a cycle, and the rules that are told are such a cycle, in order and
without repetition. -/
theorem leftRecursion_exact (hnames : g.checkNames = .ok ())
    (hstart : start.or g.startRule? = some name) (hdefined : g.defines name = true)
    (hreferences : g.checkReferences = .ok ()) :
    ((∃ cycle, g.analyze start = .error (.leftRecursion cycle)) ↔
        ∃ cycle, IsCycle g.LeftCalls cycle) ∧
      ∀ cycle, g.analyze start = .error (.leftRecursion cycle) →
        IsCycle g.LeftCalls cycle ∧ cycle.Nodup := by
  have hdistinct := nodup_of_checkNames hnames
  have htold : ∀ cycle, g.analyze start = .error (.leftRecursion cycle) →
      IsCycle g.LeftCalls cycle ∧ cycle.Nodup := by
    intro cycle h
    obtain ⟨-, -, hleft | ⟨-, hescape⟩⟩ := of_analyze_error h rfl
    · exact isCycle_of_checkLeftRecursion hdistinct hleft
    · obtain ⟨_, -, -, -, hother⟩ := of_checkEscape hescape
      cases hother
  refine ⟨⟨fun ⟨cycle, h⟩ => ⟨cycle, (htold cycle h).1⟩, fun ⟨cycle, hcycle⟩ => ?_⟩, htold⟩
  cases hleft : g.checkLeftRecursion g.nullability with
  | ok => exact absurd hcycle (not_isCycle_of_checkLeftRecursion hdistinct hleft)
  | error e =>
    obtain ⟨found, -, rfl⟩ := of_checkLeftRecursion hleft
    obtain ⟨i, hi⟩ := Option.isSome_iff_exists.mp hdefined
    refine ⟨found.map g.ruleName, ?_⟩
    rw [analyze_of_checks hnames hstart hi hreferences, hleft]
    rfl

/-- A sum begins with a term, a term with a value behind signs that may be left out, and a value
with a sum. The start rule left-calls the sum, but nothing calls it. -/
def signed : Grammar where
  name := "signed"
  rules := [
    ("s", .choice [.literal "0", .symbol "sum"]),
    ("sum", .seq [.symbol "term", .literal "+", .symbol "s"]),
    ("term", .seq [.repetition (.literal "-") 0 none, .symbol "value"]),
    ("value", .choice [.literal "n", .seq [.blank, .symbol "sum"]])]

/-- Sums of signed values call themselves on the left by way of two other rules, and this is
told. -/
theorem leftRecursion_exact_signed :
    signed.checkNames = .ok () ∧ signed.checkReferences = .ok () ∧
      signed.analyze none = .error (.leftRecursion ["sum", "term", "value"]) ∧
      IsCycle signed.LeftCalls ["sum", "term", "value"] := by
  have hnames : signed.checkNames = .ok () := by rfl
  have hreferences : signed.checkReferences = .ok () := by rfl
  have hanalysis : signed.analyze none = .error (.leftRecursion ["sum", "term", "value"]) := by rfl
  have hstart : none.or signed.startRule? = some "s" := rfl
  obtain ⟨-, hcycle⟩ := leftRecursion_exact hnames hstart (by rfl) hreferences
  exact ⟨hnames, hreferences, hanalysis, (hcycle _ hanalysis).1⟩

end Grammar

end Packrat
