import Packrat.Proofs.Guarded.Component
import Packrat.Proofs.Guarded.Nullability

/-!
# The guarded analysis

The graphs between rules lead from rules to rules, so the searches of them meet no fault, and the
numbers that they find are those of rules. With that no look-up of an analysis goes wrong, be the
grammar accepted or not.
-/

namespace Packrat

namespace Guarded

/-- The names of the rules of some numbers. -/
def names (g : Grammar) (cycle : List Nat) : Guarded (List String) :=
  cycle.mapM fun i => do return (← fetch g.rules i).1

/-- `Grammar.leftGraph` with its look-ups guarded. -/
def leftGraph (g : Grammar) (known : Grammar.Nullability) : Guarded Graph := do
  let targets ← g.rules.mapM fun rule => do
    return (← leftReferences (nullableRule g known) rule.2).filterMap g.number?
  return targets.toArray

/-- `Grammar.checkLeftRecursion` with its look-ups guarded. -/
def checkLeftRecursion (g : Grammar) (known : Grammar.Nullability) :
    Failing GrammarError Unit := do
  let graph ← leftGraph g known
  match ← cycle? graph graph.vertices with
  | some cycle => throw (.leftRecursion (← names g cycle))
  | none => return

/-- `Grammar.hasEscape` with its look-ups guarded. -/
def hasEscape (g : Grammar) (members : List Nat) : Guarded Bool :=
  members.anyM fun i => do return (← fetch g.rules i).2.escapes (g.isAmong members)

/-- `Graph.isRecursive` with its look-ups guarded. -/
def isRecursive (graph : Graph) (members : List Nat) : Guarded Bool := do
  if 1 < members.length then return true
  else
    let first ← fetch members 0
    return (← targets graph first).contains first

/-- The cycle that is told of rules that need each other. -/
def endlessCycle (graph : Graph) (members : List Nat) : Guarded (List Nat) := do
  let inOrder := members.mergeSort
  match ← cycle? (graph.within members) inOrder with
  | some cycle => return cycle
  | none => return [← fetch inOrder 0]

/-- `Grammar.checkComponent` with its look-ups guarded. -/
def checkComponent (g : Grammar) (graph : Graph) (members : List Nat) :
    Failing GrammarError Unit := do
  if !(← isRecursive graph members) then return
  else if ← hasEscape g members then return
  else throw (.endlessRecursion (← names g (← endlessCycle graph members)))

/-- `Grammar.checkEscape` with its look-ups guarded. -/
def checkEscape (g : Grammar) : Failing GrammarError Unit := do
  (← components g.referenceGraph).forM (checkComponent g g.referenceGraph)

/-- `Grammar.reachability` with its look-ups guarded. -/
def reachability (g : Grammar) (start : Nat) : Guarded (List Bool) := do
  let extras := g.extras.flatMap fun extra => extra.references.filterMap g.number?
  let reached ← reachable g.referenceGraph (start :: extras)
  return (List.range g.rules.length).map reached.contains

/-- `Grammar.shadowWarnings` with its look-ups guarded. -/
def shadowWarnings (nullable : String → Guarded Bool) (rule : String × Rule) :
    Guarded (List GrammarWarning) := do
  let found ← rule.2.choices.mapM fun members => do
    return (← shadowed nullable members).map fun p => .shadowedAlternative rule.1 p.1 p.2
  return found.flatten

/-- The warnings about rules that nothing leads to. -/
def unreachableRules (g : Grammar) (reached : List Bool) : Guarded (List GrammarWarning) := do
  let found ← g.rules.zipIdx.mapM fun rule => do
    return if ← fetch reached rule.2 then none else some (.unreachableRule rule.1.1)
  return found.filterMap id

/-- The warnings about repetitions of what can match nothing. -/
def nullableRepetitions (nullable : String → Guarded Bool) (g : Grammar) :
    Guarded (List GrammarWarning) := do
  let found ← g.rules.mapM fun rule => do
    return if ← repeatsNullable nullable rule.2 then some (.nullableRepetition rule.1) else none
  return found.filterMap id

/-- `Grammar.warnings` with its look-ups guarded. -/
def warnings (g : Grammar) (reached : List Bool) (known : Grammar.Nullability) :
    Guarded (List GrammarWarning) := do
  let nullable := nullableRule g known
  let unreachable ← unreachableRules g reached
  let repetitions ← nullableRepetitions nullable g
  let shadows ← g.rules.mapM (shadowWarnings nullable)
  return unreachable ++ repetitions ++ shadows.flatten

/-- `Grammar.analyzeFrom` with its look-ups guarded. -/
def analyzeFrom (g : Grammar) (name : String) : Failing GrammarError Analysis := do
  lift g.checkNames
  match g.number? name with
  | none => throw (.missingStart name)
  | some start =>
    lift g.checkReferences
    let nullable ← nullability g
    checkLeftRecursion g nullable
    checkEscape g
    let reachable ← reachability g start
    return {
      start, nullable, reachable
      lexical := g.lexicality start
      warnings := ← warnings g reachable nullable }

/-- `Grammar.analyze` with its look-ups guarded. -/
def analyze (g : Grammar) (start : Option String) : Failing GrammarError Analysis :=
  match start.or g.startRule? with
  | some name => analyzeFrom g name
  | none => throw .noRules

end Guarded

namespace Graph

variable {graph : Graph}

/-- A graph cut down to some vertices keeps the numbers of all. -/
theorem size_within (members : List Nat) : (graph.within members).size = graph.size := by
  rw [within, Array.size_map]

/-- A graph cut down to some vertices leads to vertices still. -/
theorem Closed.within (h : graph.Closed) (members : List Nat) : (graph.within members).Closed := by
  intro v w hvw
  rw [size_within]
  refine h v w ?_
  simp only [Adj, targets, Graph.within, Array.getElem?_map] at hvw ⊢
  cases hv : graph[v]? with
  | none => simp [hv] at hvw
  | some targets =>
    rw [hv] at hvw
    exact (List.mem_filter.mp hvw).1

/-- Whether some vertices are told to need each other. -/
theorem isRecursive_guarded {members : List Nat} (hne : members ≠ [])
    (hmembers : ∀ v ∈ members, v < graph.size) :
    Guarded.isRecursive graph members = .ok (graph.isRecursive members) := by
  match members with
  | [] => exact absurd rfl hne
  | [v] =>
    have hv : v < graph.size := hmembers v List.mem_cons_self
    have hfetch : Guarded.fetch [v] 0 = .ok v := rfl
    rw [Guarded.isRecursive, if_neg (by simp), hfetch, Guarded.ok_bind, guarded_targets hv]
    rfl
  | v :: w :: rest =>
    rw [Guarded.isRecursive, if_pos (by simp)]
    rfl

/-- The cycle in a component is found without a look-up that fails, and it is one of vertices. -/
theorem endlessCycle_guarded (hgraph : graph.Closed) {members : List Nat} (hne : members ≠ [])
    (hmembers : ∀ v ∈ members, v < graph.size) :
    let cycle := ((graph.within members).cycle? members.mergeSort).getD (members.mergeSort.take 1)
    Guarded.endlessCycle graph members = .ok cycle ∧ ∀ v ∈ cycle, v < graph.size := by
  have hinOrder : ∀ v ∈ members.mergeSort, v < graph.size := fun v hv =>
    hmembers v ((List.mergeSort_perm members _).mem_iff.mp hv)
  obtain ⟨hsearch, hcycle⟩ := cycle?_guarded (hgraph.within members) members.mergeSort
    (by rwa [size_within])
  rw [size_within] at hcycle
  rw [Guarded.endlessCycle, hsearch, Guarded.ok_bind]
  cases hfound : (graph.within members).cycle? members.mergeSort with
  | some cycle => exact ⟨rfl, hcycle cycle hfound⟩
  | none =>
    cases hsorted : members.mergeSort with
    | nil =>
      have hlength := (List.mergeSort_perm members (· ≤ ·)).length_eq
      rw [hsorted, List.length_nil] at hlength
      exact absurd (List.length_eq_zero_iff.mp hlength.symm) hne
    | cons v rest =>
      rw [hsorted, List.forall_mem_cons] at hinOrder
      exact ⟨rfl, by simpa using hinOrder.1⟩

end Graph

namespace Grammar

variable {g : Grammar} {known : Nullability} {members : List Nat}

/-- The graph of references of some sort leads to rules. -/
theorem closed_of_references (g : Grammar) (references : Rule → List String) :
    Graph.Closed (g.rules.map fun rule => (references rule.2).filterMap g.number?).toArray := by
  intro v w hvw
  obtain ⟨-, name, -, hw⟩ := (adj_iff_of_references references).mp hvw
  simpa using (of_number? hw).1

/-- Rules begin with rules that there are. -/
theorem closed_leftGraph (g : Grammar) (known : Nullability) : (g.leftGraph known).Closed :=
  g.closed_of_references _

/-- Rules refer to rules that there are. -/
theorem closed_referenceGraph (g : Grammar) : g.referenceGraph.Closed :=
  g.closed_of_references _

/-- Each rule is a vertex of the graph of what rules begin with. -/
theorem size_leftGraph (g : Grammar) (known : Nullability) :
    (g.leftGraph known).size = g.rules.length := by
  simp [leftGraph]

/-- Each rule is a vertex of the graph of references. -/
theorem size_referenceGraph (g : Grammar) : g.referenceGraph.size = g.rules.length := by
  simp [referenceGraph]

/-- The number of a rule is looked up as its name and its body. -/
theorem fetch_rule {i : Nat} (hi : i < g.rules.length) :
    Guarded.fetch g.rules i = .ok (g.ruleName i, g.body i) := by
  rw [ruleName, body, List.getElem?_eq_getElem hi]
  exact Guarded.fetch_eq (List.getElem?_eq_getElem hi)

/-- The rules on a cycle have names that can be looked up. -/
theorem names_guarded {cycle : List Nat} (h : ∀ i ∈ cycle, i < g.rules.length) :
    Guarded.names g cycle = .ok (cycle.map g.ruleName) :=
  Guarded.mapM_map_eq fun i hi => fetch_rule (h i hi)

/-- What rules begin with is found without a look-up that fails, when it is known of each whether it
can match nothing. -/
theorem leftGraph_guarded (hlength : known.length = g.rules.length) :
    Guarded.leftGraph g known = .ok (g.leftGraph known) := by
  rw [Guarded.leftGraph, Guarded.mapM_map_eq fun rule _ =>
    rule.2.leftReferences_guarded (nullableRule_guarded hlength)]
  rfl

/-- The search for a left-recursive rule meets no fault. -/
theorem checkLeftRecursion_guarded (hlength : known.length = g.rules.length) :
    Guarded.checkLeftRecursion g known = Guarded.lift (g.checkLeftRecursion known) := by
  obtain ⟨hsearch, hcycle⟩ := Graph.cycle?_guarded (g.closed_leftGraph known)
    (g.leftGraph known).vertices fun v hv => List.mem_range.mp hv
  rw [size_leftGraph] at hcycle
  rw [Guarded.checkLeftRecursion, leftGraph_guarded hlength, Guarded.liftM_ok_bind, hsearch,
    Guarded.liftM_ok_bind, checkLeftRecursion]
  cases hfound : (g.leftGraph known).cycle? (g.leftGraph known).vertices with
  | none => rfl
  | some cycle =>
    have hnames := names_guarded (hcycle cycle hfound)
    simp only [hnames, Guarded.liftM_ok_bind]
    rfl

/-- Whether a component has a way out is found without a look-up that fails. -/
theorem hasEscape_guarded (h : ∀ i ∈ members, i < g.rules.length) :
    Guarded.hasEscape g members = .ok (g.hasEscape members) := by
  refine Guarded.anyM_eq fun i hi => ?_
  rw [fetch_rule (h i hi)]
  rfl

/-- The check of a component meets no fault. -/
theorem checkComponent_guarded (hne : members ≠ []) (h : ∀ i ∈ members, i < g.rules.length) :
    Guarded.checkComponent g g.referenceGraph members =
      Guarded.lift (g.checkComponent g.referenceGraph members) := by
  have hvertices : ∀ i ∈ members, i < g.referenceGraph.size := by rwa [size_referenceGraph]
  rw [Guarded.checkComponent, Graph.isRecursive_guarded hne hvertices, Guarded.liftM_ok_bind,
    checkComponent]
  cases g.referenceGraph.isRecursive members with
  | false => rfl
  | true =>
    rw [if_neg (by simp), hasEscape_guarded h, Guarded.liftM_ok_bind]
    cases g.hasEscape members with
    | true => rfl
    | false =>
      obtain ⟨hendless, hcycle⟩ :=
        Graph.endlessCycle_guarded g.closed_referenceGraph hne hvertices
      rw [size_referenceGraph] at hcycle
      rw [if_neg (by simp), hendless, Guarded.liftM_ok_bind, names_guarded hcycle,
        Guarded.liftM_ok_bind]
      rfl

/-- The check for a way out meets no fault, whatever it finds. -/
theorem checkEscape_guarded (g : Grammar) :
    Guarded.checkEscape g = Guarded.lift g.checkEscape := by
  obtain ⟨hcomponents, hinside⟩ := Graph.components_guarded g.closed_referenceGraph
  rw [size_referenceGraph] at hinside
  rw [Guarded.checkEscape, hcomponents, Guarded.liftM_ok_bind, checkEscape]
  exact Guarded.forM_lift fun members hmembers =>
    checkComponent_guarded (hinside members hmembers).1 (hinside members hmembers).2

/-- The rules that can be reached are found without a look-up that fails. -/
theorem reachability_guarded {start : Nat} (hstart : start < g.rules.length) :
    Guarded.reachability g start = .ok (g.reachability start) := by
  have hstarts : ∀ i ∈ start :: g.extras.flatMap fun extra =>
      extra.references.filterMap g.number?, i < g.referenceGraph.size := by
    rw [size_referenceGraph, List.forall_mem_cons]
    refine ⟨hstart, fun i hi => ?_⟩
    obtain ⟨extra, -, hi⟩ := List.mem_flatMap.mp hi
    obtain ⟨name, -, hi⟩ := List.mem_filterMap.mp hi
    exact (of_number? hi).1
  rw [Guarded.reachability, Graph.reachable_guarded g.closed_referenceGraph hstarts]
  rfl

/-- It is told of each rule whether it can be reached. -/
theorem length_reachability (g : Grammar) (start : Nat) :
    (g.reachability start).length = g.rules.length := by
  simp [reachability]

/-- The warnings about alternatives of a rule are found without a fault. -/
theorem shadowWarnings_guarded {f : String → Guarded Bool} {f' : String → Bool}
    (h : ∀ name, f name = .ok (f' name)) (rule : String × Rule) :
    Guarded.shadowWarnings f rule = .ok (shadowWarnings f' rule) := by
  rw [Guarded.shadowWarnings, Guarded.mapM_map_eq fun members _ => shadowed_guarded h members,
    shadowWarnings, List.flatMap_def]
  rfl

/-- The warnings about rules out of reach are found without a fault. -/
theorem unreachableRules_guarded {reached : List Bool} (h : g.rules.length = reached.length) :
    Guarded.unreachableRules g reached = .ok ((g.rules.zip reached).filterMap fun rule =>
      if rule.2 then none else some (.unreachableRule rule.1.1)) := by
  have hrules : (g.rules.zipIdx.mapM fun rule => do
      return if ← Guarded.fetch reached rule.2 then none
        else some (GrammarWarning.unreachableRule rule.1.1)) =
      .ok ((g.rules.zip reached).map fun rule =>
        if rule.2 then none else some (.unreachableRule rule.1.1)) := by
    refine Guarded.mapM_zipIdx_eq 0 (by simp [h]) fun i rule found hrule hfound => ?_
    have hi : i < reached.length := h ▸ (List.getElem?_eq_some_iff.mp hrule).1
    have hplace := List.getElem?_eq_getElem hi
    have hpair : (g.rules.zip reached)[i]? = some (rule, reached[i]) :=
      List.getElem?_zip_eq_some.mpr ⟨hrule, hplace⟩
    rw [List.getElem?_map, hpair] at hfound
    rw [Nat.zero_add, Guarded.fetch_eq hplace]
    exact congrArg _ (Option.some.inj hfound)
  rw [Guarded.unreachableRules, hrules]
  exact congrArg Except.ok (List.filterMap_map ..)

/-- The warnings about repetitions are found without a fault. -/
theorem nullableRepetitions_guarded {f : String → Guarded Bool} {f' : String → Bool}
    (h : ∀ name, f name = .ok (f' name)) :
    Guarded.nullableRepetitions f g = .ok (g.rules.filterMap fun rule =>
      if rule.2.repeatsNullable f' then some (.nullableRepetition rule.1) else none) := by
  rw [Guarded.nullableRepetitions,
    Guarded.mapM_map_eq fun rule _ => rule.2.repeatsNullable_guarded h]
  exact congrArg Except.ok (List.filterMap_map ..)

/-- The search for what is odd about a grammar meets no fault. -/
theorem warnings_guarded {reached : List Bool} (hreached : g.rules.length = reached.length)
    (hlength : known.length = g.rules.length) :
    Guarded.warnings g reached known = .ok (g.warnings reached known) := by
  have hnullable := nullableRule_guarded hlength
  rw [Guarded.warnings, unreachableRules_guarded hreached, Guarded.ok_bind,
    nullableRepetitions_guarded hnullable, Guarded.ok_bind,
    Guarded.mapM_eq fun rule _ => shadowWarnings_guarded hnullable rule, warnings,
    List.flatMap_def]
  rfl

/-- An analysis meets no fault, whether it accepts the grammar or not. -/
theorem analyzeFrom_guarded (g : Grammar) (name : String) :
    Guarded.analyzeFrom g name = Guarded.lift (g.analyzeFrom name) := by
  refine Guarded.lift_bind fun _ _ => ?_
  cases hstart : g.number? name with
  | none => rfl
  | some start =>
    have hlength := g.length_nullability
    have hreached := (g.length_reachability start).symm
    refine Guarded.lift_bind fun _ _ => ?_
    rw [nullability_guarded, Guarded.liftM_ok_bind, checkLeftRecursion_guarded hlength]
    refine Guarded.lift_bind fun _ _ => ?_
    rw [checkEscape_guarded]
    refine Guarded.lift_bind fun _ _ => ?_
    rw [reachability_guarded (of_number? hstart).1, Guarded.liftM_ok_bind,
      warnings_guarded hreached hlength]
    rfl

/-- The analysis of a grammar meets no fault, be there an error to tell or not. -/
theorem analyze_guarded (g : Grammar) (start : Option String) :
    Guarded.analyze g start = Guarded.lift (g.analyze start) := by
  rw [Guarded.analyze, analyze]
  cases start.or g.startRule? with
  | none => rfl
  | some name => exact g.analyzeFrom_guarded name

end Grammar

end Packrat
