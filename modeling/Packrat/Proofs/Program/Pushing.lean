import Packrat.Program.Arena
import Packrat.Proofs.Except
import Packrat.Proofs.Program.Lowered

/-!
# Pushing operations

Going through an expression enters what its sketch mentions and pushes the row of the operation that
the sketch becomes behind what was pushed before. The numbers in a row are those of the tables at
that moment, and no number changes later. So the row that is pushed for a grammar is the row of its
program.
-/

namespace Packrat

/-- Entering what stands in the tables changes nothing. -/
theorem Tables.enter_of_knows {t : Tables} {m : Mention} (h : t.Knows m) : t.enter m = .ok t := by
  rcases t with ⟨kinds, forms, terminals⟩
  cases m with
  | kind kind =>
    obtain ⟨i, hi⟩ := h
    simp only [enter, hi, Option.isSome_some, if_true]
  | terminal use =>
    obtain ⟨i, hi, -⟩ := h
    simp only [enter, hi, Option.isSome_some, if_true]

namespace Pushing

variable {α β : Type} {base : Tables} {ms ms' : List Mention}

/-- What a step gives and which cells it pushes, told by the tables behind it and the place of the
first cell. -/
abbrev Row (α : Type) : Type := Tables → Nat → List Cell × α

/-- Whether a step enters what is mentioned and pushes a row behind what was pushed before, whenever
the tables extend some. The row does not change with what is entered later. -/
structure Lays (base : Tables) (x : Pushing α) (ms : List Mention) (row : Row α) : Prop where
  run : ∀ s : Lowering, base.Extends s.tables → s.tables.Even →
    x s = ms.foldlM Tables.enter s.tables >>= fun t =>
      .ok ((row t s.cells.size).2, ⟨t, s.cells ++ (row t s.cells.size).1.toArray⟩)
  stable : ∀ t t' : Tables, t.Extends t' → (∀ m ∈ ms, t.Knows m) → row t' = row t

namespace Lays

variable {x : Pushing α} {row : Row α}

/-- What a step pushes may be told in other words. -/
theorem congr {row' : Row α} (h : Lays base x ms row) (hms : ms = ms')
    (hrow : ∀ t first, row t first = row' t first) : Lays base x ms' row' := by
  obtain rfl : row = row' := funext fun t => funext (hrow t)
  exact hms ▸ h

/-- A step that only gives something pushes nothing. -/
protected theorem pure (a : α) : Lays base (return a) [] fun _ _ => ([], a) where
  run s _ _ := by
    change Except.ok (a, s) = Except.ok (a, ⟨s.tables, s.cells ++ #[]⟩)
    rw [Array.append_empty]
  stable _ _ _ _ := rfl

/-- Of two steps in order, the second pushes its row behind that of the first. -/
protected theorem bind {f : α → Pushing β} {row' : α → Row β} (h : Lays base x ms row)
    (hf : ∀ a, Lays base (f a) ms' (row' a)) :
    Lays base (x >>= f) (ms ++ ms') fun t first =>
      let laid := row t first
      let next := row' laid.2 t (first + laid.1.length)
      (laid.1 ++ next.1, next.2) where
  run s hs heven := by
    change (x s >>= fun out => f out.1 out.2) = _
    rw [h.run s hs heven, List.foldlM_append, bind_assoc, bind_assoc]
    refine Except.bind_congr_ok fun t ht => ?_
    obtain ⟨hextends, hknows, heven'⟩ := Tables.of_foldlM_enter ht heven
    change f _ _ = _
    rw [(hf _).run _ (hs.trans hextends) heven']
    refine Except.bind_congr_ok fun t' ht' => ?_
    -- what was pushed first is the same over the tables behind both steps
    simp only [h.stable t t' (Tables.of_foldlM_enter ht' heven').1 hknows, Array.size_append,
      List.size_toArray, Array.append_assoc, List.append_toArray]
  stable t t' hextends hknows := by
    rw [List.forall_mem_append] at hknows
    simp only [h.stable t t' hextends hknows.1, (hf _).stable t t' hextends hknows.2]

/-- A cell that is pushed has the place behind what was pushed before. -/
theorem push (cell : Cell) : Lays base (Pushing.push cell) [] fun _ first => ([cell], first) where
  run _ _ _ := rfl
  stable _ _ _ _ := rfl

/-- Entering a kind pushes nothing and gives its number. -/
theorem kind (k : Kind) :
    Lays base (Pushing.kind k) [.kind k] fun t _ => ([], t.kindNumber k) where
  run s _ _ := by
    simp only [List.foldlM_cons, List.foldlM_nil, bind_pure, Array.append_empty]
    rfl
  stable t t' hextends hknows := by
    simp only [hextends.kindNumber_eq (hknows _ List.mem_cons_self)]

/-- Entering a terminal pushes nothing and gives its number. -/
theorem terminal (use : TerminalUse) :
    Lays base (Pushing.terminal use) [.terminal use] fun t _ => ([], t.terminalNumber use) where
  run s _ _ := by
    simp only [List.foldlM_cons, List.foldlM_nil, bind_pure, Array.append_empty]
    rfl
  stable t t' hextends hknows := by
    simp only [hextends.terminalNumber_eq (hknows _ List.mem_cons_self)]

/-- A kind that stands in the tables has its number without being entered. -/
theorem known {k : Kind} (hknows : base.Knows (.kind k)) :
    Lays base (return base.kindNumber k) [.kind k] fun t _ => ([], t.kindNumber k) where
  run s hs _ := by
    rw [List.foldlM_cons, Tables.enter_of_knows (hs.knows hknows)]
    change _ = Except.ok (s.tables.kindNumber k, (⟨s.tables, s.cells ++ #[]⟩ : Lowering))
    rw [hs.kindNumber_eq hknows, Array.append_empty]
    rfl
  stable := (show Lays base _ _ _ from kind k).stable

/-- A step for each of some things, none of which pushes anything. -/
theorem mapM (base : Tables) {γ : Type} {f : γ → Pushing α} {mentions : γ → List Mention}
    {g : Tables → γ → α} (h : ∀ c, Lays base (f c) (mentions c) fun t _ => ([], g t c))
    (l : List γ) :
    Lays base (l.mapM f) (l.flatMap mentions) fun t _ => ([], l.map (g t)) := by
  induction l with
  | nil => exact .pure []
  | cons c l ih =>
    rw [List.mapM_cons]
    refine ((h c).bind fun a => ih.bind fun as => .pure (a :: as)).congr ?_ fun _ _ => rfl
    rw [List.append_nil, List.flatMap_cons]

end Lays

end Pushing

namespace Analysed

open Pushing (Lays Row)

variable {a : Analysed} {base : Tables} {kinds : List Nat} {sketch : Sketch}
  {sketches : List Sketch}

/-- The row of the operation that a sketch becomes, and the place of this. -/
def rowOf (sketch : Sketch) : Row Nat := fun t first =>
  let row := (Tables.step t sketch).cells first
  (row, first + row.length - 1)

/-- The rows of the operations that some sketches become, and the places of these. -/
def rowsOf (sketches : List Sketch) : Row (List Nat) := fun t first =>
  Op.cellsAmong first (Op.mapAll t.terminalNumber t.kindNumber sketches)

/-- Whether a step pushes the row of a sketch. -/
abbrev Pushes (base : Tables) (x : Pushing Nat) (sketch : Sketch) : Prop :=
  Lays base x sketch.mentions (rowOf sketch)

/-- Whether `kinds` are the numbers of the kinds of the rules. -/
def NumbersRules (a : Analysed) (base : Tables) (kinds : List Nat) : Prop :=
  ∀ i < a.grammar.rules.length, base.Knows (.kind (a.ruleKind i)) ∧
    kinds.getD i 0 = base.kindNumber (a.ruleKind i)

/-- What comes to nothing is a single blank operation. -/
theorem pushes_blank : Pushes base (Pushing.push .blank) .blank := .push .blank

/-- A single terminal is pushed as the leaf that its sketch is, once its kind is numbered. -/
theorem pushes_leaf {rule : String} {r : Rule} {x : TerminalForm → Pushing Nat}
    {kindOf : TerminalForm → Kind}
    (hx : ∀ form, Lays base (x form) [.kind (kindOf form)] fun t _ =>
      ([], t.kindNumber (kindOf form))) :
    Pushes base (pushLeaf rule r x) (leaf rule r kindOf) := by
  unfold pushLeaf leaf
  cases r.form? with
  | none => exact pushes_blank
  | some form =>
    exact ((Lays.terminal _).bind fun _ => (hx form).bind fun _ => .push _).congr rfl
      fun _ _ => rfl

/-- A reference is pushed as a leaf if the rule is lexical, and otherwise as a call. -/
theorem pushes_reference (hkinds : a.NumbersRules base kinds) (name : String)
    (renamed : Option (String × Bool)) :
    Pushes base (a.pushReference kinds name renamed) (a.reference name renamed) := by
  unfold pushReference reference
  cases hnumber : a.grammar.number? name with
  | none => exact pushes_blank
  | some i =>
    obtain ⟨hknows, hkind⟩ := hkinds i (Grammar.of_number? hnumber).1
    dsimp only
    split
    · refine pushes_leaf fun _ => ?_
      cases renamed with
      | none => exact hkind ▸ .known hknows
      | some other => exact .kind _
    · cases renamed with
      | none => exact .push _
      | some other => exact ((Lays.kind _).bind fun _ => .push _).congr rfl fun _ _ => rfl

mutual

/-- Going through an expression pushes the row of its sketch. -/
theorem pushes_rule (hkinds : a.NumbersRules base kinds) (rule : String) : (r : Rule) →
    Pushes base (a.pushRule kinds rule r) (a.sketch rule r)
  | .blank => pushes_blank
  | .literal _ => pushes_leaf fun _ => .kind _
  | .pattern _ _ => pushes_leaf fun _ => .kind _
  | .token _ _ => pushes_leaf fun _ => .kind _
  | .symbol name => pushes_reference hkinds name none
  | .seq members =>
    ((pushes_rules hkinds rule members).bind fun _ => .push _).congr (List.append_nil _)
      fun t first => by simp [rowOf, rowsOf, sketch, Tables.step, Op.map, Op.cells]
  | .choice members =>
    ((pushes_rules hkinds rule members).bind fun _ => .push _).congr (List.append_nil _)
      fun t first => by simp [rowOf, rowsOf, sketch, Tables.step, Op.map, Op.cells]
  | .repetition content _ _ =>
    ((pushes_rule hkinds rule content).bind fun _ => .push _).congr (List.append_nil _)
      fun t first => by simp [rowOf, sketch, Tables.step, Op.map, Op.cells]
  | .field _ content => pushes_rule hkinds rule content
  | .renamed content name named => by
    have hinner := (pushes_rule hkinds rule content).bind fun body =>
      (Lays.kind ⟨name, named, .node⟩).bind fun kind => .push (.wrap body kind)
    unfold pushRule sketch
    generalize content.unwrapped = inner
    cases inner with
    | symbol target => exact pushes_reference hkinds _ _
    | _ =>
      dsimp only
      split
      · exact pushes_leaf fun _ => .kind _
      · exact hinner.congr rfl fun t first => by simp [rowOf, Tables.step, Op.map, Op.cells]

/-- The same for some expressions in a row. -/
theorem pushes_rules (hkinds : a.NumbersRules base kinds) (rule : String) : (rs : List Rule) →
    Lays base (a.pushRules kinds rule rs) (Op.mentionsAmong (a.sketchAll rule rs))
      (rowsOf (a.sketchAll rule rs))
  | [] => .pure []
  | r :: rs => by
    have hall := (pushes_rule hkinds rule r).bind fun place =>
      (pushes_rules hkinds rule rs).bind fun places => .pure (place :: places)
    refine hall.congr (by simp [sketchAll, Op.mentionsAmong]) fun t first => ?_
    simp [rowOf, rowsOf, sketchAll, Op.mapAll, Op.cellsAmong]

end

/-- Going through the rule of a number pushes the row of its sketch. -/
theorem pushes_body (hkinds : a.NumbersRules base kinds) {i : Nat}
    (hi : i < a.grammar.rules.length) : Pushes base (a.pushBody kinds i) (a.ruleSketch i) := by
  obtain ⟨hknows, hkind⟩ := hkinds i hi
  unfold pushBody ruleSketch
  dsimp only
  split
  · exact pushes_leaf fun _ => hkind ▸ .known hknows
  · exact pushes_rule hkinds _ _

/-- Going through some rules pushes the rows of their sketches and gives them their places. -/
theorem lays_bodies (hkinds : a.NumbersRules base kinds) {is : List Nat}
    (his : ∀ i ∈ is, i < a.grammar.rules.length) :
    Lays base (a.pushBodies kinds is) (Op.mentionsAmong (is.map a.ruleSketch)) fun t first =>
      let row := rowsOf (is.map a.ruleSketch) t first
      (row.1, List.zipWith (a.placedRule kinds) is row.2) := by
  induction is with
  | nil => exact .pure []
  | cons i is ih =>
    rw [List.forall_mem_cons] at his
    refine ((pushes_body hkinds his.1).bind fun body => (ih his.2).bind fun rules =>
      .pure (a.placedRule kinds i body :: rules)).congr (by simp [Op.mentionsAmong])
      fun t first => ?_
    simp [rowOf, rowsOf, Op.mapAll, Op.cellsAmong]

/-- The kinds that come first are entered, and nothing is pushed for them. -/
theorem lays_kinds (a : Analysed) : Lays {} a.pushKinds
    (.kind .error :: .kind .skipped :: (List.range a.grammar.rules.length).map fun i =>
      .kind (a.ruleKind i)) fun t _ =>
      ([], (List.range a.grammar.rules.length).map fun i => t.kindNumber (a.ruleKind i)) := by
  refine ((Lays.kind .error).bind fun _ => (Lays.kind .skipped).bind fun _ =>
    Lays.mapM _ (fun i => .kind (a.ruleKind i)) _).congr ?_ fun _ _ => rfl
  simp [List.map_eq_flatMap]

/-- The rows of all rules are pushed, and nothing for the extras and the tokens to stop at. -/
theorem lays_parts (hkinds : a.NumbersRules base kinds) (sync : List String) :
    Lays base (a.pushParts kinds sync)
      (Op.mentionsAmong a.sketches ++
        ((a.grammar.extras.filterMap a.extra?).flatMap (fun e => [.terminal e.1, .kind e.2]) ++
          sync.map fun name => .terminal (a.syncUse name))) fun t first =>
      let row := rowsOf a.sketches t first
      (row.1, List.zipWith (a.placedRule kinds) (List.range a.grammar.rules.length) row.2,
        (a.grammar.extras.filterMap a.extra?).map fun e => (t.terminalNumber e.1, t.kindNumber e.2),
        sync.map fun name => t.terminalNumber (a.syncUse name)) := by
  have hextras := Lays.mapM base
    (fun e : TerminalUse × Kind => ((Lays.terminal e.1).bind fun terminal =>
      (Lays.kind e.2).bind fun kind => .pure (terminal, kind)).congr rfl fun _ _ => rfl)
    (a.grammar.extras.filterMap a.extra?)
  have hsync := Lays.mapM base (fun name => .terminal (a.syncUse name)) sync
  refine ((lays_bodies hkinds fun i hi => List.mem_range.mp hi).bind fun rules =>
    hextras.bind fun extras => hsync.bind fun sync => .pure (rules, extras, sync)).congr ?_
    fun t first => ?_
  · simp [sketches, List.map_eq_flatMap]
  · simp [sketches]

/-- The kinds of the rules are numbered once they are entered. -/
theorem numbersRules (a : Analysed) {t : Tables}
    (hknows : ∀ i < a.grammar.rules.length, t.Knows (.kind (a.ruleKind i))) :
    a.NumbersRules t ((List.range a.grammar.rules.length).map fun i =>
      t.kindNumber (a.ruleKind i)) :=
  fun i hi => ⟨hknows i hi, by simp [hi]⟩

/-- What a grammar mentions is what its kinds and its parts do. -/
theorem mentions_eq_append (a : Analysed) (sync : List String) : a.mentions a.sketches sync =
    (.kind .error :: .kind .skipped :: (List.range a.grammar.rules.length).map fun i =>
      .kind (a.ruleKind i)) ++ (Op.mentionsAmong a.sketches ++
        ((a.grammar.extras.filterMap a.extra?).flatMap (fun e => [.terminal e.1, .kind e.2]) ++
          sync.map fun name => .terminal (a.syncUse name))) := by
  have hsketches : ∀ sketches : List Sketch,
      Op.mentionsAmong sketches = sketches.flatMap Op.mentions := by
    intro sketches
    induction sketches with
    | nil => rfl
    | cons sketch sketches ih => rw [Op.mentionsAmong, ih, List.flatMap_cons]
  simp [mentions, hsketches]

/-- The rules with the places of their bodies are those of the program, whatever was entered behind
their kinds. -/
theorem zipWith_placedRule {t t' : Tables} (hextends : t.Extends t')
    (hknows : ∀ i < a.grammar.rules.length, t.Knows (.kind (a.ruleKind i))) (bodies : List Nat) :
    List.zipWith (a.placedRule ((List.range a.grammar.rules.length).map fun i =>
      t.kindNumber (a.ruleKind i))) (List.range a.grammar.rules.length) bodies =
      List.zipWith ProgramRule.placed (a.sketches.zipIdx.map (a.programRule t')) bodies := by
  refine List.ext_getElem (by simp [sketches]) fun i hi _ => ?_
  have hi : i < a.grammar.rules.length := by
    rw [List.length_zipWith, List.length_range] at hi
    omega
  simp [placedRule, ProgramRule.placed, programRule, sketches, hi,
    hextends.kindNumber_eq (hknows i hi)]

/-- The row of a program is that of the sketches of its rules. -/
theorem arena_programOver (a : Analysed) (sync : List String) (t : Tables) :
    (a.programOver sync t).arena = rowsOf a.sketches t 0 := by
  have hall : ∀ sketches : List Sketch, Op.mapAll t.terminalNumber t.kindNumber sketches =
      sketches.map (Tables.step t) := by
    intro sketches
    induction sketches with
    | nil => rfl
    | cons sketch sketches ih => rw [Op.mapAll, ih, List.map_cons]
  rw [Program.arena, rowsOf, hall]
  refine congrArg (Op.cellsAmong 0) (List.ext_getElem (by simp [programOver, sketches]) ?_)
  intro i _ _
  simp [programOver, programRule]

/-- The row that is pushed on the way to a program is that of the program. -/
theorem placedProgram_eq (a : Analysed) (sync : List String) :
    a.placedProgram sync = a.program sync >>= fun p => .ok p.placed := by
  rw [program_eq_bind, mentions_eq_append, List.foldlM_append, placedProgram,
    (lays_kinds a).run {} (.refl _) rfl, bind_assoc, bind_assoc, bind_assoc]
  refine Except.bind_congr_ok fun t ht => ?_
  obtain ⟨-, hknows, heven⟩ := Tables.of_foldlM_enter ht rfl
  have hrules : ∀ i < a.grammar.rules.length, t.Knows (.kind (a.ruleKind i)) := by
    intro i hi
    exact hknows _ (.tail _ (.tail _ (List.mem_map.mpr ⟨i, List.mem_range.mpr hi, rfl⟩)))
  change (a.pushParts _ sync _ >>= _) = _
  rw [(lays_parts (a.numbersRules hrules) sync).run _ (.refl t) heven, bind_assoc]
  refine Except.bind_congr_ok fun t' ht' => ?_
  obtain ⟨hextends, -⟩ := Tables.of_foldlM_enter ht' heven
  change _ = Except.ok (a.programOver sync t').placed
  rw [Program.placed, arena_programOver]
  simp [programOver, zipWith_placedRule hextends hrules]

end Analysed

/-- Compiling a grammar with its operations pushed into one row gives its program in that form. -/
theorem Compiler.compilePlaced_eq (c : Compiler) (g : Grammar) :
    c.compilePlaced g = c.compile g >>= fun x => .ok (x.1.placed, x.2) := by
  unfold compilePlaced compile
  simp only [Analysed.placedProgram_eq, bind_assoc]
  rfl

end Packrat
