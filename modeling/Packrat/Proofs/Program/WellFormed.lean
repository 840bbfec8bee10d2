import Packrat.Program.Arena
import Packrat.Proofs.Program.Kinds
import Packrat.Proofs.Program.Lowered

/-!
# Well-formed programs

What an engine needs of a program to look up everything in its tables: the numbers in it are those
of entries, and operations lie in a row in which the parts of each come before it and belong to it
alone. Leaves have kinds of tokens, nodes around operations kinds of nodes, and no rule is called
that is a single terminal. The programs of analysed grammars are of this form.
-/

/-!
## Rows of cells

In the row of an operation every cell stands behind those that it names, and every cell is named
once: by the operation that it is a part of, or as the operation of the row itself.
-/

namespace Packrat

namespace Cell

/-- The places of the parts of an operation. -/
def parts : Cell → List Nat
  | seq members => members
  | choice members => members
  | repetition body _ _ => [body]
  | wrap body _ => [body]
  | _ => []

/-- The kinds that an operation gives to what it produces. -/
def kinds : Cell → List Nat
  | token _ kind _ => [kind]
  | call _ renamed => renamed.toList
  | wrap _ kind => [kind]
  | _ => []

end Cell

/-- Whether a row whose first cell has the given place is that of the operations at some places. -/
structure Laid (first : Nat) (row : List Cell) (tops : List Nat) : Prop where
  below : ∀ (i : Nat) cell, row[i]? = some cell → ∀ part ∈ cell.parts, part < first + i
  owned : (row.flatMap Cell.parts ++ tops).Perm (List.range' first row.length)

namespace Laid

variable {first : Nat} {row row' : List Cell} {tops tops' : List Nat} {cell : Cell}

/-- No operations make an empty row. -/
theorem nil (first : Nat) : Laid first [] [] where
  below := by simp
  owned := by simp

/-- Rows one behind the other are the row of the operations of both. -/
theorem append (h : Laid first row tops) (h' : Laid (first + row.length) row' tops') :
    Laid first (row ++ row') (tops ++ tops') where
  below i cell hcell part hpart := by
    rw [List.getElem?_append] at hcell
    split at hcell
    · exact h.below i cell hcell part hpart
    · have := h'.below _ cell hcell part hpart
      omega
  owned := by
    rw [List.flatMap_append, List.length_append, ← List.range'_append_1, List.append_assoc]
    refine .trans ?_ (h.owned.append h'.owned)
    rw [List.append_assoc]
    exact (List.perm_append_comm_assoc ..).append_left _

/-- The operation whose parts are those of the row so far comes last. -/
theorem close (h : Laid first row tops) (hparts : cell.parts = tops) :
    Laid first (row ++ [cell]) [first + row.length] where
  below i cell' hcell part hpart := by
    rw [List.getElem?_append] at hcell
    split at hcell
    · exact h.below i cell' hcell part hpart
    · obtain ⟨hi, rfl⟩ : i - row.length = 0 ∧ cell = cell' := by
        rw [List.getElem?_singleton] at hcell
        split at hcell
        · exact ⟨‹_›, Option.some.inj hcell⟩
        · cases hcell
      rw [hparts] at hpart
      have := List.mem_range'_1.mp (h.owned.mem_iff.mp (List.mem_append_right _ hpart))
      omega
  owned := by
    rw [List.flatMap_append, List.flatMap_singleton, hparts, List.length_append,
      List.length_singleton, List.range'_1_concat]
    exact h.owned.append_right _

/-- An operation without parts makes a row of one cell. -/
theorem leaf (hparts : cell.parts = []) : Laid first [cell] [first] := (nil first).close hparts

end Laid

namespace Op

mutual

/-- The cells of an operation are in order, with the operation itself at the end. -/
theorem laid_cells (first : Nat) : (op : Step) →
    Laid first (op.cells first) [first + (op.cells first).length - 1]
  | blank => .leaf rfl
  | token _ _ _ => .leaf rfl
  | call _ _ => .leaf rfl
  | seq members => by
    simp only [cells, List.length_append, List.length_singleton]
    exact (laid_cellsAmong first members).close rfl
  | choice members => by
    simp only [cells, List.length_append, List.length_singleton]
    exact (laid_cellsAmong first members).close rfl
  | repetition body _ _ => by
    simp only [cells, List.length_append, List.length_singleton]
    exact (laid_cells first body).close rfl
  | wrap body _ => by
    simp only [cells, List.length_append, List.length_singleton]
    exact (laid_cells first body).close rfl

/-- The cells of some operations are in order, with each operation at the end of its cells. -/
theorem laid_cellsAmong (first : Nat) : (ops : List Step) →
    Laid first (cellsAmong first ops).1 (cellsAmong first ops).2
  | [] => .nil first
  | op :: ops => (laid_cells first op).append (laid_cellsAmong _ ops)

end

/-- Each operation has one place. -/
theorem length_cellsAmong (first : Nat) (ops : List Step) :
    (cellsAmong first ops).2.length = ops.length := by
  induction ops generalizing first with
  | nil => rfl
  | cons op ops ih => rw [cellsAmong, List.length_cons, List.length_cons, ih]

/-- The cells of some operations are those of each of them. -/
theorem mem_cellsAmong {first : Nat} {ops : List Step} {cell : Cell}
    (h : cell ∈ (cellsAmong first ops).1) : ∃ op ∈ ops, ∃ place, cell ∈ op.cells place := by
  induction ops generalizing first with
  | nil => cases h
  | cons op ops ih =>
    rw [cellsAmong, List.mem_append] at h
    rcases h with hop | hrest
    · exact ⟨op, List.mem_cons_self, first, hop⟩
    · obtain ⟨op', hmem, place, hcell⟩ := ih hrest
      exact ⟨op', List.mem_cons_of_mem op hmem, place, hcell⟩

end Op

end Packrat

/-! ## The form of programs -/

namespace Packrat

/-- Whether a number is that of a kind with some role. -/
def Program.HasRole (p : Program) (kind : Nat) (role : Role) : Prop :=
  ∃ k, p.kinds[kind]? = some k ∧ k.role = role

/-- Whether what an operation names stands in the tables of a program and is what it should be. -/
def Cell.Fits (p : Program) : Cell → Prop
  | .token terminal kind _ => terminal < p.terminals.size ∧ p.HasRole kind .token
  | .call rule renamed =>
    (∃ r, p.rules[rule]? = some r ∧ r.lexical = false) ∧ ∀ kind ∈ renamed, p.HasRole kind .node
  | .wrap _ kind => p.HasRole kind .node
  | _ => True

/-- Whether a program is well formed. -/
structure Program.WellFormed (p : Program) : Prop where
  kinds : p.kinds.size ≤ kindLimit
  error : p.kinds[errorKind]? = some .error
  skipped : p.kinds[skippedKind]? = some .skipped
  start : p.start < p.rules.size
  ruleKind : ∀ rule ∈ p.rules, rule.kind < p.kinds.size
  /-- Every rule has a body. -/
  bodies : p.arena.2.length = p.rules.size ∧ ∀ body ∈ p.arena.2, body < p.arena.1.length
  extras : ∀ extra ∈ p.extras, extra.1 < p.terminals.size ∧ extra.2 < p.kinds.size
  sync : ∀ terminal ∈ p.sync, terminal < p.terminals.size
  fits : ∀ cell ∈ p.arena.1, cell.Fits p
  /-- Nothing is given the kind of errors or of skipped text. -/
  reserved : ∀ cell ∈ p.arena.1, ∀ kind ∈ cell.kinds, kind ≠ errorKind ∧ kind ≠ skippedKind
  /-- The parts of an operation come before it. -/
  below : ∀ (place : Nat) cell, p.arena.1[place]? = some cell → ∀ part ∈ cell.parts, part < place
  /-- Every operation is one part of one operation or the body of one rule. -/
  owned : (p.arena.1.flatMap Cell.parts ++ p.arena.2).Perm (List.range p.arena.1.length)

/-- Kinds with distinct roles have distinct numbers. -/
theorem Program.HasRole.ne {p : Program} {kind : Nat} {role : Role} (h : p.HasRole kind role)
    {number : Nat} {k : Kind} (hk : p.kinds[number]? = some k) (hne : role ≠ k.role) :
    kind ≠ number := by
  rintro rfl
  obtain ⟨k', hk', rfl⟩ := h
  exact hne (by rw [Option.some.inj (hk'.symm.trans hk)])

/-- The kinds of errors and of skipped text have roles of their own. -/
theorem Cell.Fits.reserved {p : Program} {cell : Cell} (h : cell.Fits p)
    (herror : p.kinds[errorKind]? = some .error)
    (hskipped : p.kinds[skippedKind]? = some .skipped) :
    ∀ kind ∈ cell.kinds, kind ≠ errorKind ∧ kind ≠ skippedKind := by
  intro kind hkind
  cases cell with
  | token _ number _ =>
    obtain rfl := List.mem_singleton.mp hkind
    exact ⟨h.2.ne herror (by decide), h.2.ne hskipped (by decide)⟩
  | call _ renamed =>
    have hrole := h.2 kind (Option.mem_toList.mp hkind)
    exact ⟨hrole.ne herror (by decide), hrole.ne hskipped (by decide)⟩
  | wrap _ number =>
    obtain rfl := List.mem_singleton.mp hkind
    exact ⟨h.ne herror (by decide), h.ne hskipped (by decide)⟩
  | _ => cases hkind

namespace Analysed

variable {a : Analysed} {t : Tables} {p : Program} {sync : List String}

mutual

/-- Whether the leaves of a sketch have kinds of tokens, its nodes have kinds of nodes, and its
calls lead to rules that are no single terminals. -/
def Proper (a : Analysed) : Sketch → Prop
  | .blank => True
  | .token _ kind _ => kind.role = .token
  | .call i renamed => (i < a.grammar.rules.length ∧ a.isLexical i = false) ∧
      ∀ kind ∈ renamed, kind.role = .node
  | .seq members => ProperAll a members
  | .choice members => ProperAll a members
  | .repetition body _ _ => Proper a body
  | .wrap body kind => Proper a body ∧ kind.role = .node

/-- Whether this is so for all of some sketches. -/
def ProperAll (a : Analysed) : List Sketch → Prop
  | [] => True
  | op :: ops => Proper a op ∧ ProperAll a ops

end

/-- A leaf has the kind of a token. -/
theorem proper_leaf {rule : String} {r : Rule} {kind : TerminalForm → Kind}
    (h : ∀ form, (kind form).role = .token) : a.Proper (leaf rule r kind) := by
  rw [leaf]
  split
  · exact h _
  · trivial

/-- The kind that a form gives to its leaves is that of a token. -/
theorem role_kind (form : TerminalForm) : form.kind.role = .token := by
  cases form <;> rfl

/-- A rule that is a token of its own has the kind of a token. -/
theorem role_ruleKind {i : Nat} (h : a.isLexical i = true) : (a.ruleKind i).role = .token := by
  rw [ruleKind, h]
  rfl

/-- A reference is lowered to a leaf, or to a call of a rule that is no token. -/
theorem proper_reference (name : String) (renamed : Option (String × Bool)) :
    a.Proper (a.reference name renamed) := by
  rw [reference]
  cases hnumber : a.grammar.number? name with
  | none => trivial
  | some i =>
    dsimp only
    cases hlexical : a.isLexical i with
    | true =>
      rw [if_pos rfl]
      refine proper_leaf fun _ => ?_
      cases renamed with
      | none => exact role_ruleKind hlexical
      | some other => rfl
    | false =>
      rw [if_neg (by decide)]
      refine ⟨⟨(Grammar.of_number? hnumber).1, hlexical⟩, fun kind hkind => ?_⟩
      obtain ⟨other, -, rfl⟩ := Option.map_eq_some_iff.mp hkind
      rfl

mutual

/-- The sketch of every expression is proper. -/
theorem proper_sketch (rule : String) : (r : Rule) → a.Proper (a.sketch rule r)
  | .blank => trivial
  | .literal _ => proper_leaf role_kind
  | .pattern _ _ => proper_leaf role_kind
  | .token _ _ => proper_leaf role_kind
  | .symbol name => proper_reference name none
  | .seq members => properAll_sketchAll rule members
  | .choice members => properAll_sketchAll rule members
  | .repetition content _ _ => proper_sketch rule content
  | .field _ content => proper_sketch rule content
  | .renamed content name named => by
    rw [sketch]
    split
    · exact proper_reference _ _
    · split
      · exact proper_leaf fun _ => rfl
      · exact ⟨proper_sketch rule content, rfl⟩

/-- The parts of a rule are lowered to proper operations. -/
theorem properAll_sketchAll (rule : String) : (rs : List Rule) → a.ProperAll (a.sketchAll rule rs)
  | [] => trivial
  | r :: rs => ⟨proper_sketch rule r, properAll_sketchAll rule rs⟩

end

/-- The body of a rule is lowered to a proper operation. -/
theorem proper_ruleSketch (i : Nat) : a.Proper (a.ruleSketch i) := by
  rw [ruleSketch]
  cases hlexical : a.isLexical i with
  | true => exact proper_leaf fun _ => role_ruleKind hlexical
  | false => exact proper_sketch _ _

/-- Whether a program has the tables and the rules of an analysed grammar. -/
structure Tells (a : Analysed) (t : Tables) (p : Program) : Prop where
  kinds : p.kinds = t.kinds.items
  terminals : p.terminals = t.terminals
  rules : ∀ i < a.grammar.rules.length, ∃ rule, p.rules[i]? = some rule ∧
    rule.lexical = a.isLexical i

namespace Tells

variable (h : a.Tells t p)

include h

/-- Under the number of a kind that was entered stands this kind. -/
theorem kind_eq {kind : Kind} (hkind : t.Knows (.kind kind)) :
    p.kinds[t.kindNumber kind]? = some kind := by
  obtain ⟨i, hi⟩ := hkind
  rw [h.kinds, Tables.kindNumber, hi]
  exact Numbering.number?_eq_some.mp hi

/-- The number of a kind that was entered is one of the program. -/
theorem kind_lt {kind : Kind} (hkind : t.Knows (.kind kind)) :
    t.kindNumber kind < p.kinds.size :=
  (Array.getElem?_eq_some_iff.mp (h.kind_eq hkind)).1

/-- The number of a terminal that was entered is one of the program. -/
theorem terminal_lt {use : TerminalUse} (huse : t.Knows (.terminal use)) :
    t.terminalNumber use < p.terminals.size := by
  obtain ⟨i, hi, terminal, hterminal⟩ := huse
  rw [h.terminals, Tables.terminalNumber, hi]
  exact (Array.getElem?_eq_some_iff.mp hterminal).1

omit h

mutual

/-- The cells of a proper sketch fit if all that it mentions was entered. -/
theorem fits_cells (h : a.Tells t p) (first : Nat) : (sketch : Sketch) → a.Proper sketch →
    (∀ m ∈ sketch.mentions, t.Knows m) →
    ∀ cell ∈ (Tables.step t sketch).cells first, cell.Fits p
  | .blank, _, _ => by simp [Tables.step, Op.map, Op.cells, Cell.Fits]
  | .token use kind _, hproper, hknows => by
    simp only [Op.mentions, List.forall_mem_cons] at hknows
    simp only [Tables.step, Op.map, Op.cells, List.mem_singleton, forall_eq]
    exact ⟨h.terminal_lt hknows.1, kind, h.kind_eq hknows.2.1, hproper⟩
  | .call i renamed, hproper, hknows => by
    simp only [Tables.step, Op.map, Op.cells, List.mem_singleton, forall_eq]
    obtain ⟨⟨hi, hlexical⟩, hrenamed⟩ := hproper
    obtain ⟨rule, hrule, hrole⟩ := h.rules i hi
    refine ⟨⟨rule, hrule, hrole.trans hlexical⟩, fun number hnumber => ?_⟩
    obtain ⟨kind, rfl, rfl⟩ := Option.map_eq_some_iff.mp hnumber
    exact ⟨kind, h.kind_eq (hknows _ (by simp [Op.mentions])), hrenamed kind rfl⟩
  | .seq members, hproper, hknows => by
    simp only [Tables.step, Op.map, Op.cells, List.forall_mem_append, List.mem_singleton,
      forall_eq]
    exact ⟨fits_cellsAmong h first members hproper hknows, trivial⟩
  | .choice members, hproper, hknows => by
    simp only [Tables.step, Op.map, Op.cells, List.forall_mem_append, List.mem_singleton,
      forall_eq]
    exact ⟨fits_cellsAmong h first members hproper hknows, trivial⟩
  | .repetition body _ _, hproper, hknows => by
    simp only [Tables.step, Op.map, Op.cells, List.forall_mem_append, List.mem_singleton,
      forall_eq]
    exact ⟨fits_cells h first body hproper hknows, trivial⟩
  | .wrap body kind, hproper, hknows => by
    rw [Op.mentions, List.forall_mem_append] at hknows
    simp only [Tables.step, Op.map, Op.cells, List.forall_mem_append, List.mem_singleton,
      forall_eq]
    exact ⟨fits_cells h first body hproper.1 hknows.1,
      kind, h.kind_eq (hknows.2 _ (List.mem_singleton.mpr rfl)), hproper.2⟩

/-- The cells of proper operations name what stands in the program and is what it should be. -/
theorem fits_cellsAmong (h : a.Tells t p) (first : Nat) : (sketches : List Sketch) →
    a.ProperAll sketches → (∀ m ∈ Op.mentionsAmong sketches, t.Knows m) →
    ∀ cell ∈ (Op.cellsAmong first (Op.mapAll t.terminalNumber t.kindNumber sketches)).1,
      cell.Fits p
  | [], _, _ => by simp [Op.mapAll, Op.cellsAmong]
  | sketch :: sketches, hproper, hknows => by
    rw [Op.mentionsAmong, List.forall_mem_append] at hknows
    rw [Op.mapAll, Op.cellsAmong, List.forall_mem_append]
    exact ⟨fits_cells h first sketch hproper.1 hknows.1,
      fits_cellsAmong h _ sketches hproper.2 hknows.2⟩

end

end Tells

/-- Each rule of the program is made of one of the grammar. -/
theorem exists_of_mem_rules {rule : ProgramRule} (h : rule ∈ (a.programOver sync t).rules) :
    ∃ i < a.grammar.rules.length, a.programRule t (a.ruleSketch i, i) = rule := by
  simp only [programOver, List.mem_toArray, List.mem_map] at h
  obtain ⟨sketch, hsketch, rfl⟩ := h
  obtain ⟨i, hi, rfl⟩ := List.getElem_of_mem hsketch
  have hi : i < a.grammar.rules.length := by simpa [sketches] using hi
  exact ⟨i, hi, by simp [sketches]⟩

/-- A program over tables has the tables and the rules of its grammar. -/
theorem tells_programOver (a : Analysed) (sync : List String) (t : Tables) :
    a.Tells t (a.programOver sync t) where
  kinds := rfl
  terminals := rfl
  rules i hi := ⟨a.programRule t (a.ruleSketch i, i), by simp [programOver, sketches, hi], rfl⟩

/-- All cells of a program over tables that know its mentions name what they should. -/
theorem Tells.fits_arena (h : a.Tells t (a.programOver sync t))
    (hknows : ∀ m ∈ a.mentions a.sketches sync, t.Knows m) :
    ∀ cell ∈ (a.programOver sync t).arena.1, cell.Fits (a.programOver sync t) := by
  intro cell hcell
  obtain ⟨op, hop, place, hcell⟩ := Op.mem_cellsAmong hcell
  obtain ⟨rule, hrule, rfl⟩ := List.mem_map.mp hop
  obtain ⟨i, hi, rfl⟩ := exists_of_mem_rules (Array.mem_toList_iff.mp hrule)
  have hsketch : a.ruleSketch i ∈ a.sketches := List.mem_map.mpr ⟨i, List.mem_range.mpr hi, rfl⟩
  exact h.fits_cells place (a.ruleSketch i) (proper_ruleSketch i)
    (fun m hm => hknows m (mem_mentions_of_sketch hsketch hm)) cell hcell

/-- The program of an analysed grammar is well formed. -/
theorem wellFormed_of_program (hstart : a.analysis.start < a.grammar.rules.length)
    (h : a.program sync = .ok p) : p.WellFormed := by
  rw [program_eq_bind] at h
  obtain ⟨t, ht, h⟩ := Except.of_bind_ok h
  cases h
  obtain ⟨-, hknows, -⟩ := Tables.of_foldlM_enter ht rfl
  have htells := tells_programOver a sync t
  have hfits := htells.fits_arena hknows
  obtain ⟨herror, hskipped⟩ := of_mentions ht
  have hlaid := Op.laid_cellsAmong 0 ((a.programOver sync t).rules.toList.map (·.body))
  constructor
  · exact Tables.size_kinds_of_foldlM ht (by decide)
  · exact herror
  · exact hskipped
  · simpa [programOver, sketches] using hstart
  · intro rule hrule
    obtain ⟨i, hi, rfl⟩ := exists_of_mem_rules hrule
    exact htells.kind_lt (hknows _ (mem_mentions_of_rule hi))
  · refine ⟨?_, fun body hbody => ?_⟩
    · rw [Program.arena, Op.length_cellsAmong, List.length_map, Array.length_toList]
    · have := List.mem_range'_1.mp (hlaid.owned.mem_iff.mp (List.mem_append_right _ hbody))
      simpa [Program.arena] using this
  · intro extra hextra
    obtain ⟨e, he, rfl⟩ := List.mem_map.mp hextra
    obtain ⟨hterminal, hkind⟩ := mem_mentions_of_extra he
    exact ⟨htells.terminal_lt (hknows _ hterminal), htells.kind_lt (hknows _ hkind)⟩
  · intro terminal hterminal
    obtain ⟨name, hname, rfl⟩ := List.mem_map.mp hterminal
    exact htells.terminal_lt (hknows _ (mem_mentions_of_sync hname))
  · exact hfits
  · exact fun cell hcell => (hfits cell hcell).reserved herror hskipped
  · intro place cell hcell part hpart
    simpa using hlaid.below place cell hcell part hpart
  · rw [List.range_eq_range']
    exact hlaid.owned

end Analysed

end Packrat
