import Packrat.Proofs.Lossless
import Packrat.Proofs.Memoization
import Packrat.Proofs.Parse.Reuse
import Packrat.Proofs.Strict.Carry
import Packrat.Proofs.Strict.Soundness

/-!
# Parsing an edited text again

What was parsed and edited, in any number of steps, by programs of one grammar with one start rule
has results that are derived. A parse that starts from those that an edit carries over goes as far
as a fresh parse of the edited text, and comes to the same.
-/

/-!
## Derived results over rounds and edits

The strict results of a memo are those of derivations that call nothing but rules whose results
are kept too. Rounds only add results that are derived, also those of a parse that stops early. An
edit carries over all results whose look at the text it left alone, and with one of them those of
the rules that it called, so what is carried over is derived for the new text.
-/

namespace Packrat

/-- Whether the results in a table are those of derivations that call nothing but rules whose
results are in the table too. -/
def Results.Valid (g : Program) (text : Text) (r : Results) : Prop :=
  Memo.Valid g text { strict := r }

section

variable {p : Program} {o : ParseOptions} {text : Text}

/-- The strict results that a round leaves are derived, if those that it starts from are. -/
theorem runRound_valid {points : List Nat} {depth : Nat} {s s' : State} {a : Answer}
    (h : runRound (roundSetting p o text points) depth s = (a, s'))
    (hfits : s.memo.Fits text (roundSetting p o text points).points)
    (hvalid : s.memo.Valid p text) : s'.memo.Valid p text := by
  obtain ⟨a₀, hrun, -⟩ := runRound_eq.mp h
  exact (hrun.derived text.isBoundary_zero hfits hvalid).2

/-- Rounds keep the strict results those of derivations. -/
theorem Rounds.valid {left number : Nat} {points points' : List Nat} {s s' : State} {a : Answer}
    (h : Rounds p o text left number points s a points' s')
    (hfits : s.memo.Fits text (roundSetting p o text points).points)
    (hvalid : s.memo.Valid p text) : s'.memo.Valid p text := by
  induction h with
  | last round final => exact runRound_valid round hfits hvalid
  | next round more rest ih =>
    obtain ⟨-, hfits₁⟩ := runRound_fits round hfits
    exact ih (hfits₁.settle _) (runRound_valid round hfits hvalid).settle

/-- A parse that starts from results that are derived ends with such results. -/
theorem Program.parseWith_valid {known : Results} {traced : Bool} (hfits : Results.Fit text known)
    (hvalid : known.Valid p text) : (p.parseWith o known traced text).results.Valid p text := by
  obtain ⟨a, points, s, hrounds, heq⟩ := p.exists_rounds o known traced text
  have hresults := hrounds.valid ⟨hfits, by simp [ParseOptions.startState]⟩ hvalid
  rw [heq]
  exact hresults

end

/-- A result at other positions. -/
def Entry.move (f : Nat → Nat) (e : Entry) : Entry where
  taken := e.taken.map (Taken.move f)
  reach := f e.reach
  far := e.far.map (Failure.move f)
  frontier := e.frontier.map f

section

variable {g h : Program} {f : Nat → Nat} {low high p : Nat} {old new : Text}

/-- A rule looks at no less of the text than where it starts. -/
theorem Derives.le_reach_of_rule {allowed : MemoKey → Prop} {rule : Nat} {a : Answer}
    (hderives : Derives g old allowed (.rule rule) p a) : p ≤ a.notes.reach := by
  cases hderives
  exact Nat.le_max_left _ _

/-- The rules that a derivation calls are allowed. -/
theorem Derives.allowed_of_rule {allowed : MemoKey → Prop} {rule : Nat} {a : Answer}
    (hderives : Derives g old allowed (.rule rule) p a) : allowed (rule, p) := by
  cases hderives
  assumption

/-- A result that is derived for a text is derived, moved, where the texts look alike. -/
theorem Derives.carry_entry {allowed allowed' : MemoKey → Prop} {rule : Nat} {e : Entry}
    (alike : g.Alike h) (looks : old.LooksLike new f low high) (hfits : e.FitsStrict old p)
    (hallowed : ∀ rule q b, Derives g old allowed (.rule rule) q b → low ≤ q →
      b.notes.reach ≤ high → allowed' (rule, f q))
    (hderives : Derives g old allowed (.rule rule) p e.plain) (hlow : low ≤ p)
    (hreach : e.reach ≤ high) :
    Derives h new allowed' (.rule rule) (f p) (e.move f).plain := by
  obtain ⟨b, hb, hmoved⟩ := hderives.carry alike looks hallowed hfits.boundary hlow
    (Nat.le_trans hfits.reach hreach) hreach trivial
  have hend : b.notes.reach = f e.reach := by
    rw [← Nat.max_eq_right hb.le_reach_of_rule, hmoved.reach p hlow,
      show e.plain.notes.reach = e.reach from rfl, Nat.max_eq_right hfits.reach]
  have hfrontier : b.notes.frontier = (e.far.map (Failure.move f)).map (·.position) := by
    rw [Answer.Exact.iff_frontier.mp hb.exact, hmoved.far]
    rfl
  have hsame : (e.move f).plain = b := by
    rcases b with ⟨taken, far, frontier, reach⟩
    obtain ⟨htaken, hfar, -⟩ := hmoved
    simp only [Entry.plain] at htaken hfar hend hfrontier
    simp only [Entry.plain, Entry.move, htaken, hfar, hend, hfrontier]
  rwa [hsame]

end

section

variable {g h : Program} {edit : Edit} {old : Text} {new : String}

/-- A result that is moved nowhere is the same. -/
theorem Entry.plain_move_id (e : Entry) : (e.move id).plain = e.plain := by
  have htaken : Taken.move id = id := rfl
  have hfar : Failure.move id = id := rfl
  simp only [Entry.plain, Entry.move, htaken, hfar, Option.map_id, id]

/-- Strict results have no errors to be moved. -/
theorem Entry.FitsStrict.plain_moved {e : Entry} {p : Nat} (hfits : e.FitsStrict old p) :
    (e.moved edit).plain = (e.move edit.move).plain := by
  have htaken : (e.moved edit).taken = (e.move edit.move).taken := by
    simp only [Entry.moved, Entry.move]
    cases ht : e.taken with
    | none => rfl
    | some t => simp [Taken.move, (hfits.within t ht).2]
  simp only [Entry.plain, htaken]
  rfl

/-- Derived results are derived for the new text once they are carried over an edit. -/
theorem Results.Valid.carryOver {results : Results} (hvalid : results.Valid g old)
    (alike : g.Alike h) (hfits : Results.Fit old results) (happly : edit.apply old = .ok new)
    (hsize : old.size < maxOffset) :
    Results.Valid h (.ofString new) (edit.carryOver results) := by
  -- the rules that a carried derivation calls are carried in the same way
  have hcalled : ∀ rule q b, Derives g old (· ∈ results) (.rule rule) q b →
      ∃ e, results[(rule, q)]? = some e ∧ b.notes.reach = e.reach ∧ q ≤ e.reach := by
    intro rule q b hderives
    obtain ⟨e, he⟩ : ∃ e, results[(rule, q)]? = some e :=
      ⟨_, Std.HashMap.getElem?_eq_some_getElem hderives.allowed_of_rule⟩
    refine ⟨e, he, ?_, (hfits _ e he).reach⟩
    rw [hderives.unique (hvalid _ e he)]
    rfl
  intro key e he
  obtain ⟨key₀, e₀, hold, hcarry⟩ := Edit.of_getElem?_carryOver he
  have hfits₀ := hfits key₀ e₀ hold
  have hderives := hvalid key₀ e₀ hold
  rcases Edit.carry?_eq_some hcarry with ⟨hreach, rfl, rfl⟩ | ⟨hp, rfl, rfl⟩
  · rw [← Entry.plain_move_id]
    refine hderives.carry_entry alike (Edit.carries_before happly hsize).looksLike hfits₀ ?_
      (Nat.zero_le _) hreach
    intro rule q b hb _ hbefore
    obtain ⟨e', he', hreach', -⟩ := hcalled rule q b hb
    exact Edit.mem_carryOver he' (if_pos (hreach' ▸ hbefore))
  · rw [hfits₀.plain_moved]
    refine hderives.carry_entry alike (Edit.carries_behind happly hsize e₀.reach).looksLike
      hfits₀ ?_ hp (Nat.le_refl _)
    intro rule q b hb hbehind _
    obtain ⟨e', he', -, hle⟩ := hcalled rule q b hb
    have hnot : ¬ e'.reach ≤ edit.start := by omega
    exact Edit.mem_carryOver he' ((if_neg hnot).trans (if_pos hbehind))

end

end Packrat

/-! ## Edited texts -/

namespace Packrat

namespace Produced

variable {grammar : Grammar} {start : Nat} {p : Program} {old : Parsed} {before after : String}
  {edit : Edit}

/-- The results that a parse of an edited text starts from fit the text. -/
theorem known_fits {among : Program → Prop} (hold : Produced among old before)
    (happly : edit.apply (Text.ofString before) = .ok after) (fingerprint : UInt32) :
    Results.Fit (.ofString after)
      (if old.fingerprint = fingerprint then edit.carryOver old.results else {}) := by
  split
  · exact hold.fits.2.carryOver happly hold.size_lt
  · simp [Results.Fit]

/-- What a parse starts from is derived: results of an earlier parse with this fingerprint that the
edit carries over, or nothing. -/
theorem known_valid (hold : Produced (Program.CompiledFrom grammar start) old before)
    {g : Program} (hg : g.CompiledFrom grammar start)
    (hvalid : old.results.Valid g (.ofString before)) (hp : p.CompiledFrom grammar start)
    (happly : edit.apply (Text.ofString before) = .ok after) (fingerprint : UInt32) :
    Results.Valid p (.ofString after)
      (if old.fingerprint = fingerprint then edit.carryOver old.results else {}) := by
  split
  · exact hvalid.carryOver (hg.alike hp) hold.fits.2 happly hold.size_lt
  · simp [Results.Valid, Memo.Valid]

/-- The results of parses and of parses of edited texts are derived. -/
theorem exists_valid (h : Produced (Program.CompiledFrom grammar start) old before) :
    ∃ g, Program.CompiledFrom grammar start g ∧ old.results.Valid g (.ofString before) := by
  have hnone : ∀ (g : Program) (text : Text), Results.Valid g text {} := by
    simp [Results.Valid, Memo.Valid]
  induction h with
  | @parse p o text hp =>
    exact ⟨p, hp, p.parseWith_valid (by simp [Results.Fit]) (hnone p _)⟩
  | @traced p o text hp =>
    exact ⟨p, hp, p.parseWith_valid (by simp [Results.Fit]) (hnone p _)⟩
  | @reparse p o old new before after edit hp hold happly hsize hnew ih =>
    obtain ⟨g, hg, hvalid⟩ := ih
    obtain ⟨text, htext, rfl⟩ := Program.reparse_eq_ok.mp hnew
    rw [hold.text_eq, happly] at htext
    cases htext
    exact ⟨p, hp, p.parseWith_valid (hold.known_fits happly p.fingerprint)
      (hold.known_valid hg hvalid hp happly p.fingerprint)⟩

end Produced

/-- A parse goes in step with one that starts with more strict results. -/
theorem lockstep_richer (p : Program) (o : ParseOptions) (text : Text) :
    Lockstep p o text o.memoize fun points => State.Richer (roundSetting p o text points) where
  sim points := simulation_richer (roundSetting p o text points)
  settle _ h :=
    ⟨h.poorer.settle, h.sound.settle _, h.sound'.settle _,
      h.strict, fun _ => rfl⟩

/-- A parse that starts from results that are derived comes to the same as one that starts from
none, and goes as far. -/
theorem Program.parseWith_known {p : Program} {o : ParseOptions} {text : Text} {known : Results}
    (hfits : Results.Fit text known) (hvalid : known.Valid p text)
    (hlive : (p.parseWith o {} false text).halted = none) :
    (p.parseWith o known false text).halted = none ∧
      (p.parseWith o known false text).tree = (p.parseWith o {} false text).tree ∧
      (p.parseWith o known false text).errors = (p.parseWith o {} false text).errors ∧
      (p.parseWith o known false text).points = (p.parseWith o {} false text).points := by
  refine p.parseWith_simulated (lockstep_richer p o text) hlive ?_
  exact ⟨⟨rfl, .refl _, .refl _⟩, Memo.sound_empty _ _ _,
    Memo.sound_of_strict hfits hvalid rfl _, by simp [ParseOptions.startState], fun _ => rfl⟩

/-- Parsing an edited text again comes to the same as parsing it afresh, if the fresh parse goes on
to its end. The earlier result may have come from any number of parses and edits, with programs of
the same grammar and start rule and whatever options. -/
theorem Program.reparse_eq_parse {grammar : Grammar} {start : Nat} {p : Program}
    {o : ParseOptions} {old : Parsed} {before after : String} {edit : Edit}
    (hold : Produced (CompiledFrom grammar start) old before) (hp : p.CompiledFrom grammar start)
    (happly : edit.apply (Text.ofString before) = .ok after)
    (hlive : (p.parse o after).halted = none) :
    ∃ new, p.reparse o old edit = .ok new ∧ new.halted = none ∧
      new.tree = (p.parse o after).tree ∧ new.errors = (p.parse o after).errors ∧
      new.hasErrors = (p.parse o after).hasErrors := by
  obtain ⟨g, hg, hvalid⟩ := hold.exists_valid
  have htext : edit.apply (Text.ofString old.text) = .ok after := by
    rw [hold.text_eq, happly]
  obtain ⟨hhalted, htree, herrors, -⟩ :=
    p.parseWith_known (hold.known_fits happly p.fingerprint)
      (hold.known_valid hg hvalid hp happly p.fingerprint) hlive
  refine ⟨_, Program.reparse_eq_ok.mpr ⟨after, htext, rfl⟩, hhalted, htree, herrors, ?_⟩
  simp only [Parsed.hasErrors, herrors]
  rfl

/-- Parsing again when an item was put in between others, with an error behind them. -/
theorem Program.reparse_eq_parse_items : ∃ new,
    items.reparse {} itemsBefore (.insertion 1 "a") = .ok new ∧
      new.halted = none ∧ new.tree = (items.parse {} "aaaaé").tree ∧
      new.errors = (items.parse {} "aaaaé").errors ∧
      new.hasErrors = (items.parse {} "aaaaé").hasErrors ∧
      [.hit 1 0 (some 1), .hit 1 3 (some 4), .hit 1 4 none] ⊆
        (items.parseWith {} itemsKnown true (.ofString "aaaaé")).log := by
  have hold : Produced (CompiledFrom .items 0) itemsBefore "aaaé" :=
    .parse { maxRounds := some 1 } items_compiledFrom (by decide)
  have hoff : (items.parse { memoize := false } "aaaaé").halted = none := by decide +kernel
  have hlive := (items.parseWith_simulated (lockstep_replays items {} (Text.ofString "aaaaé"))
    hoff (replays_startState items {} (Text.ofString "aaaaé") true)).1
  have happly : (Edit.insertion 1 "a").apply (Text.ofString "aaaé") = .ok "aaaaé" := rfl
  obtain ⟨new, hnew, hhalted, htree, herrors, hhas⟩ :=
    reparse_eq_parse hold items_compiledFrom happly hlive
  exact ⟨new, hnew, hhalted, htree, herrors, hhas, itemsKnown_hits⟩

end Packrat
