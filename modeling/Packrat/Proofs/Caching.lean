import Packrat.Proofs.Limits
import Packrat.Proofs.Reparse

/-!
# What the recursion limit stops

A rule whose result is kept takes no room for nesting, so how deeply operations nest depends on what
is kept. Where nothing else limits a parse, it is only ever stopped for nesting too deeply. A parse
that keeps results is stopped under no recursion limit under which a parse that keeps none goes on,
nor is a parse that starts from earlier results stopped where a fresh one goes on. All that go on
come to the same, whatever they keep and start from.
-/

namespace Packrat

namespace State

/-- Whether nothing but the depth of nesting limits a parse or has stopped it. -/
structure DepthOnly (s : State) : Prop where
  fuel : s.fuel = none
  patience : s.patience = none
  halted : s.halted = none ∨ s.halted = some .tooDeep

namespace DepthOnly

variable {s s' : State} {granted : Bool}

/-- A step of fuel stops no parse that has no limit of fuel. -/
theorem tick (h : s.DepthOnly) (htick : s.tick = (granted, s')) : s'.DepthOnly := by
  rcases s with ⟨memo, fuel, patience, halted, log⟩
  obtain ⟨rfl, rfl, hhalted⟩ := h
  rcases hhalted with rfl | rfl
  · cases htick
    exact ⟨rfl, rfl, .inl rfl⟩
  · cases htick
    exact ⟨rfl, rfl, .inr rfl⟩

/-- A try stops no parse that has no limit of patience. -/
theorem ask (h : s.DepthOnly) (hask : s.ask = (granted, s')) : s'.DepthOnly := by
  rcases s with ⟨memo, fuel, patience, halted, log⟩
  obtain ⟨rfl, rfl, hhalted⟩ := h
  rcases hhalted with rfl | rfl
  · cases hask
    exact ⟨rfl, rfl, .inl rfl⟩
  · cases hask
    exact ⟨rfl, rfl, .inr rfl⟩

/-- A parse that is stopped for nesting too deeply is stopped for no other reason. -/
theorem stop (h : s.DepthOnly) : (s.stop .tooDeep).DepthOnly :=
  ⟨by simpa using h.fuel, by simpa using h.patience, .inr (by simp)⟩

/-- An event stops no parse. -/
theorem record (h : s.DepthOnly) (e : Event) : (s.record e).DepthOnly :=
  ⟨h.fuel, h.patience, h.halted⟩

/-- Noting an error stops no parse. -/
theorem recordError (h : s.DepthOnly) (e : Option (Nat × Nat)) : (s.recordError e).DepthOnly := by
  cases e with
  | none => exact h
  | some e => exact h.record _

/-- Keeping a result stops no parse. -/
theorem keep (h : s.DepthOnly) (c : Setting) (rule p : Nat) (entry : Entry) :
    (Packrat.keep c rule p entry s).DepthOnly :=
  ⟨by simpa using h.fuel, by simpa using h.patience, by simpa using h.halted⟩

/-- Settling stops no parse. -/
theorem settle (h : s.DepthOnly) : s.settle.DepthOnly :=
  ⟨by simpa using h.fuel, by simpa using h.patience, by simpa using h.halted⟩

end DepthOnly

end State

/-- A run stops a parse for nesting too deeply only, if nothing else limits it. -/
theorem Run.depthOnly {c : Setting} {d : Nat} {job : Job} {p : Nat} {s s' : State} {out : Outcome}
    (h : Run c d job p s out s') (hs : s.DepthOnly) : s'.DepthOnly := by
  induction h with
  | refused tick => exact hs.tick tick
  | tooDeep tick => exact (hs.tick tick).stop
  | ticked tick _ ih => exact ih (hs.tick tick)
  | token =>
    obtain ⟨e, he⟩ := runToken_state _ _ _ _ _ _
    exact he ▸ hs.record e
  | cancelled ask => exact hs.ask ask
  | hit ask => exact (hs.ask ask).record _
  | body ask _ _ ih => exact ((ih ((hs.ask ask).record _)).keep _ _ _ _).record _
  | seqTook _ _ ihhead ihtail => exact ihtail (ihhead hs)
  | seqEnded _ _ _ _ ihhead ihscan => exact (ihscan (ihhead hs)).recordError _
  | seqResumed _ _ _ _ _ ihhead ihscan ihtail =>
    exact ihtail ((ihscan (ihhead hs)).recordError _)
  | choiceNext _ _ ihhead ihtail => exact ihtail ((ihhead hs).record _)
  | nextIteration _ _ _ _ ihhead ihtail => exact ihtail (ihhead hs)
  | lostIteration _ _ _ _ _ _ ihhead ihscan => exact (ihscan (ihhead hs))
  | foundIteration _ _ _ _ _ _ _ ihhead ihscan ihtail =>
    exact ihtail ((ihscan (ihhead hs)).recordError _)
  | trialNext _ _ _ ihhead ihtail => exact ihtail (ihhead hs)
  | lookRefused tick => exact hs.tick tick
  | lookFound tick _ ih => exact ih (hs.tick tick)
  | lookStopped tick _ _ ih => exact ih (hs.tick tick)
  | lookPassed tick _ _ ih => exact ih (hs.tick tick)
  | searchNext _ _ ihhere ihtail => exact ihtail (ihhere hs)
  | _ => first | assumption | (rename_i ih; exact ih hs)

section

variable {p : Program} {o : ParseOptions} {text : Text} {known : Results}

/-- Through all rounds, a parse that only the depth limits is stopped for no other reason. -/
theorem Rounds.depthOnly {left number : Nat} {points points' : List Nat} {s s' : State}
    {a : Answer} (h : Rounds p o text left number points s a points' s') (hs : s.DepthOnly) :
    s'.DepthOnly := by
  induction h with
  | last round final =>
    obtain ⟨a₀, hrun, -⟩ := runRound_eq.mp round
    exact hrun.depthOnly (hs.record _)
  | next round more rest ih =>
    obtain ⟨a₀, hrun, -⟩ := runRound_eq.mp round
    exact ih (hrun.depthOnly (hs.record _)).settle

/-- A parse is stopped for nesting too deeply only, if nothing else limits it. -/
theorem Program.parseWith_verdict (hfuel : o.fuel = none) (hpatience : o.patience = none) :
    (p.parseWith o known false text).halted = none ∨
      (p.parseWith o known false text).halted = some .tooDeep := by
  obtain ⟨a, points, s, hrounds, heq⟩ := p.exists_rounds o known false text
  rw [heq]
  exact (hrounds.depthOnly ⟨hfuel, hpatience, .inl rfl⟩).halted

/-- A parse goes as far as one that keeps no results and starts from none, and comes to the same,
whether it keeps them or not and whatever derived results it starts from. -/
theorem Program.parseWith_kept (memoize : Bool) (hfits : Results.Fit text known)
    (hvalid : known.Valid p text)
    (hlive : (p.parseWith { o with memoize := false } {} false text).halted = none) :
    (p.parseWith { o with memoize := memoize } known false text).halted = none ∧
      (p.parseWith { o with memoize := memoize } known false text).tree =
        (p.parseWith { o with memoize := false } {} false text).tree ∧
      (p.parseWith { o with memoize := memoize } known false text).errors =
        (p.parseWith { o with memoize := false } {} false text).errors ∧
      (p.parseWith { o with memoize := memoize } known false text).points =
        (p.parseWith { o with memoize := false } {} false text).points := by
  cases memoize with
  | false => exact parseWith_known hfits hvalid hlive
  | true =>
    obtain ⟨hlive', htree, herrors, hpoints⟩ :=
      p.parseWith_simulated (lockstep_replays p o text) hlive (replays_startState p o text true)
    obtain ⟨hlive'', htree', herrors', hpoints'⟩ := parseWith_known hfits hvalid hlive'
    exact ⟨hlive'', htree'.trans htree, herrors'.trans herrors, hpoints'.trans hpoints⟩

/-- A parse that goes on comes to the same as one that keeps no results and starts from none, if
that goes on under any recursion limit. -/
theorem Program.parseWith_eq_of_live (memoize : Bool) {limit : Nat}
    (hfits : Results.Fit text known) (hvalid : known.Valid p text)
    (hlive : (p.parseWith { o with memoize := memoize } known false text).halted = none)
    (hfull : (p.parseWith { o with memoize := false, recursionLimit := limit } {} false
      text).halted = none) :
    (p.parseWith { o with memoize := memoize } known false text).tree =
        (p.parseWith { o with memoize := false, recursionLimit := limit } {} false text).tree ∧
      (p.parseWith { o with memoize := memoize } known false text).errors =
        (p.parseWith { o with memoize := false, recursionLimit := limit } {} false text).errors ∧
      (p.parseWith { o with memoize := memoize } known false text).points =
        (p.parseWith { o with memoize := false, recursionLimit := limit } {} false
          text).points := by
  -- both are the same under the higher one of the limits
  obtain ⟨high, hhigh, hlimit⟩ : ∃ high, o.recursionLimit ≤ high ∧ limit ≤ high :=
    ⟨max o.recursionLimit limit, Nat.le_max_left _ _, Nat.le_max_right _ _⟩
  have hloose : ParseOptions.Looser { o with memoize := memoize }
      { o with memoize := memoize, recursionLimit := high } :=
    ⟨.refl _, .refl _, hhigh, rfl, rfl⟩
  have hloose' : ParseOptions.Looser { o with memoize := false, recursionLimit := limit }
      { o with memoize := false, recursionLimit := high } :=
    ⟨.refl _, .refl _, hlimit, rfl, rfl⟩
  have hsame := p.parseWith_looser hloose hlive
  have hsame' := p.parseWith_looser hloose' hfull
  rw [← hsame'] at hfull
  obtain ⟨-, hresults⟩ := parseWith_kept (o := { o with recursionLimit := high }) memoize hfits
    hvalid hfull
  rw [← hsame, ← hsame']
  exact hresults

end

/-- The recursion limit and what is kept. Let nothing else limit the parses of a text: one that
keeps no results, one that keeps them, and one that parses the text again after an edit of whatever
was parsed and edited before. Each goes on to its end or is stopped for nesting too deeply. If the
one that keeps nothing goes on then all do, and if a fresh parse goes on then so does the one after
the edit with the same options. Those that go on have the tree, the errors and the error points of
the parse that keeps nothing, under every recursion limit under which that goes on. -/
theorem Program.CompiledFrom.verdicts {grammar : Grammar} {start : Nat} {p : Program}
    (hp : p.CompiledFrom grammar start) {o : ParseOptions} (hfuel : o.fuel = none)
    (hpatience : o.patience = none) {old : Parsed} {before after : String} {edit : Edit}
    (hold : Produced (CompiledFrom grammar start) old before)
    (happly : edit.apply (Text.ofString before) = .ok after) :
    ∃ new, p.reparse o old edit = .ok new ∧
      (∀ x ∈ [p.parse { o with memoize := false } after, p.parse { o with memoize := true } after,
        new], x.halted = none ∨ x.halted = some .tooDeep) ∧
      ((p.parse { o with memoize := false } after).halted = none →
        (p.parse { o with memoize := true } after).halted = none ∧ new.halted = none) ∧
      ((p.parse o after).halted = none → new.halted = none) ∧
      ∀ limit,
        (p.parse { o with memoize := false, recursionLimit := limit } after).halted = none →
        ∀ x ∈ [p.parse { o with memoize := false } after,
          p.parse { o with memoize := true } after, new], x.halted = none →
          x.tree = (p.parse { o with memoize := false, recursionLimit := limit } after).tree ∧
          x.errors =
            (p.parse { o with memoize := false, recursionLimit := limit } after).errors ∧
          x.points =
            (p.parse { o with memoize := false, recursionLimit := limit } after).points := by
  obtain ⟨g, hg, hvalid⟩ := hold.exists_valid
  have htext : edit.apply (Text.ofString old.text) = .ok after := by
    rw [hold.text_eq, happly]
  have hfits := hold.known_fits happly p.fingerprint
  have hknown := hold.known_valid hg hvalid hp happly p.fingerprint
  have hnone : Results.Fit (Text.ofString after) {} := by simp [Results.Fit]
  have hnone' : Results.Valid p (Text.ofString after) {} := by simp [Results.Valid, Memo.Valid]
  refine ⟨_, Program.reparse_eq_ok.mpr ⟨after, htext, rfl⟩, ?_, ?_, ?_, ?_⟩
  · intro x hx
    simp only [List.mem_cons, List.not_mem_nil, or_false] at hx
    rcases hx with rfl | rfl | rfl
    · exact parseWith_verdict hfuel hpatience
    · exact parseWith_verdict hfuel hpatience
    · exact parseWith_verdict hfuel hpatience
  · intro hoff
    constructor
    · exact (parseWith_kept true hnone hnone' hoff).1
    · exact (parseWith_kept o.memoize hfits hknown hoff).1
  · intro hlive
    exact (parseWith_known hfits hknown hlive).1
  · intro limit hfull x hx hlive
    simp only [List.mem_cons, List.not_mem_nil, or_false] at hx
    rcases hx with rfl | rfl | rfl
    · exact parseWith_eq_of_live false hnone hnone' hlive hfull
    · exact parseWith_eq_of_live true hnone hnone' hlive hfull
    · exact parseWith_eq_of_live o.memoize hfits hknown hlive hfull

/-- A text of a few letters under the lowest recursion limit under which a parse of it goes on. -/
theorem Program.CompiledFrom.verdicts_letters :
    (letters.parse { memoize := false, recursionLimit := 1 } "aba").halted = some .tooDeep ∧
    (letters.parse { memoize := false, recursionLimit := 2 } "aba").halted = none ∧
    ∃ new, letters.reparse { recursionLimit := 2 } (letters.parse {} "aa") (.insertion 1 "b") =
        .ok new ∧ new.halted = none ∧
      new.tree = .node 2 [.leaf 3 "a", .node 0 [.leaf 1 "b"], .leaf 3 "a"] ∧
      new.errors = [⟨1, 2, .unexpected, ["\"a\""]⟩] ∧ new.points = [1] := by
  have hlive : (letters.parse { memoize := false, recursionLimit := 2 } "aba").halted = none := by
    decide +kernel
  refine ⟨by decide +kernel, hlive, ?_⟩
  have hold : Produced (CompiledFrom Analysed.letters.grammar 0) (letters.parse {} "aa") "aa" :=
    .parse {} letters_compiledFrom (by decide)
  obtain ⟨new, hnew, -, hgoes, -, hsame⟩ := @verdicts _ _ _ letters_compiledFrom
    { recursionLimit := 2 } rfl rfl _ _ _ (.insertion 1 "b") hold rfl
  have hgoes' : new.halted = none := (hgoes hlive).2
  obtain ⟨htree, herrors, hpoints⟩ := hsame 2 hlive new (by simp) hgoes'
  refine ⟨new, hnew, hgoes', htree.trans ?_, herrors.trans ?_, hpoints.trans ?_⟩ <;>
    decide +kernel

end Packrat
