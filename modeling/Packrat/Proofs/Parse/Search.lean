import Packrat.Proofs.Strict.Soundness

/-!
# What a search passes over

A search tries operations without recovery, at one position after the other. In a parse that goes
on, what such a try comes to is what is derived, so a position is passed over only if nothing that
is looked for matches there and no token to stop at stands there. `Run.search_skips` is the
induction along the characters.
-/

namespace Packrat

namespace Program

/-- Whether a token to stop at matches some of the text at a position. -/
def SyncsAt (g : Program) (text : Text) (p : Nat) : Prop :=
  ∃ t ∈ g.sync, ∃ n, ((g.terminal t).scanAt text p).length = some (n + 1)

/-- Whether an operation takes something from a position without recovery, and more than the
trivia there. -/
def Matches (g : Program) (text : Text) (step : Step) (p : Nat) (t : Taken) : Prop :=
  (∃ notes, Derives g text (fun _ => True) (.step step) p ⟨some t, notes⟩) ∧
    ((g.plain text).trivia p).stop < t.stop

/-- Whether there is nothing at a position that a search for some operations has to stop at. -/
structure Passes (g : Program) (text : Text) (steps : List Step) (p : Nat) : Prop where
  sync : ¬ g.SyncsAt text p
  steps : ∀ step ∈ steps, ∀ t, ¬ g.Matches text step p t

/-- `g.Skips text steps start stop behind` says that a search for some operations skips a stretch
of a text no longer than it must: it passes over every position in it, and it stops at the end of
the text, at a token to stop at, or at a match, with the trees of which those behind begin. -/
structure Skips (g : Program) (text : Text) (steps : List Step) (start stop : Nat)
    (behind : List Tree) : Prop where
  passes : ∀ p, text.isBoundary p = true → start ≤ p → p < stop → g.Passes text steps p
  ends : stop = text.size ∨ g.SyncsAt text stop ∨
    ∃ step ∈ steps, ∃ t, g.Matches text step stop t ∧ t.trees <+: behind

variable {g : Program} {text : Text} {steps : List Step} {start stop : Nat} {behind : List Tree}

/-- A search that stops where it starts skips nothing. -/
theorem Skips.here (hends : stop = text.size ∨ g.SyncsAt text stop ∨
    ∃ step ∈ steps, ∃ t, g.Matches text step stop t ∧ t.trees <+: behind) :
    g.Skips text steps stop stop behind :=
  ⟨fun p _ hle hlt => by omega, hends⟩

/-- More trees may follow. -/
theorem Skips.append (h : g.Skips text steps start stop behind) (more : List Tree) :
    g.Skips text steps start stop (behind ++ more) := by
  refine ⟨h.passes, ?_⟩
  rcases h.ends with hend | hsync | ⟨step, hstep, t, hmatches, hprefix⟩
  · exact .inl hend
  · exact .inr (.inl hsync)
  · exact .inr (.inr ⟨step, hstep, t, hmatches, hprefix.trans (List.prefix_append _ _)⟩)

/-- A search that passes over a character skips it with what it skips behind it. -/
theorem Skips.next {char : Char} {rest : List Char} (hstart : text.isBoundary start = true)
    (hchar : text.charsFrom start = char :: rest) (hpasses : g.Passes text steps start)
    (h : g.Skips text steps (start + char.utf8Size) stop behind) :
    g.Skips text steps start stop behind := by
  refine ⟨fun p hp hle hlt => ?_, h.ends⟩
  by_cases hinside : p < start + char.utf8Size
  · rw [Text.eq_of_lt_charsFrom hstart hchar hp hle hinside]
    exact hpasses
  · exact h.passes p hp (by omega) hlt

end Program

/-- Whether a search from a position on was not given up and skips no more than it must. -/
def Search.Skips (g : Program) (text : Text) (steps : List Step) (start : Nat) : Search → Prop
  | found stop m => g.Skips text steps start stop m.trees
  | stopped stop => g.Skips text steps start stop []
  | abandoned => False

/-- A search that passes over a character skips it with what it skips behind it. -/
theorem Search.Skips.next {g : Program} {text : Text} {steps : List Step} {start : Nat}
    {char : Char} {rest : List Char} {result : Search} (hstart : text.isBoundary start = true)
    (hchar : text.charsFrom start = char :: rest) (hpasses : g.Passes text steps start)
    (h : result.Skips g text steps (start + char.utf8Size)) : result.Skips g text steps start := by
  cases result with
  | found stop m => exact Program.Skips.next hstart hchar hpasses h
  | stopped stop => exact Program.Skips.next hstart hchar hpasses h
  | abandoned => exact h

namespace Setting

variable {c : Setting} {p : Nat} {s : State}

/-- One of some terminals matches when it takes something. -/
theorem matchesAny_iff {ts : List Nat} : (c.matchesAny p ts).1 = true ↔
    ∃ t ∈ ts, ∃ n, ((c.program.terminal t).scanAt c.text p).length = some (n + 1) := by
  induction ts with
  | nil => simp [matchesAny]
  | cons t ts ih =>
    rw [matchesAny]
    simp only [List.mem_cons, exists_eq_or_imp, ← ih]
    rcases ((c.program.terminal t).scanAt c.text p).length with _ | _ | n <;> simp

/-- In a parse that goes on, a search may not go past the end of the text and the tokens to stop
at. -/
theorem stopsAt_iff (hlive : s.halted = none) :
    (c.stopsAt p s).1 = true ↔ c.text.size ≤ p ∨ c.program.SyncsAt c.text p := by
  have hhalted := State.isHalted_eq_false.mpr hlive
  unfold stopsAt
  by_cases hend : c.text.size ≤ p
  · simp [hend]
  · simp only [hend, decide_false, hhalted, Bool.or_false, Bool.false_eq_true, if_false, false_or]
    exact matchesAny_iff

end Setting

section

variable {c : Setting} {d p reach : Nat} {steps : List Step} {s s' : State}

/-- In a parse that goes on, an operation that is run without recovery takes what is derived. -/
theorem Run.matches_iff {step : Step} {a : Answer} {t : Taken}
    (h : Run c.strict d (.step step) p s (.answer a) s') (hready : c.text.isBoundary p = true)
    (hfits : s.memo.Fits c.text c.points) (hvalid : s.memo.Valid c.program c.text)
    (hlive : s'.halted = none) :
    c.program.Matches c.text step p t ↔ a.taken = some t ∧ (c.trivia p).stop < t.stop := by
  have hderived := (h.derived hready hfits hvalid).1 hlive _ rfl trivial
  have hderives : Derives c.program c.text (fun _ => True) (.step step) p a.plain :=
    (hderived (Setting.quiet_strict c _ _)).1.mono fun _ _ => trivial
  rw [Program.Matches, Setting.trivia_plain]
  refine and_congr_left fun _ => ⟨?_, fun htaken => ?_⟩
  · rintro ⟨notes, hmatches⟩
    exact congrArg Answer.taken (hderives.unique hmatches)
  · refine ⟨a.plain.notes, ?_⟩
    rwa [← htaken]

/-- Trying operations at a position finds a match if there is one. -/
theorem Run.trial_matches {index : Nat} {found : Option Match}
    (h : Run c.strict d (.trial (c.trivia p).stop index steps) p s (.tried found reach) s')
    (hready : c.text.isBoundary p = true)
    (hfits : s.memo.Fits c.text c.points) (hvalid : s.memo.Valid c.program c.text)
    (hlive : s'.halted = none) :
    (found = none → ∀ step ∈ steps, ∀ t, ¬ c.program.Matches c.text step p t) ∧
      ∀ m, found = some m →
        ∃ step ∈ steps, c.program.Matches c.text step p ⟨m.stop, m.trees, []⟩ := by
  induction steps generalizing index found reach s with
  | nil =>
    cases h
    exact ⟨fun _ step hstep => absurd hstep List.not_mem_nil, nofun⟩
  | cons step rest ih =>
    cases h with
    | trialFound head past =>
      refine ⟨nofun, fun m hm => ?_⟩
      cases hm
      have herrors := ((head.fits hready hfits).1.quiet (Setting.quiet_strict c _ _) _ rfl).2
      refine ⟨step, List.mem_cons_self, (head.matches_iff hready hfits hvalid hlive).mpr ?_⟩
      rw [← herrors]
      exact ⟨rfl, past⟩
    | trialNext head short tail =>
      have hfits₁ := (head.fits hready hfits).2
      have hvalid₁ := (head.derived hready hfits hvalid).2
      obtain ⟨hnone, hsome⟩ := ih tail hfits₁ hvalid₁
      constructor
      · intro hfound
        refine List.forall_mem_cons.mpr ⟨fun t hmatches => ?_, hnone hfound⟩
        obtain ⟨htaken, hpast⟩ :=
          (head.matches_iff hready hfits hvalid (tail.live hlive)).mp hmatches
        exact short t htaken hpast
      · intro m hm
        obtain ⟨found, hmem, hmatches⟩ := hsome m hm
        exact ⟨found, List.mem_cons_of_mem _ hmem, hmatches⟩

/-- A search ends at a position unless it has to pass over it. -/
theorem Run.look_skips {result : Option Search}
    (h : Run c d (.look steps) p s (.looked result reach) s')
    (hready : c.text.isBoundary p = true) (hfits : s.memo.Fits c.text c.points)
    (hvalid : s.memo.Valid c.program c.text) (hlive : s'.halted = none) :
    (result = none → c.program.Passes c.text steps p) ∧
      ∀ r, result = some r → r.Skips c.program c.text steps p := by
  cases h with
  | lookRefused tick => exact absurd hlive (State.of_tick_false tick).1
  | lookFound tick attempts =>
    have hkept := (State.of_tick_true tick).2.2.1
    obtain ⟨-, hsome⟩ := attempts.trial_matches hready (hkept ▸ hfits)
      (hkept ▸ hvalid) hlive
    refine ⟨nofun, fun r hr => ?_⟩
    cases hr
    obtain ⟨step, hstep, hmatches⟩ := hsome _ rfl
    exact .here (.inr (.inr ⟨step, hstep, _, hmatches, List.prefix_rfl⟩))
  | lookStopped tick attempts final =>
    refine ⟨nofun, fun r hr => ?_⟩
    cases hr
    have hstops := (Setting.stopsAt_iff hlive).mp (congrArg Prod.fst final)
    rcases hstops with hend | hsync
    · exact .here (.inl (Nat.le_antisymm (Text.le_size_of_isBoundary hready) hend))
    · exact .here (.inr (.inl hsync))
  | lookPassed tick attempts passed =>
    have hkept := (State.of_tick_true tick).2.2.1
    obtain ⟨hnone, -⟩ := attempts.trial_matches hready (hkept ▸ hfits)
      (hkept ▸ hvalid) hlive
    refine ⟨fun _ => ?_, nofun⟩
    have hgoes : ¬ (c.stopsAt p s').1 = true := by simp [passed]
    rw [Setting.stopsAt_iff hlive, not_or] at hgoes
    exact ⟨hgoes.2, hnone rfl⟩

/-- A search in a parse that goes on skips no more than it must. -/
theorem Run.search_skips {rest : List Char} {result : Search}
    (h : Run c d (.search steps rest) p s (.searched result reach) s')
    (hready : (Job.search steps rest).Ready c p) (hfits : s.memo.Fits c.text c.points)
    (hvalid : s.memo.Valid c.program c.text) (hlive : s'.halted = none) :
    result.Skips c.program c.text steps p := by
  induction rest generalizing p s result reach with
  | nil =>
    cases h with
    | @searchEnd _ _ _ _ _ found _ _ here =>
      obtain ⟨hnone, hsome⟩ := here.look_skips hready.1 hfits hvalid hlive
      cases found with
      | none => exact .here (.inl (Text.eq_size_of_charsFrom hready.1 hready.2.symm))
      | some r => exact hsome r rfl
  | cons char rest ih =>
    cases h with
    | searchDone here =>
      exact (here.look_skips hready.1 hfits hvalid hlive).2 _ rfl
    | searchNext here tail =>
      have hfits₁ := (here.fits hready.1 hfits).2
      have hvalid₁ := (here.derived hready.1 hfits hvalid).2
      obtain ⟨hnone, -⟩ := here.look_skips hready.1 hfits hvalid (tail.live hlive)
      have htail := ih tail hready.next hfits₁ hvalid₁
      exact htail.next hready.1 hready.2.symm (hnone rfl)

end

end Packrat
