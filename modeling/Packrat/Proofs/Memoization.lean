import Packrat.Proofs.Parse.Items
import Packrat.Proofs.Parse.Richer
import Packrat.Proofs.Parse.Rounds
import Packrat.Proofs.Parse.Simulation

/-!
# Keeping results changes nothing

A parse that keeps the results of rules comes to the same as one that does not, and goes as far.
Strict results are derived, so the parse that keeps none comes to them by running the rule. The
results that error points had a part in hold for the round alone: there, they are what every run of
the rule without kept results comes to.
-/

/-!
## Parses in lockstep

Where the rounds of one parse simulate those of another one, and the relation of their states
survives dropping the results that error points had a part in, both parses go through the same
error points and make the same tree and errors.
-/

namespace Packrat

/-- What a relation of the states of two parses needs, for each choice of error points, so that
their rounds go in step. -/
structure Lockstep (p : Program) (o : ParseOptions) (text : Text) (memoize : Bool)
    (rel : List Nat → State → State → Prop) : Prop where
  sim : ∀ points, Simulation (roundSetting p o text points) memoize (rel points)
  settle : ∀ {points u u'} (points' : List Nat), rel points u u' →
    rel points' u.settle u'.settle

section

variable {p : Program} {o : ParseOptions} {text : Text} {memoize : Bool}
  {rel : List Nat → State → State → Prop}

/-- In every round either there is recovery or there are no error points. -/
theorem fine_roundSetting (p : Program) (o : ParseOptions) (text : Text) (points : List Nat) :
    (roundSetting p o text points).Fine := by
  cases points with
  | nil => exact .inr (by simp [roundSetting])
  | cons => exact .inl rfl

/-- A round that is simulated comes to the same. -/
theorem runRound_simulated {points : List Nat} {depth : Nat} {u v u' : State} {a : Answer}
    (sim : Simulation (roundSetting p o text points) memoize (rel points))
    (h : runRound (roundSetting p o text points) depth u = (a, v)) (hlive : v.halted = none)
    (hrel : rel points u u') :
    ∃ v', runRound ((roundSetting p o text points).keeping memoize) depth u' = (a, v') ∧
      rel points v v' := by
  obtain ⟨a₀, hrun, rfl⟩ := runRound_eq.mp h
  obtain ⟨_, v', hrun', ⟨a₀', rfl, hagrees⟩, hrel'⟩ :=
    hrun.simulated sim (.inl rfl) hlive text.isBoundary_zero (Nat.le_refl depth) hrel
  rw [← hagrees.exact (fine_roundSetting p o text points)] at hrun'
  refine ⟨v', runRound_eq.mpr ⟨a₀, hrun', ?_⟩, hrel'⟩
  simp only [Setting.trivia_keeping]

/-- Rounds in step come to the same with the same error points. -/
theorem Rounds.simulated (lock : Lockstep p o text memoize rel) {left number : Nat}
    {points points' : List Nat} {u v u' : State} {a : Answer}
    (h : Rounds p o text left number points u a points' v) (hlive : v.halted = none)
    (hrel : rel points u u') :
    ∃ v', Rounds p { o with memoize := memoize } text left number points u' a points' v' ∧
      rel points' v v' := by
  induction h generalizing u' with
  | @last left number points u a v round final =>
    obtain ⟨v', hround, hrel'⟩ := runRound_simulated (lock.sim points) round hlive
      ((lock.sim points).record _ (.round number (roundSetting p o text points).points) hrel)
    refine ⟨v', .last hround (final.imp_right fun hnone => ?_), hrel'⟩
    rw [← hnone]
    simp only [nextPoint?, State.isHalted, hlive, ((lock.sim points).poorer hrel').live]
  | @next left number points u a v₁ point a' points' v round more rest ih =>
    obtain ⟨-, -, hlive₁, -⟩ := of_nextPoint? more
    obtain ⟨v₁', hround, hrel₁⟩ := runRound_simulated (lock.sim points) round hlive₁
      ((lock.sim points).record _ (.round number (roundSetting p o text points).points) hrel)
    obtain ⟨v', hrest, hrel'⟩ := ih hlive (lock.settle _ hrel₁)
    refine ⟨v', .next hround ?_ hrest, hrel'⟩
    rw [← more]
    simp only [nextPoint?, State.isHalted, hlive₁, ((lock.sim points).poorer hrel₁).live]

/-- What is left over becomes the same error in parses that go on. -/
theorem takenInFull_keeping (c : Setting) (memoize : Bool) (a : Answer) {s s' : State}
    (hs : s.halted = none) (hs' : s'.halted = none) :
    (takenInFull (c.keeping memoize) a s').1 = (takenInFull c a s).1 := by
  have herror : ∀ start stop expected,
      (c.keeping memoize).takenError start stop expected = c.takenError start stop expected :=
    fun _ _ _ => rfl
  have htext : (c.keeping memoize).text = c.text := rfl
  simp only [takenInFull, herror, htext, State.isHalted, hs, hs']
  split <;> rfl

/-- Parses in step go on together and report the same tree, errors and error points. -/
theorem Program.parseWith_simulated (lock : Lockstep p o text memoize rel) {known known' : Results}
    (hlive : (p.parseWith o known false text).halted = none)
    (hrel : rel [] (o.startState known false) (o.startState known' false)) :
    (p.parseWith { o with memoize := memoize } known' false text).halted = none ∧
      (p.parseWith { o with memoize := memoize } known' false text).tree =
        (p.parseWith o known false text).tree ∧
      (p.parseWith { o with memoize := memoize } known' false text).errors =
        (p.parseWith o known false text).errors ∧
      (p.parseWith { o with memoize := memoize } known' false text).points =
        (p.parseWith o known false text).points := by
  obtain ⟨a, points, s, hrounds, hparse⟩ := p.exists_rounds o known false text
  obtain ⟨a', points', s', hrounds', hparse'⟩ :=
    p.exists_rounds { o with memoize := memoize } known' false text
  rw [hparse] at hlive ⊢
  rw [hparse']
  obtain ⟨v', hsimulated, hrel'⟩ := hrounds.simulated lock hlive hrel
  have hsame := hsimulated.eq_runRounds.symm.trans hrounds'.eq_runRounds
  simp only [Prod.mk.injEq] at hsame
  obtain ⟨⟨rfl, rfl⟩, rfl⟩ := hsame
  have hlive' := ((lock.sim points).poorer hrel').live
  have htaken := takenInFull_keeping (roundSetting p o text points) memoize a hlive hlive'
  have hsetting : roundSetting p { o with memoize := memoize } text points =
    (roundSetting p o text points).keeping memoize := rfl
  simp only [hsetting, htaken, hlive', and_self]

end

end Packrat

/-! ## Kept results -/

namespace Packrat

/-- Whether a result is what every run of its rule without kept results comes to in a round. -/
def Setting.Reproduces (c₀ : Setting) (key : MemoKey) (e : Entry) : Prop :=
  ∀ d s a s', s.memo.Sound c₀.program c₀.text c₀.points →
    Run c₀ d (.rule key.1) key.2 s (.answer a) s' → s'.halted = none → a = e.answer c₀ true

/-- Whether all that is kept in the second of two states in a round, the first of which belongs to
a parse that keeps nothing, is what that parse comes to. -/
structure State.Replays (c₀ : Setting) (u u' : State) : Prop where
  poorer : u.Poorer u'
  sound : u.memo.Sound c₀.program c₀.text c₀.points
  sound' : u'.memo.Sound c₀.program c₀.text c₀.points
  reproduced : ∀ (key : MemoKey) (e : Entry), u'.memo.recovering[key]? = some e →
    c₀.Reproduces key e

namespace State.Replays

variable {c₀ c : Setting} {u u' v : State}

/-- An event on both sides leaves both with the same results. -/
theorem record (e e' : Event) (h : u.Replays c₀ u') : (u.record e).Replays c₀ (u'.record e') :=
  ⟨h.poorer.record e e', h.sound, h.sound', h.reproduced⟩

/-- An event in the parse that keeps results leaves both with the same results. -/
theorem record_right (e : Event) (h : u.Replays c₀ u') : u.Replays c₀ (u'.record e) :=
  ⟨h.poorer.record_right e, h.sound, h.sound', h.reproduced⟩

/-- A step of fuel is granted to the parse that keeps results if it is to the other. -/
theorem tick (h : u.Replays c₀ u') (htick : u.tick = (true, v)) :
    ∃ v', u'.tick = (true, v') ∧ v.Replays c₀ v' := by
  obtain ⟨v', htick', hpoorer, hmemo, hmemo'⟩ := h.poorer.tick htick
  exact ⟨v', htick', hpoorer, hmemo ▸ h.sound, hmemo' ▸ h.sound', hmemo' ▸ h.reproduced⟩

/-- A try is granted to the parse that keeps results if it is to the other. -/
theorem ask (h : u.Replays c₀ u') (hask : u.ask = (true, v)) :
    ∃ v', u'.ask = (true, v') ∧ v.Replays c₀ v' := by
  obtain ⟨v', hask', hpoorer, hmemo, hmemo'⟩ := h.poorer.ask hask
  exact ⟨v', hask', hpoorer, hmemo ▸ h.sound, hmemo' ▸ h.sound', hmemo' ▸ h.reproduced⟩

end State.Replays

section

variable {c₀ c : Setting} {d rule p : Nat} {u v : State} {a : Answer}

/-- What one run of a rule without kept results comes to in a recovering round, every one does. -/
theorem Run.reproduces (hoff : c₀.memoize = false) (hfine : c₀.Fine)
    (hp : c₀.text.isBoundary p = true) (h : Run c₀ d (.rule rule) p u (.answer a) v)
    (hlive : v.halted = none) (hsound : u.memo.Sound c₀.program c₀.text c₀.points) {e : Entry}
    (he : e.answer c₀ true = a) : c₀.Reproduces (rule, p) e := by
  intro d' s b s' hsound' hrun hlive'
  rw [he]
  have hready : (Job.rule rule).Ready c₀ p := hp
  exact (hrun.agrees_of_off hoff hready hlive' hsound' h hlive hsound).exact hfine

/-- A parse that keeps results simulates one that does not. -/
theorem simulation_replays (hoff : c₀.memoize = false) :
    Simulation c₀ true (State.Replays c₀) where
  poorer h := h.poorer
  sound h := h.sound
  record e e' h := h.record e e'
  tick h htick := h.tick htick
  hit := by
    intro c d rule p u u' v entry recovering hwithin hp h ask known
    have hmemo := (of_known? known).1
    rw [hwithin.memoize, hoff] at hmemo
    cases hmemo
  body := by
    intro c d d' rule p u u' v a w hwithin hp h ask unknown hbody hlive ih
    obtain ⟨v', hask', h'⟩ := h.ask ask
    have hrun : Run c d (.rule rule) p u _ _ := .body ask unknown hbody
    have hlive' : ((keep c rule p (a.entry p) w).record
        (.leave rule (a.taken.map (·.stop)))).halted = none := by
      rw [State.record_halted, keep_halted, hlive]
    have hsound := hwithin.sound_iff.mpr h.sound
    have hkept := hwithin.sound_iff.mp (hrun.sound hlive' hp hsound)
    have hspent : v.Spent ((keep c rule p (a.entry p) w).record
        (.leave rule (a.taken.map (·.stop)))) :=
      ⟨by simpa using hbody.spent.fuel, by simpa using hbody.spent.patience⟩
    cases hknown : known? (c.keeping true) rule p v' with
    | none =>
      obtain ⟨a', w', hbody', hagrees, hw⟩ := ih _ (h'.record _ _)
      have hrun' : Run (c.keeping true) d' (.rule rule) p u' _ _ := .body hask' hknown hbody'
      have hlive'' : ((keep (c.keeping true) rule p (a'.entry p) w').record
          (.leave rule (a'.taken.map (·.stop)))).halted = none := by
        rw [State.record_halted, keep_halted, hw.poorer.live]
      have hkept' := hwithin.sound_iff.mp
        (hrun'.sound hlive'' hp (hwithin.sound_iff.mpr h.sound'))
      refine ⟨_, _, hrun', hagrees.map (f := (·.fromRule p)) (g := (·.fromRule p)) fun _ => rfl,
        ⟨⟨hlive'', ?_, ?_⟩, hkept, hkept', fun key e he => ?_⟩⟩
      · simpa using hw.poorer.fuel
      · simpa using hw.poorer.patience
      · rcases getElem?_keep_recovering he with hold | ⟨rfl, rfl, hrec, -⟩
        · exact hw.reproduced key e hold
        · have hround : c = c₀ := hwithin.resolve_right fun h => by
            rw [h] at hrec
            cases hrec
          subst hround
          have hfine : c.Fine := .inl hrec
          refine hrun.reproduces hoff hfine hp hlive' hsound ?_
          rw [← hagrees.exact hfine]
          rfl
    | some known =>
      obtain ⟨entry, recovering⟩ := known
      have hrel := h'.record_right (.hit rule p (entry.taken.map (·.stop)))
      refine ⟨_, _, .hit hask' hknown, ?_,
        hspent.poorer hrel.poorer, hkept, hrel.sound', hrel.reproduced⟩
      obtain ⟨-, ⟨rfl, hrec, hentry⟩ | ⟨rfl, hentry, hquiet, -⟩⟩ := of_known? hknown
      · have hround : c = c₀ := hwithin.resolve_right fun h => by
          rw [h] at hrec
          cases hrec
        subst hround
        rw [h'.reproduced _ _ hentry d u _ _ h.sound hrun hlive']
        exact .refl _ _
      · exact (hrun.agrees_strict hlive' hp hsound (hwithin.sound_iff.mpr h'.sound') hentry
          hquiet).1

end

/-- A parse that keeps no results goes in step with one that does. -/
theorem lockstep_replays (p : Program) (o : ParseOptions) (text : Text) :
    Lockstep p { o with memoize := false } text true fun points =>
      State.Replays (roundSetting p { o with memoize := false } text points) where
  sim points := simulation_replays rfl
  settle points' h :=
    ⟨h.poorer.settle, h.sound.settle _, h.sound'.settle _,
      by simp⟩

/-- At the start no results are kept on either side. -/
theorem replays_startState (p : Program) (o : ParseOptions) (text : Text) (memoize : Bool) :
    State.Replays (roundSetting p { o with memoize := false } text [])
      (ParseOptions.startState { o with memoize := false } {} false)
      (ParseOptions.startState { o with memoize := memoize } {} false) :=
  ⟨⟨rfl, .refl _, .refl _⟩, Memo.sound_empty _ _ _, Memo.sound_empty _ _ _,
    by simp [ParseOptions.startState]⟩

/-- If a parse that keeps no results goes on to its end, the parse that keeps them does so too, with
the same tree, the same errors and the same error points. -/
theorem Program.parse_memoize {p : Program} {o : ParseOptions} {text : String}
    (hlive : (p.parse { o with memoize := false } text).halted = none) :
    (p.parse { o with memoize := true } text).halted = none ∧
      (p.parse { o with memoize := true } text).tree =
        (p.parse { o with memoize := false } text).tree ∧
      (p.parse { o with memoize := true } text).errors =
        (p.parse { o with memoize := false } text).errors ∧
      (p.parse { o with memoize := true } text).points =
        (p.parse { o with memoize := false } text).points :=
  p.parseWith_simulated (lockstep_replays p o (Text.ofString text)) hlive
    (replays_startState p o (Text.ofString text) true)

/-- A parse with an error in which a rule is tried twice at one place. -/
theorem Program.parse_memoize_retrying :
    (retrying.parse {} "aacd").halted = none ∧
      (retrying.parse {} "aacd").tree =
        .node 2 [.node 3 [.leaf 6 "a", .leaf 6 "a"], .leaf 5 "c", .node 0 [.leaf 1 "d"]] ∧
      (retrying.parse {} "aacd").errors = [⟨3, 4, .unexpected, []⟩] ∧
      (retrying.parse {} "aacd").points = [3] ∧
      .hit 1 0 (some 2) ∈ (retrying.parseTraced {} "aacd").log := by
  have hlive : (retrying.parse { memoize := false } "aacd").halted = none := by decide +kernel
  obtain ⟨hhalted, htree, herrors, hpoints⟩ := @parse_memoize retrying {} "aacd" hlive
  refine ⟨hhalted, htree.trans ?_, herrors.trans ?_, hpoints.trans ?_, retrying_hits⟩ <;>
    decide +kernel

end Packrat
