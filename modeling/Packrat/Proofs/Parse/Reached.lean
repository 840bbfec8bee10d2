import Packrat.Proofs.Parse.Meeting
import Packrat.Proofs.Reparse

/-!
# The states of parses

A parse starts with nothing kept, or with what an edit carried over from earlier results of
programs among some. `Reached` collects the states it may come to from there, at any error points
and with any limits: operations tick, rules ask, jobs are run with and without recovery, and rounds
are settled. What is kept in such a state fits the text, and is sound as long as the parse goes on.
-/

namespace Packrat

/-- `Reached among g text points s` says that a parse of a text by a program may be in a state while
the error points are some. -/
inductive Reached (among : Program → Prop) (g : Program) (text : Text) : List Nat → State → Prop
  | fresh (points : List Nat) (fuel patience : Option Nat) (log : Option (List Event)) :
      Reached among g text points ⟨{}, fuel, patience, none, log⟩
  | edited {old : Parsed} {before after : String} {edit : Edit} (points : List Nat)
      (fuel patience : Option Nat) (log : Option (List Event)) (hold : Produced among old before)
      (happly : edit.apply (Text.ofString before) = .ok after)
      (htext : Text.ofString after = text) :
      Reached among g text points
        ⟨{ strict := if old.fingerprint = g.fingerprint then edit.carryOver old.results else {} },
          fuel, patience, none, log⟩
  | record {points s} (e : Event) (h : Reached among g text points s) :
      Reached among g text points (s.record e)
  | tick {points s granted s'} (h : Reached among g text points s)
      (htick : s.tick = (granted, s')) : Reached among g text points s'
  | ask {points s granted s'} (h : Reached among g text points s)
      (hask : s.ask = (granted, s')) : Reached among g text points s'
  | run {c d job p s out s'} (h : Reached among g text c.points s) (hprogram : c.program = g)
      (htext : c.text = text) (hrun : Run c d job p s out s') (hready : job.Ready c p) :
      Reached among g text c.points s'
  | settle {points s} (points' : List Nat) (h : Reached among g text points s) :
      Reached among g text points' s.settle

/-- A step of fuel does not touch what is kept. -/
theorem State.tick_memo {granted : Bool} {s s' : State} (h : s.tick = (granted, s')) :
    s'.memo = s.memo := by
  cases granted with
  | false => exact (of_tick_false h).2
  | true => exact (of_tick_true h).2.2.1

/-- A try does not touch what is kept. -/
theorem State.ask_memo {granted : Bool} {s s' : State} (h : s.ask = (granted, s')) :
    s'.memo = s.memo := by
  cases granted with
  | false => exact (of_ask_false h).2
  | true => exact (of_ask_true h).2.2.1

/-- A parse that goes on after a tick did so before it. -/
theorem State.live_of_tick {granted : Bool} {s s' : State} (h : s.tick = (granted, s'))
    (hlive : s'.halted = none) : s.halted = none := by
  cases granted with
  | false => exact absurd hlive (of_tick_false h).1
  | true => exact (of_tick_true h).1

/-- A parse that goes on behind a try has gone on before it. -/
theorem State.live_of_ask {granted : Bool} {s s' : State} (h : s.ask = (granted, s'))
    (hlive : s'.halted = none) : s.halted = none := by
  cases granted with
  | false => exact absurd hlive (of_ask_false h).1
  | true => exact (of_ask_true h).1

namespace Reached

variable {among : Program → Prop} {g : Program} {text : Text} {points : List Nat} {s : State}

/-- A state that a parse may come to is one with an error noted. -/
theorem recordError (h : Reached among g text points s) (e : Option (Nat × Nat)) :
    Reached among g text points (s.recordError e) := by
  cases e with
  | none => exact h
  | some e => exact h.record _

/-- What is kept fits the text. -/
theorem fits (h : Reached among g text points s) : s.memo.Fits text points := by
  induction h with
  | fresh => exact ⟨by simp [Results.Fit], by simp⟩
  | edited _ _ _ _ hold happly htext =>
    subst htext
    exact ⟨hold.known_fits happly g.fingerprint, by simp⟩
  | record e _ ih => exact ih
  | tick _ htick ih => exact State.tick_memo htick ▸ ih
  | ask _ hask ih => exact State.ask_memo hask ▸ ih
  | run _ _ htext hrun hready ih =>
    subst htext
    exact (hrun.fits hready ih).2
  | settle points' _ ih => exact ih.settle points'

/-- What is kept is sound in a parse that goes on, if earlier results are those of programs of the
same grammar and start rule. -/
theorem sound {grammar : Grammar} {start : Nat}
    (h : Reached (Program.CompiledFrom grammar start) g text points s)
    (hg : g.CompiledFrom grammar start) (hlive : s.halted = none) :
    s.memo.Sound g text points := by
  induction h with
  | fresh points => exact Memo.sound_empty g text points
  | edited points _ _ _ hold happly htext =>
    subst htext
    obtain ⟨g₀, hg₀, hvalid⟩ := hold.exists_valid
    exact Memo.sound_of_strict (hold.known_fits happly g.fingerprint)
      (hold.known_valid hg₀ hvalid hg happly g.fingerprint) rfl points
  | record e _ ih => exact ih hlive
  | tick _ htick ih =>
    rw [State.tick_memo htick]
    exact ih (State.live_of_tick htick hlive)
  | ask _ hask ih =>
    rw [State.ask_memo hask]
    exact ih (State.live_of_ask hask hlive)
  | run _ hprogram htext hrun hready ih =>
    subst hprogram
    subst htext
    exact hrun.sound hlive hready (ih (hrun.live hlive))
  | settle points' _ ih => exact (ih hlive).settle points'

/-- What a call of a rule comes to in such a state fits the text, and is derived where no error
point lies, if the parse goes on. -/
theorem call_derived {grammar : Grammar} {start : Nat} {c : Setting}
    (h : Reached (Program.CompiledFrom grammar start) g c.text c.points s)
    (hg : g.CompiledFrom grammar start) (hc : c.program = g) {d rule p : Nat}
    (hp : c.text.isBoundary p = true) {a : Answer} {s' : State}
    (hcall : runRule (evaluate d) c rule p s = (a, s')) (hlive : s'.halted = none) :
    a.Fits c p ∧ (c.Quiet p a.notes.reach →
      Derives g c.text (c.Allowed s'.memo) (.rule rule) p a.plain) := by
  subst hc
  have hrun := run_iff.mpr (runJob_rule_eq.mpr hcall)
  have hready : (Job.rule rule).Ready c p := hp
  have hsound := h.sound hg (hrun.live hlive)
  have hderives := (hrun.derived hready h.fits hsound.valid).1 hlive _ rfl trivial
  exact ⟨(hrun.fits hready h.fits).1, fun hquiet => (hderives hquiet).1⟩

/-- Whatever is run for a job in such a state starts in such a state. -/
theorem runs {a b : Moment} (h : Reached among g text a.setting.points a.state)
    (hprogram : a.setting.program = g) (htext : a.setting.text = text)
    (hready : a.job.Ready a.setting a.position) (hruns : a.Runs b) :
    Reached among g text b.setting.points b.state := by
  cases hruns with
  | ticked tick => exact h.tick tick
  | body ask => exact (h.ask ask).record _
  | seqTail head => exact h.run hprogram htext head hready
  | seqScan head => exact h.run hprogram htext head hready
  | seqResumed head armed scan =>
    have h₁ := h.run hprogram htext head hready
    exact (h₁.run hprogram htext scan (Job.ready_search hready _)).recordError _
  | choiceNext head => exact (h.run hprogram htext head hready).record _
  | nextIteration _ head => exact h.run hprogram htext head hready
  | iterationScan _ head => exact h.run hprogram htext head hready
  | foundIteration _ head _ armed scan =>
    have h₁ := h.run hprogram htext head hready
    exact (h₁.run hprogram htext scan (Job.ready_search hready _)).recordError _
  | trialNext head => exact h.run hprogram htext head hready
  | attempts tick => exact h.tick tick
  | searchNext here => exact h.run hprogram htext here hready.1
  | _ => exact h

end Reached

section

variable {among : Program → Prop} {p : Program} {o : ParseOptions} {text : Text}

/-- A parse starts its rounds in such states. -/
theorem Program.RoundStarts.reached {number : Nat} {points : List Nat} {s : State}
    (h : p.RoundStarts o text number points s) :
    Reached among p text (roundSetting p o text points).points s := by
  induction h with
  | first => exact .fresh _ _ _ _
  | next before round more ih =>
    obtain ⟨a₀, hrun, -⟩ := runRound_eq.mp round
    exact ((ih.record _).run rfl rfl hrun text.isBoundary_zero).settle _

/-- A parse meets its moments in such states. -/
theorem Program.Meets.reached {m : Moment} (h : p.Meets o text m) :
    Reached among p text m.setting.points m.state := by
  obtain ⟨height, hheight⟩ := p.exists_height
  obtain ⟨number, points, s, hstarts, hreach⟩ := h
  induction hreach with
  | refl => exact hstarts.reached.record _
  | tail hbefore hruns ih =>
    have hmeets : p.Meets o text _ := ⟨number, points, s, hstarts, hbefore⟩
    have hregular := hmeets.regular hheight
    exact ih.runs hregular.program hregular.text hregular.ready hruns

end

end Packrat
