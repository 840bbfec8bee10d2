import Packrat.Proofs.Memoization
import Packrat.Proofs.Parse.Log
import Packrat.Proofs.Parse.Reached
import Packrat.Proofs.Strict.Completeness

/-!
# Calls that see no error point

A call of a rule that saw no error point is a strict call: with recovery and without it the rule
comes to the same answer and leaves the same behind, and every other strict call of the rule at its
position takes the same and fails in the same place. This rests on two facts about how far a call
looks. Whatever fails in it does so inside of the text that it looked at, and a strict call takes
no more than that.
-/

/-!
## Runs that no error point has a part in

Where no error point lies in the text that a run looks at, it makes no difference whether failures
at error points are recovered from: the run is one with recovery and one without it, with the same
answer and the same state behind it. Nothing fails at an error point, and rules find the same kept
results either way.
-/

namespace Packrat

namespace Setting

variable {c : Setting} {r : Bool}

/-- The same with or without recovery. -/
def inMode (c : Setting) (recovering : Bool) : Setting := { c with recovering := recovering }

/-- Either way of running a rule has the same error points. -/
@[simp] theorem inMode_points : (c.inMode r).points = c.points := rfl

/-- Either way of running a rule keeps results or does not. -/
@[simp] theorem inMode_memoize : (c.inMode r).memoize = c.memoize := rfl

/-- A stretch without error points is quiet. -/
theorem quiet_of_clear {start stop : Nat} (h : anyBetween c.points start stop = false) :
    c.Quiet start stop := fun _ => h

/-- Nothing that fails where no error point lies is recovered from, in whatever mode. -/
theorem recoverable?_inMode {notes : Notes} {p reach : Nat}
    (hfits : Answer.Fits c p ⟨none, notes⟩) (hreach : notes.reach ≤ reach)
    (hclear : anyBetween c.points p reach = false) : (c.inMode r).recoverable? notes = none := by
  cases hf : (c.inMode r).recoverable? notes with
  | none => rfl
  | some f =>
    obtain ⟨hle, hlt⟩ := hfits.far f (of_recoverable? hf).2.1
    have hnot := not_quiet_of_recoverable? hf hle (Nat.lt_of_lt_of_le hlt hreach)
    exact absurd (fun _ => hclear) hnot

end Setting

section

variable {c : Setting} {r : Bool} {rule p : Nat} {s : State}

/-- A token comes to the same with recovery and without it. -/
theorem runToken_inMode (terminal kind : Nat) (immediate : Bool) :
    runToken (c.inMode r) terminal kind immediate p s = runToken c terminal kind immediate p s := by
  have htrivia : (c.inMode r).trivia p = c.trivia p :=
    Setting.trivia_congr (c := c) (d := c.inMode r) rfl rfl p
  simp only [runToken, htrivia]
  rfl

/-- A rule whose derivation no error point has a part in finds the same kept result in both
modes. -/
theorem known?_inMode (hsound : s.memo.Sound c.program c.text c.points)
    {allowed : MemoKey → Prop} {a : Answer}
    (hderives : Derives c.program c.text allowed (.rule rule) p a)
    (hclear : anyBetween c.points p a.notes.reach = false) :
    known? (c.inMode r) rule p s = known? c rule p s := by
  have hapart : s.memo.recovering[(rule, p)]? = none := by
    cases he : s.memo.recovering[(rule, p)]? with
    | none => rfl
    | some e =>
      have hpoint := hsound.armed _ e he allowed a hderives
      exact Bool.noConfusion (hclear.symm.trans hpoint)
  -- so the strict result is found in either mode, if there is one
  have hfind : ∀ recovering, s.memo.find? recovering c.points (rule, p) =
      (s.memo.strict[(rule, p)]?).map fun e => (e, false) := by
    intro recovering
    cases recovering with
    | false => rfl
    | true =>
      cases he : s.memo.strict[(rule, p)]? with
      | none => simp [Memo.find?, Memo.findClear?, hapart, he]
      | some e =>
        have hsame : e.plain = a := (hsound.valid _ e he).unique hderives
        have hquiet : anyBetween c.points p e.reach = false := by
          rw [← hclear, ← hsame]
          rfl
        simp [Memo.find?, Memo.findClear?, hapart, he, Option.filter, hquiet]
  simp only [known?, Setting.inMode_memoize, Setting.inMode_points, hfind]

/-- A result that saw no error point is kept in the same table with recovery and without it. -/
theorem keep_inMode {entry : Entry} (hclear : anyBetween c.points p entry.reach = false) :
    keep (c.inMode r) rule p entry s = keep c rule p entry s := by
  simp [keep, hclear]

end

/-- Whether what a job comes to is an answer that no error point has a part in. -/
def Outcome.Clear (points : List Nat) (p : Nat) : Outcome → Prop
  | answer a => anyBetween points p a.notes.reach = false
  | _ => False

/-- A run that no error point has a part in goes the same way in both modes. -/
theorem Run.inMode {c : Setting} {d : Nat} {job : Job} {p : Nat} {s s' : State} {out : Outcome}
    (h : Run c d job p s out s') (r : Bool) (hlive : s'.halted = none) (hready : job.Ready c p)
    (hsound : s.memo.Sound c.program c.text c.points) (hclear : out.Clear c.points p) :
    Run (c.inMode r) d job p s out s' := by
  induction h with
  | refused tick => exact absurd hlive (State.of_tick_false tick).1
  | tooDeep => simp at hlive
  | ticked tick rest ih =>
    have hkept := (State.of_tick_true tick).2.2.1
    exact .ticked tick (ih hlive hready (hkept ▸ hsound) hclear)
  | blank => exact .blank
  | token =>
    rw [← runToken_inMode (r := r)]
    exact .token
  | call rest ih => exact .call (ih hlive hready hsound hclear)
  | members rest ih => exact .members (ih hlive hready hsound hclear)
  | alternatives rest ih => exact .alternatives (ih hlive hready hsound hclear)
  | repetition rest ih => exact .repetition (ih hlive hready hsound hclear)
  | wrap rest ih => exact .wrap (ih hlive hready hsound hclear)
  | cancelled ask => exact absurd hlive (State.of_ask_false ask).1
  | @hit c d rule p s s₁ entry recovering ask known =>
    have hkept := (State.of_ask_true ask).2.2.1
    rw [← hkept] at hsound
    obtain ⟨-, ⟨rfl, -, hentry⟩ | ⟨rfl, hentry, -, -⟩⟩ := of_known? known
    · have hpoint := (hsound.fits.recovering _ _ hentry).2
      exact Bool.noConfusion (hclear.symm.trans hpoint)
    · have hsame := known?_inMode (r := r) hsound (hsound.valid _ _ hentry) hclear
      exact .hit (c := c.inMode r) ask (hsame.trans known)
  | @body c d rule p s s₁ a s₂ ask unknown rest ih =>
    have hkept := (State.of_ask_true ask).2.2.1
    have hrule : Run c d (.rule rule) p s _ _ := .body ask unknown rest
    have hderives := ((hrule.derived hready hsound.fits hsound.valid).1 hlive _ rfl trivial
      (Setting.quiet_of_clear hclear)).1
    rw [← hkept] at hsound
    have hsame := known?_inMode (r := r) hsound hderives hclear
    have hrest := ih (by simpa using hlive) hready hsound
      (Setting.anyBetween_mono hclear (Nat.le_refl _) (Nat.le_max_right _ _))
    have hbody : Run (c.inMode r) d (.rule rule) p s _ _ := .body ask (hsame.trans unknown) hrest
    have hkeep : keep (c.inMode r) rule p (a.entry p) s₂ = keep c rule p (a.entry p) s₂ :=
      keep_inMode hclear
    rwa [hkeep] at hbody
  | seqNil => exact .seqNil
  | seqSkip tail ih => exact .seqSkip (ih hlive hready hsound hclear)
  | seqTook head tail ihhead ihtail =>
    have hlive₁ := tail.live hlive
    have hfirst := (head.fits hready hsound.fits).1
    have hhead := ihhead hlive₁ hready hsound
      (Setting.anyBetween_mono hclear (Nat.le_refl _) (Nat.le_max_left _ _))
    exact .seqTook hhead (ihtail hlive (hfirst.isBoundary hready rfl)
      (head.sound hlive₁ hready hsound)
      (Setting.anyBetween_mono hclear (hfirst.le rfl) (Nat.le_max_right _ _)))
  | seqFailed head final ih =>
    have hfirst := (head.fits hready hsound.fits).1
    exact .seqFailed (ih hlive hready hsound hclear)
      (.inr (Setting.recoverable?_inMode hfirst (Nat.le_refl _) hclear))
  | seqEnded head armed scan ended =>
    have hfirst := (head.fits hready hsound.fits).1
    exact absurd (Setting.quiet_of_clear hclear) (hfirst.not_quiet armed (Nat.le_max_left _ _))
  | seqResumed head armed scan resumed tail =>
    have hfirst := (head.fits hready hsound.fits).1
    refine absurd (Setting.quiet_of_clear hclear) (hfirst.not_quiet armed ?_)
    exact Nat.le_trans (Nat.le_max_left _ _) (Nat.le_max_left _ _)
  | choiceNil => exact .choiceNil
  | choiceTook head ih => exact .choiceTook (ih hlive hready hsound hclear)
  | choiceNext head tail ihhead ihtail =>
    have hlive₁ := tail.live hlive
    have hhead := ihhead hlive₁ hready hsound
      (Setting.anyBetween_mono hclear (Nat.le_refl _) (Nat.le_max_left _ _))
    exact .choiceNext hhead (ihtail hlive hready (head.sound hlive₁ hready hsound)
      (Setting.anyBetween_mono hclear (Nat.le_refl _) (Nat.le_max_right _ _)))
  | exhausted => exact .exhausted
  | enough full => exact .enough full
  | idleIteration room head still ih =>
    exact .idleIteration room (ih hlive hready hsound hclear) still
  | nextIteration room head moved tail ihhead ihtail =>
    have hlive₁ := tail.live hlive
    have hfirst := (head.fits hready hsound.fits).1
    have hhead := ihhead hlive₁ hready hsound
      (Setting.anyBetween_mono hclear (Nat.le_refl _) (Nat.le_max_left _ _))
    exact .nextIteration room hhead moved (ihtail hlive (hfirst.isBoundary hready rfl)
      (head.sound hlive₁ hready hsound)
      (Setting.anyBetween_mono hclear (hfirst.le rfl) (Nat.le_max_right _ _)))
  | lastIteration room head final ih =>
    have hfirst := (head.fits hready hsound.fits).1
    exact .lastIteration room (ih hlive hready hsound hclear)
      fun _ => Setting.recoverable?_inMode hfirst (Nat.le_refl _) hclear
  | lostIteration room head started armed scan ended =>
    have hfirst := (head.fits hready hsound.fits).1
    exact absurd (Setting.quiet_of_clear hclear) (hfirst.not_quiet armed (Nat.le_max_left _ _))
  | foundIteration room head started armed scan resumed tail =>
    have hfirst := (head.fits hready hsound.fits).1
    refine absurd (Setting.quiet_of_clear hclear) (hfirst.not_quiet armed ?_)
    exact Nat.le_trans (Nat.le_max_left _ _) (Nat.le_max_left _ _)
  | _ => exact hclear.elim

end Packrat

/-! ## Clear calls -/

namespace Packrat

section

variable {c : Setting} {d rule p : Nat} {s s' : State} {a : Answer}

/-- A rule that is called in a parse that goes on has looked as far as its position. -/
theorem Run.le_reach_of_rule (h : Run c d (.rule rule) p s (.answer a) s')
    (hlive : s'.halted = none) (hfits : s.memo.Fits c.text c.points) : p ≤ a.notes.reach := by
  cases h with
  | cancelled ask => exact absurd hlive (State.of_ask_false ask).1
  | @hit _ _ _ _ _ s₁ entry recovering ask known =>
    rw [← State.ask_memo ask] at hfits
    obtain ⟨-, ⟨-, -, hentry⟩ | ⟨-, hentry, -, -⟩⟩ := of_known? known
    · exact (hfits.recovering _ _ hentry).1.reach
    · exact (hfits.strict _ _ hentry).reach
  | body => exact Nat.le_max_left _ _

end

section

variable {grammar : Grammar} {start : Nat} {g : Program} {c : Setting} {d rule p : Nat}
  {s s' : State} {a : Answer}

/-- A call in which no error point has a part is the same call in either mode. -/
theorem Reached.call_inMode (h : Reached (Program.CompiledFrom grammar start) g c.text c.points s)
    (hg : g.CompiledFrom grammar start) (hc : c.program = g) (hp : c.text.isBoundary p = true)
    (hcall : runRule (evaluate d) c rule p s = (a, s')) (hlive : s'.halted = none)
    (hclear : anyBetween c.points p a.notes.reach = false) (r : Bool) :
    runRule (evaluate d) (c.inMode r) rule p s = (a, s') := by
  subst hc
  have hrun := run_iff.mpr (runJob_rule_eq.mpr hcall)
  have hsound := h.sound hg (hrun.live hlive)
  exact runJob_rule_eq.mp (run_iff.mp (hrun.inMode r hlive hp hsound hclear))

/-- Wherever a call fails on its way, it fails inside of the text that it looks at. -/
theorem Reached.call_logs (h : Reached (Program.CompiledFrom grammar start) g c.text c.points s)
    (hp : c.text.isBoundary p = true) (hcall : runRule (evaluate d) c rule p s = (a, s')) :
    ∃ new : List Event, (∀ kind q, .token kind q none ∈ new → p ≤ q ∧ q < a.notes.reach) ∧
      ∀ log, runRule (evaluate d) c rule p (s.withLog log) =
        (a, s'.withLog (log.map (new ++ ·))) := by
  have hready : (Job.rule rule).Ready c p := hp
  obtain ⟨new, hnew, hlogs⟩ := (run_iff.mpr (runJob_rule_eq.mpr hcall)).logs hready h.fits
  refine ⟨new, fun kind q hmem => hnew _ hmem kind q rfl, fun log => ?_⟩
  exact runJob_rule_eq.mp (run_iff.mp (hlogs log))

end

namespace Program.CompiledFrom

variable {grammar : Grammar} {start : Nat} {g : Program}

/-- In every state of a parse a call of a rule is one with recovery if and only if it is one
without, as long as the parse goes on and no error point lies in the text that was looked at; every
strict call of the rule there, in whatever state and with whatever limits, then takes the same, and
nothing is an error. Wherever a terminal fails in a call, with or without recovery and in a parse
that stops early as well, it fails inside of the text that the call looks at, and a strict call
ends there at the latest. -/
theorem clear_call (hg : g.CompiledFrom grammar start) {c : Setting} (hc : c.program = g)
    {s : State} (hs : Reached (CompiledFrom grammar start) g c.text c.points s) (d rule : Nat)
    {p : Nat} (hp : c.text.isBoundary p = true) :
    (∀ a s', s'.halted = none → anyBetween c.points p a.notes.reach = false →
      (runRule (evaluate d) c rule p s = (a, s') ↔
        runRule (evaluate d) c.strict rule p s = (a, s'))) ∧
    (∀ a s', runRule (evaluate d) c rule p s = (a, s') → s'.halted = none →
      anyBetween c.points p a.notes.reach = false →
      (∀ t, a.taken = some t → t.errors = []) ∧
      ∀ (c' : Setting) (d' : Nat) (u : State) (b : Answer) (u' : State), c'.program = g →
        c'.text = c.text → c'.recovering = false →
        Reached (CompiledFrom grammar start) g c'.text c'.points u →
        runRule (evaluate d') c' rule p u = (b, u') → u'.halted = none →
        b.taken = a.taken ∧ b.notes.far = a.notes.far ∧ b.notes.reach = a.notes.reach) ∧
    ∀ a s', runRule (evaluate d) c rule p s = (a, s') →
      (∀ f, a.notes.far = some f → p ≤ f.position ∧ f.position < a.notes.reach) ∧
      (∃ new : List Event, (∀ kind q, .token kind q none ∈ new → p ≤ q ∧ q < a.notes.reach) ∧
        ∀ log, runRule (evaluate d) c rule p (s.withLog log) =
          (a, s'.withLog (log.map (new ++ ·)))) ∧
      (c.recovering = false → ∀ t, a.taken = some t → t.stop ≤ max p a.notes.reach) ∧
      (s'.halted = none → p ≤ a.notes.reach) := by
  have hready : (Job.rule rule).Ready c p := hp
  refine ⟨fun a s' hlive hclear => ?_, fun a s' hcall hlive hclear => ?_, fun a s' hcall => ?_⟩
  · constructor
    · intro hcall
      exact hs.call_inMode hg hc hp hcall hlive hclear false
    · intro hcall
      have hstrict : Reached (CompiledFrom grammar start) g c.strict.text c.strict.points s := hs
      exact hstrict.call_inMode hg hc hp hcall hlive hclear c.recovering
  · have hquiet : c.Quiet p a.notes.reach := Setting.quiet_of_clear hclear
    obtain ⟨hfits, hderives⟩ := hs.call_derived hg hc hp hcall hlive
    refine ⟨fun t ht => (hfits.quiet hquiet t ht).2, ?_⟩
    intro c' d' u b u' hprogram htext hstrict hu hcall' hlive'
    have hp' : c'.text.isBoundary p = true := by rw [htext, hp]
    have hderives' :=
      (hu.call_derived hg hprogram hp' hcall' hlive').2 (Setting.quiet_of_strict hstrict)
    rw [htext] at hderives'
    have hsame : b.plain = a.plain := hderives'.unique (hderives hquiet)
    exact ⟨congrArg (·.taken) hsame, congrArg (·.notes.far) hsame, congrArg (·.notes.reach) hsame⟩
  · have hrun := run_iff.mpr (runJob_rule_eq.mpr hcall)
    have hfits : a.Fits c p := (hrun.fits hready hs.fits).1
    refine ⟨hfits.far, hs.call_logs hp hcall, fun hstrict t ht => ?_, fun hlive => ?_⟩
    · exact (hfits.quiet (Setting.quiet_of_strict hstrict) t ht).1
    · exact hrun.le_reach_of_rule hlive hs.fits

/-- A round on a text whose only error point is its end. -/
def clearSetting : Setting where
  program := letters
  text := .ofString "aab"
  memoize := false
  points := [3]
  recovering := true

/-- A call on two letters behind which an error point lies that it has not seen: it is a strict
call. -/
theorem clear_call_letters :
    clearSetting.recovering = true ∧
      (runRule (evaluate 8) clearSetting 0 0 ⟨{}, none, none, none, none⟩).1 =
        ⟨some { stop := 2, trees := [.leaf 3 "a", .leaf 3 "a"] },
          ⟨some ⟨2, [3]⟩, some 2, 3⟩⟩ ∧
      runRule (evaluate 8) clearSetting.strict 0 0 ⟨{}, none, none, none, none⟩ =
        runRule (evaluate 8) clearSetting 0 0 ⟨{}, none, none, none, none⟩ := by
  have hs : Reached (CompiledFrom Analysed.letters.grammar 0) letters clearSetting.text
      clearSetting.points ⟨{}, none, none, none, none⟩ := .fresh _ _ _ _
  have hlive : (runRule (evaluate 8) clearSetting 0 0
      ⟨{}, none, none, none, none⟩).2.halted = none := by decide +kernel
  have hanswer : (runRule (evaluate 8) clearSetting 0 0 ⟨{}, none, none, none, none⟩).1 =
      ⟨some { stop := 2, trees := [.leaf 3 "a", .leaf 3 "a"] },
        ⟨some ⟨2, [3]⟩, some 2, 3⟩⟩ := by decide +kernel
  have hclear : anyBetween clearSetting.points 0 (runRule (evaluate 8) clearSetting 0 0
      ⟨{}, none, none, none, none⟩).1.notes.reach = false := by
    rw [hanswer]
    decide
  refine ⟨rfl, hanswer, ?_⟩
  obtain ⟨hmodes, -, -⟩ := clear_call letters_compiledFrom (c := clearSetting) rfl hs 8 0
    (Text.isBoundary_zero _)
  exact (hmodes _ _ hlive hclear).mp rfl

end Program.CompiledFrom

end Packrat
