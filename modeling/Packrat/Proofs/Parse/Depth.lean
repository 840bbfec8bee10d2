import Packrat.Proofs.Parse.Nesting

/-!
# How deeply operations nest

The levels of the calls of rules bound how deeply operations nest: a rule on some level needs room
for the operations of its body and for the rules on the levels below. A run with so much room,
whose fuel and patience are unlimited, ends in a parse that goes on.
-/

namespace Packrat

/-- Whether the operations of a job have at most some size. One for which fuel was spent may have
one more. -/
def Job.Within (size : Nat) : Job → Prop
  | step op => sizeOf op ≤ size
  | operation op => sizeOf op ≤ size + 1
  | rule _ => True
  | seq members _ _ => ∀ op ∈ members, sizeOf op ≤ size
  | choice members => ∀ op ∈ members, sizeOf op ≤ size
  | iterations body _ _ _ _ => sizeOf body ≤ size
  | trial _ _ steps => ∀ op ∈ steps, sizeOf op ≤ size
  | look steps => ∀ op ∈ steps, sizeOf op ≤ size
  | search steps _ => ∀ op ∈ steps, sizeOf op ≤ size

/-- Every operation counts for at least one level. -/
theorem Op.sizeOf_pos (op : Step) : 0 < sizeOf op := by
  cases op <;> simp

/-- The bodies of the rules of a program have at most some size. -/
theorem Program.exists_height (g : Program) : ∃ height, ∀ i, sizeOf (g.rule i).body ≤ height := by
  refine ⟨(g.rules.toList.map fun rule => sizeOf rule.body).sum +
    sizeOf (default : ProgramRule).body, fun i => ?_⟩
  rw [rule]
  cases hrule : g.rules[i]? with
  | none => exact Nat.le_add_left _ _
  | some rule =>
    have hmem : rule ∈ g.rules.toList := Array.mem_toList_iff.mpr (Array.mem_of_getElem? hrule)
    have hle := List.le_sum_of_mem (List.mem_map_of_mem (f := fun r => sizeOf r.body) hmem)
    exact Nat.le_trans hle (Nat.le_add_right _ _)

namespace State

/-- Whether a parse goes on with nothing to limit it. -/
structure Unlimited (s : State) : Prop where
  live : s.halted = none
  fuel : s.fuel = none
  patience : s.patience = none

namespace Unlimited

variable {s s' : State} {granted : Bool}

/-- Where nothing is limited, a step of fuel is granted and nothing is limited still. -/
theorem tick (h : s.Unlimited) (htick : s.tick = (granted, s')) :
    granted = true ∧ s'.Unlimited := by
  rcases s with ⟨memo, fuel, patience, halted, log⟩
  obtain ⟨rfl, rfl, rfl⟩ := h
  cases htick
  exact ⟨rfl, rfl, rfl, rfl⟩

/-- Where nothing is limited, a try is granted and nothing is limited still. -/
theorem ask (h : s.Unlimited) (hask : s.ask = (granted, s')) :
    granted = true ∧ s'.Unlimited := by
  rcases s with ⟨memo, fuel, patience, halted, log⟩
  obtain ⟨rfl, rfl, rfl⟩ := h
  cases hask
  exact ⟨rfl, rfl, rfl, rfl⟩

/-- An event sets no limit. -/
theorem record (h : s.Unlimited) (e : Event) : (s.record e).Unlimited :=
  ⟨h.live, h.fuel, h.patience⟩

/-- Noting an error sets no limit. -/
theorem recordError (h : s.Unlimited) (e : Option (Nat × Nat)) : (s.recordError e).Unlimited :=
  ⟨by simpa using h.live, by simpa using h.fuel, by simpa using h.patience⟩

/-- Keeping a result sets no limit. -/
theorem keep (h : s.Unlimited) (c : Setting) (rule p : Nat) (entry : Entry) :
    (Packrat.keep c rule p entry s).Unlimited :=
  ⟨by simpa using h.live, by simpa using h.fuel, by simpa using h.patience⟩

end Unlimited

end State

variable {g : Program} {early : Bool} {text : Text} {layers : g.Layering early} {height : Nat}

namespace Moment

/-- Operations that are run for a job are parts of those of the job or of the body of its rule. -/
theorem Runs.within {a b : Moment} {size : Nat} (hruns : a.Runs b) (h : a.job.Within size)
    (hbody : ∀ rule, a.job = .rule rule → sizeOf (a.setting.program.rule rule).body ≤ size) :
    b.job.Within size := by
  cases hruns with
  | ticked =>
    simp only [Job.Within] at h ⊢
    omega
  | call => exact trivial
  | members =>
    intro op hop
    have hlt := List.sizeOf_lt_of_mem hop
    simp only [Job.Within, Op.seq.sizeOf_spec] at h
    omega
  | alternatives =>
    intro op hop
    have hlt := List.sizeOf_lt_of_mem hop
    simp only [Job.Within, Op.choice.sizeOf_spec] at h
    omega
  | repetition =>
    simp only [Job.Within, Op.repetition.sizeOf_spec] at h ⊢
    omega
  | wrap =>
    simp only [Job.Within, Op.wrap.sizeOf_spec] at h ⊢
    omega
  | body => exact hbody _ rfl
  | seqSkip => exact fun op hop => h op (List.mem_cons_of_mem _ hop)
  | seqHead => exact h _ List.mem_cons_self
  | seqTail => exact fun op hop => h op (List.mem_cons_of_mem _ hop)
  | seqScan => exact h
  | seqResumed => exact fun op hop => h op (List.mem_cons_of_mem _ hop)
  | choiceHead => exact h _ List.mem_cons_self
  | choiceNext => exact fun op hop => h op (List.mem_cons_of_mem _ hop)
  | iteration => exact h
  | nextIteration => exact h
  | iterationScan => exact fun op hop => List.mem_singleton.mp hop ▸ h
  | foundIteration => exact h
  | trialHead => exact h _ List.mem_cons_self
  | trialNext => exact fun op hop => h op (List.mem_cons_of_mem _ hop)
  | attempts => exact h
  | look => exact h
  | searchNext => exact h

/-- Whether operations may nest as deeply as a job needs, and some more, where the bodies of rules
have at most some height. -/
def HasRoom (layers : g.Layering early) (text : Text) (height spare : Nat) (t : Moment) : Prop :=
  ∃ level size, Below layers text level t ∧ t.job.Within size ∧
    level * (height + 1) + size + spare ≤ t.depth

/-- What is run for a job with room has room. -/
theorem HasRoom.runs {a b : Moment} {spare : Nat} (h : HasRoom layers text height spare a)
    (hheight : ∀ rule, sizeOf (g.rule rule).body ≤ height) (hsound : Sound layers text a)
    (hruns : a.Runs b) (hlive : b.state.halted = none) :
    HasRoom layers text height spare b := by
  obtain ⟨level, size, hbelow, hwithin, hroom⟩ := h
  have hbelow' := hbelow.runs hsound hruns hlive
  -- nesting takes room where fuel is spent, and a rule starts anew on a lower level
  have hparts := hruns.within hwithin
  cases hruns with
  | @ticked c d step p s s₁ =>
    have hpos := Op.sizeOf_pos step
    simp only [Job.Within] at hwithin hroom
    exact ⟨level, size - 1, hbelow', by simp only [Job.Within]; omega, by simp only; omega⟩
  | @body c d rule p s s₁ ask unknown =>
    obtain rfl : c.program = g := hsound.program
    have hlt := hbelow.begins rule rfl
    have hlower : layers.level text c.recovering p rule * (height + 1) + height ≤
        level * (height + 1) :=
      calc layers.level text c.recovering p rule * (height + 1) + height
          ≤ (layers.level text c.recovering p rule + 1) * (height + 1) := by
            rw [Nat.succ_mul]
            exact Nat.add_le_add_left (Nat.le_succ _) _
        _ ≤ level * (height + 1) := Nat.mul_le_mul_right _ hlt
    refine ⟨_, height, hsound.below_level (.body ask unknown) rfl, hheight rule, ?_⟩
    simp only at hroom ⊢
    omega
  | _ => exact ⟨level, size, hbelow', hparts (fun _ hrule => (nomatch hrule)), hroom⟩

/-- Whether a job starts with all the room that it needs, and nothing else limits the parse. -/
structure Free (layers : g.Layering early) (text : Text) (height : Nat) (t : Moment) : Prop where
  sound : Sound layers text t
  room : HasRoom layers text height 0 t
  unlimited : t.state.Unlimited

/-- A job that has room has room for all that is run for it. -/
theorem Free.runs {a b : Moment} (h : Free layers text height a)
    (hheight : ∀ rule, sizeOf (g.rule rule).body ≤ height) (hruns : a.Runs b)
    (hunlimited : b.state.Unlimited) : Free layers text height b :=
  ⟨h.sound.runs hruns, h.room.runs hheight h.sound hruns hunlimited.live, hunlimited⟩

end Moment

/-- A run that has all the room that it needs does not stop the parse. -/
theorem Run.unlimited {c : Setting} {d : Nat} {job : Job} {p : Nat} {s s' : State} {out : Outcome}
    (h : Run c d job p s out s') (hheight : ∀ rule, sizeOf (g.rule rule).body ≤ height)
    (hfree : Moment.Free layers text height ⟨c, d, job, p, s⟩) : s'.Unlimited := by
  have hs := hfree.unlimited
  induction h with
  | refused tick => cases (hs.tick tick).1
  | @tooDeep c step p s s' tick =>
    obtain ⟨level, size, -, hwithin, hdepth⟩ := hfree.room
    have hpos := Op.sizeOf_pos step
    simp only [Job.Within] at hwithin hdepth
    omega
  | ticked tick rest ih =>
    have hs₁ := (hs.tick tick).2
    exact ih (hfree.runs hheight (.ticked tick) hs₁) hs₁
  | blank => exact hs
  | token =>
    obtain ⟨e, he⟩ := runToken_state _ _ _ _ _ _
    exact he ▸ hs.record e
  | call rest ih => exact ih (hfree.runs hheight .call hs) hs
  | members rest ih => exact ih (hfree.runs hheight .members hs) hs
  | alternatives rest ih => exact ih (hfree.runs hheight .alternatives hs) hs
  | repetition rest ih => exact ih (hfree.runs hheight .repetition hs) hs
  | wrap rest ih => exact ih (hfree.runs hheight .wrap hs) hs
  | cancelled ask => cases (hs.ask ask).1
  | hit ask known => exact (hs.ask ask).2.record _
  | @body c d rule p s s₁ a s₂ ask unknown rest ih =>
    have hs₁ := (hs.ask ask).2.record (.call rule p)
    exact ((ih (hfree.runs hheight (.body ask unknown) hs₁) hs₁).keep _ _ _ _).record _
  | seqNil => exact hs
  | seqSkip tail ih => exact ih (hfree.runs hheight .seqSkip hs) hs
  | seqTook head tail ihhead ihtail =>
    have hs₁ := ihhead (hfree.runs hheight .seqHead hs) hs
    exact ihtail (hfree.runs hheight (.seqTail head) hs₁) hs₁
  | seqFailed head final ih => exact ih (hfree.runs hheight .seqHead hs) hs
  | seqEnded head armed scan ended ihhead ihscan =>
    have hs₁ := ihhead (hfree.runs hheight .seqHead hs) hs
    exact (ihscan (hfree.runs hheight (.seqScan head armed) hs₁) hs₁).recordError _
  | seqResumed head armed scan resumed tail ihhead ihscan ihtail =>
    have hs₁ := ihhead (hfree.runs hheight .seqHead hs) hs
    have hs₂ := ihscan (hfree.runs hheight (.seqScan head armed) hs₁) hs₁
    exact ihtail (hfree.runs hheight (.seqResumed head armed scan resumed) (hs₂.recordError _))
      (hs₂.recordError _)
  | choiceNil => exact hs
  | choiceTook head ih => exact ih (hfree.runs hheight .choiceHead hs) hs
  | @choiceNext c d step rest p s notes s₁ a s' head tail ihhead ihtail =>
    have hs₁ := (ihhead (hfree.runs hheight .choiceHead hs) hs).record (.backtrack p)
    exact ihtail (hfree.runs hheight (.choiceNext head) hs₁) hs₁
  | exhausted => exact hs
  | enough => exact hs
  | idleIteration room head still ih => exact ih (hfree.runs hheight (.iteration room) hs) hs
  | nextIteration room head moved tail ihhead ihtail =>
    have hs₁ := ihhead (hfree.runs hheight (.iteration room) hs) hs
    exact ihtail (hfree.runs hheight (.nextIteration room head moved) hs₁) hs₁
  | lastIteration room head final ih => exact ih (hfree.runs hheight (.iteration room) hs) hs
  | lostIteration room head started armed scan ended ihhead ihscan =>
    have hs₁ := ihhead (hfree.runs hheight (.iteration room) hs) hs
    exact ihscan (hfree.runs hheight (.iterationScan room head started armed) hs₁) hs₁
  | foundIteration room head started armed scan resumed tail ihhead ihscan ihtail =>
    have hs₁ := ihhead (hfree.runs hheight (.iteration room) hs) hs
    have hs₂ := ihscan (hfree.runs hheight (.iterationScan room head started armed) hs₁) hs₁
    exact ihtail (hfree.runs hheight (.foundIteration room head started armed scan resumed)
      (hs₂.recordError _)) (hs₂.recordError _)
  | trialNil => exact hs
  | trialFound head past ih => exact ih (hfree.runs hheight .trialHead hs) hs
  | trialNext head short tail ihhead ihtail =>
    have hs₁ := ihhead (hfree.runs hheight .trialHead hs) hs
    exact ihtail (hfree.runs hheight (.trialNext head short) hs₁) hs₁
  | lookRefused tick => cases (hs.tick tick).1
  | lookFound tick attempts ih =>
    have hs₁ := (hs.tick tick).2
    exact ih (hfree.runs hheight (.attempts tick) hs₁) hs₁
  | lookStopped tick attempts final ih =>
    have hs₁ := (hs.tick tick).2
    exact ih (hfree.runs hheight (.attempts tick) hs₁) hs₁
  | lookPassed tick attempts passed ih =>
    have hs₁ := (hs.tick tick).2
    exact ih (hfree.runs hheight (.attempts tick) hs₁) hs₁
  | searchEnd here ih => exact ih (hfree.runs hheight .look hs) hs
  | searchDone here ih => exact ih (hfree.runs hheight .look hs) hs
  | searchNext here tail ihhere ihtail =>
    have hs₁ := ihhere (hfree.runs hheight .look hs) hs
    exact ihtail (hfree.runs hheight (.searchNext here) hs₁) hs₁

end Packrat
