import Packrat.Proofs.Parse.Simulation

/-!
# Runs with more strict results

A run that starts with more strict results than another one, all of them derived, comes to the same
and has no less to spend. What it finds where the other one has to run the body of a rule is what
the body comes to, and the body keeps no results but those that it has already.
-/

namespace Packrat

/-- Results that are the same without error points give the same answer when they are strict. -/
theorem Entry.answer_congr {e e' : Entry} (c : Setting) (h : e.plain = e'.plain) :
    e.answer c false = e'.answer c false := by
  simp only [Entry.plain, Answer.mk.injEq, Notes.mk.injEq] at h
  simp only [Entry.answer, h, Bool.false_eq_true, if_false]

/-- A strict result for a quiet stretch agrees with every run of its rule, which keeps no results
but those that the result was derived with. -/
theorem Run.agrees_strict {c : Setting} {d rule p : Nat} {u v : State} {a : Answer} {m : Memo}
    {e : Entry} (h : Run c d (.rule rule) p u (.answer a) v) (hlive : v.halted = none)
    (hp : c.text.isBoundary p = true) (hsound : u.memo.Sound c.program c.text c.points)
    (hm : m.Sound c.program c.text c.points) (he : m.strict[(rule, p)]? = some e)
    (hquiet : c.Quiet p e.reach) :
    a.Agrees c (e.answer c false) ∧
      (∀ key ∈ v.memo.strict, key ∈ u.memo.strict ∨ key ∈ m.strict) ∧
      v.memo.recovering = u.memo.recovering := by
  obtain ⟨hplain, hkept⟩ :=
    (h.follows hlive hp hsound).1 _ rfl trivial _ _ (hm.valid _ _ he) hquiet
  refine ⟨⟨hplain, fun hfine => ?_⟩, hkept⟩
  have hclear := hquiet.anyBetween hfine
  have hreach : a.notes.reach = e.reach := congrArg (fun a => a.notes.reach) hplain
  have hexact : a.Exact := by
    have hderived := (h.derived hp hsound.fits hsound.valid).1 hlive _ rfl trivial
    rw [Answer.Derived, hreach] at hderived
    exact (hderived hquiet).2 hclear
  have hexact' := Entry.exact_answer (hm.fits.strict _ _ he).toFits hclear
  rw [← hexact, ← hexact', hplain, plain_answer]

/-- Whether the second of two states in a round has more strict results than the first one, and no
less to spend. Results only matter where they are kept. -/
structure State.Richer (c₀ : Setting) (u u' : State) : Prop where
  poorer : u.Poorer u'
  sound : u.memo.Sound c₀.program c₀.text c₀.points
  sound' : u'.memo.Sound c₀.program c₀.text c₀.points
  strict : c₀.memoize = true → ∀ key ∈ u.memo.strict, key ∈ u'.memo.strict
  recovering : c₀.memoize = true → u'.memo.recovering = u.memo.recovering

namespace State.Richer

variable {c₀ c : Setting} {rule p : Nat} {u u' v w w' : State} {a a' : Answer}

/-- Events on both sides do not change which side has more results. -/
theorem record (e e' : Event) (h : u.Richer c₀ u') : (u.record e).Richer c₀ (u'.record e') :=
  ⟨h.poorer.record e e', h.sound, h.sound', h.strict, h.recovering⟩

/-- An event on the richer side does not change that it has more results. -/
theorem record_right (e : Event) (h : u.Richer c₀ u') : u.Richer c₀ (u'.record e) :=
  ⟨h.poorer.record_right e, h.sound, h.sound', h.strict, h.recovering⟩

/-- A step of fuel is granted to the side with more results if it is to the other. -/
theorem tick (h : u.Richer c₀ u') (htick : u.tick = (true, v)) :
    ∃ v', u'.tick = (true, v') ∧ v.Richer c₀ v' := by
  obtain ⟨v', htick', hpoorer, hmemo, hmemo'⟩ := h.poorer.tick htick
  exact ⟨v', htick', hpoorer, hmemo ▸ h.sound, hmemo' ▸ h.sound',
    by rw [hmemo, hmemo']; exact h.strict,
    by rw [hmemo, hmemo']; exact h.recovering⟩

/-- A try is granted to the side with more results if it is to the other. -/
theorem ask (h : u.Richer c₀ u') (hask : u.ask = (true, v)) :
    ∃ v', u'.ask = (true, v') ∧ v.Richer c₀ v' := by
  obtain ⟨v', hask', hpoorer, hmemo, hmemo'⟩ := h.poorer.ask hask
  exact ⟨v', hask', hpoorer, hmemo ▸ h.sound, hmemo' ▸ h.sound',
    by rw [hmemo, hmemo']; exact h.strict,
    by rw [hmemo, hmemo']; exact h.recovering⟩

/-- Results that agree are kept alike. -/
theorem keep (hwithin : c.Within c₀) (h : w.Richer c₀ w') (hlive : w.halted = none)
    (hagrees : a.Agrees c a')
    (hsound : (Packrat.keep c rule p (a.entry p) w).memo.Sound c₀.program c₀.text c₀.points)
    (hsound' : (Packrat.keep c rule p (a'.entry p) w').memo.Sound c₀.program c₀.text c₀.points) :
    (Packrat.keep c rule p (a.entry p) w).Richer c₀ (Packrat.keep c rule p (a'.entry p) w') := by
  have hreach : (a'.entry p).reach = (a.entry p).reach := by
    simp only [Answer.entry, hagrees.reach]
  refine ⟨⟨?_, ?_, ?_⟩, hsound, hsound', fun hmemo key hkey => ?_, fun hmemo => ?_⟩
  · rw [keep_halted]
    exact h.poorer.live
  · rw [keep_fuel, keep_fuel]
    exact h.poorer.fuel
  · rw [keep_patience, keep_patience]
    exact h.poorer.patience
  · rw [Std.HashMap.mem_iff_isSome_getElem?, Option.isSome_iff_exists] at hkey
    obtain ⟨e, he⟩ := hkey
    rcases getElem?_keep_strict he with hold | ⟨rfl, -, hquiet, hmemo', -⟩
    · refine mem_keep_strict (h.strict hmemo key ?_)
      exact Std.HashMap.mem_iff_isSome_getElem?.mpr (Option.isSome_iff_exists.mpr ⟨e, hold⟩)
    · exact mem_keep_self h.poorer.live hmemo' (hreach ▸ hquiet)
  · rw [keep_memo, keep_memo, hwithin.memoize, if_pos ⟨hmemo, h.poorer.live⟩,
      if_pos ⟨hmemo, hlive⟩, hreach, Memo.insert_recovering, Memo.insert_recovering]
    split
    · rename_i hpoint
      rw [hagrees.exact (.inl (Bool.and_eq_true_iff.mp hpoint).1), h.recovering hmemo]
    · exact h.recovering hmemo

end State.Richer

/-- A setting of a round already keeps results as the round does. -/
theorem Setting.Within.keeping {c c₀ : Setting} (h : c.Within c₀) : c.keeping c₀.memoize = c := by
  rcases h with rfl | rfl <;> rfl

section

variable {c₀ c : Setting} {d rule p : Nat} {u u' v w : State} {a : Answer} {entry : Entry}

/-- Where the first of two runs uses a kept result, the second one uses the same. -/
private theorem known?_of_richer {recovering : Bool} (hwithin : c.Within c₀)
    (h : v.Richer c₀ u') (known : known? c rule p v = some (entry, recovering)) :
    ∃ entry', known? c rule p u' = some (entry', recovering) ∧
      entry.answer c recovering = entry'.answer c recovering := by
  obtain ⟨hmemo, ⟨rfl, hrec, hentry⟩ | ⟨rfl, hentry, hquiet, hnone⟩⟩ := of_known? known
  · have hrecovering := h.recovering (hwithin.memoize ▸ hmemo)
    exact ⟨entry, known?_of_recovering hmemo hrec (hrecovering ▸ hentry), rfl⟩
  · have hrecovering := h.recovering (hwithin.memoize ▸ hmemo)
    have hkey : (rule, p) ∈ u'.memo.strict := h.strict (hwithin.memoize ▸ hmemo) _
      (Std.HashMap.mem_iff_isSome_getElem?.mpr (by rw [hentry]; rfl))
    rw [Std.HashMap.mem_iff_isSome_getElem?, Option.isSome_iff_exists] at hkey
    obtain ⟨entry', hentry'⟩ := hkey
    have hplain := (h.sound.valid _ _ hentry).unique (h.sound'.valid _ _ hentry')
    have hreach : entry.reach = entry'.reach := congrArg (fun a => a.notes.reach) hplain
    exact ⟨entry', known?_of_strict hmemo hentry' (hreach ▸ hquiet) (hrecovering ▸ hnone),
      Entry.answer_congr c hplain⟩

end

/-- A run with more strict results and no less to spend simulates another one. -/
theorem simulation_richer (c₀ : Setting) :
    Simulation c₀ c₀.memoize (State.Richer c₀) where
  poorer h := h.poorer
  sound h := h.sound
  record e e' h := h.record e e'
  tick h htick := h.tick htick
  hit := by
    intro c d rule p u u' v entry recovering hwithin hp h ask known
    rw [hwithin.keeping]
    obtain ⟨v', hask', h'⟩ := h.ask ask
    obtain ⟨entry', hknown', hanswer⟩ := known?_of_richer hwithin h' known
    exact ⟨_, _, .hit hask' hknown', hanswer ▸ .refl _ _, h'.record _ _⟩
  body := by
    intro c d d' rule p u u' v a w hwithin hp h ask unknown hbody hlive ih
    rw [hwithin.keeping] at ih ⊢
    obtain ⟨v', hask', h'⟩ := h.ask ask
    have hrun : Run c d (.rule rule) p u _ _ := .body ask unknown hbody
    have hlive' : ((keep c rule p (a.entry p) w).record
        (.leave rule (a.taken.map (·.stop)))).halted = none := by
      rw [State.record_halted, keep_halted, hlive]
    have hsound := hwithin.sound_iff.mpr h.sound
    have hkept := hwithin.sound_iff.mp (hrun.sound hlive' hp hsound)
    cases hknown : known? c rule p v' with
    | none =>
      obtain ⟨a', w', hbody', hagrees, hw⟩ := ih _ (h'.record _ _)
      have hrun' : Run c d' (.rule rule) p u' _ _ := .body hask' hknown hbody'
      have hkept' := hwithin.sound_iff.mp (hrun'.sound
        (by rw [State.record_halted, keep_halted, hw.poorer.live]) hp
        (hwithin.sound_iff.mpr h.sound'))
      exact ⟨_, _, hrun', hagrees.map (f := (·.fromRule p)) (g := (·.fromRule p)) fun _ => rfl,
        (State.Richer.keep hwithin hw hlive hagrees hkept hkept').record _ _⟩
    | some known =>
      obtain ⟨entry, recovering⟩ := known
      obtain ⟨hmemo, ⟨rfl, hrec, hentry⟩ | ⟨rfl, hentry, hquiet, -⟩⟩ := of_known? hknown
      · have hrecovering := h'.recovering (hwithin.memoize ▸ hmemo)
        rw [known?_of_recovering hmemo hrec (hrecovering ▸ hentry)] at unknown
        cases unknown
      · have hkeptMemo := (State.of_ask_true ask).2.2.1
        obtain ⟨hagrees, hstrict, hrecovering⟩ := hrun.agrees_strict hlive' hp hsound
          (hwithin.sound_iff.mpr h'.sound') hentry hquiet
        rw [← hkeptMemo] at hstrict hrecovering
        have hspent : v.Spent ((keep c rule p (a.entry p) w).record
            (.leave rule (a.taken.map (·.stop)))) :=
          ⟨by simpa using hbody.spent.fuel, by simpa using hbody.spent.patience⟩
        have hrel : ((keep c rule p (a.entry p) w).record
            (.leave rule (a.taken.map (·.stop)))).Richer c₀ v' :=
          ⟨hspent.poorer h'.poorer, hkept, h'.sound',
            fun hmemo key hkey => (hstrict key hkey).elim (h'.strict hmemo key) id,
            fun hmemo => (h'.recovering hmemo).trans hrecovering.symm⟩
        exact ⟨_, _, .hit hask' hknown, hagrees, hrel.record_right _⟩

/-- Where no results are kept, runs of one job come to the same whatever there is to spend. -/
theorem Run.agrees_of_off {c : Setting} {d₁ d₂ : Nat} {job : Job} {p : Nat}
    {s₁ s₁' s₂ s₂' : State} {a₁ a₂ : Answer} (hoff : c.memoize = false) (hready : job.Ready c p)
    (h₁ : Run c d₁ job p s₁ (.answer a₁) s₁') (hlive₁ : s₁'.halted = none)
    (hsound₁ : s₁.memo.Sound c.program c.text c.points)
    (h₂ : Run c d₂ job p s₂ (.answer a₂) s₂') (hlive₂ : s₂'.halted = none)
    (hsound₂ : s₂.memo.Sound c.program c.text c.points) : a₁.Agrees c a₂ := by
  have hrel : ∀ s : State, s.memo.Sound c.program c.text c.points →
      s.Richer c ⟨{}, none, none, none, none⟩ := fun s hsound =>
    ⟨⟨rfl, nofun, nofun⟩, hsound, Memo.sound_empty _ _ _, by simp [hoff], by simp [hoff]⟩
  obtain ⟨_, v₁, hrun₁, ⟨b₁, rfl, hagrees₁⟩, -⟩ := h₁.simulated (simulation_richer c) (.inl rfl)
    hlive₁ hready (Nat.le_max_left d₁ d₂) (hrel s₁ hsound₁)
  obtain ⟨_, v₂, hrun₂, ⟨b₂, rfl, hagrees₂⟩, -⟩ := h₂.simulated (simulation_richer c) (.inl rfl)
    hlive₂ hready (Nat.le_max_right d₁ d₂) (hrel s₂ hsound₂)
  have hsame := hrun₁.eq_runJob.symm.trans hrun₂.eq_runJob
  simp only [Prod.mk.injEq, Outcome.answer.injEq] at hsame
  rw [← hsame.1] at hagrees₂
  exact hagrees₁.trans hagrees₂.symm

end Packrat
