import Packrat.Proofs.Parse.Run

/-!
# What changes in the state of a parse

Events only go to the log. Fuel is spent by ticks and patience by asking, neither of which touches
what is kept; a parse that has stopped stays so. Hence a run that ends in a parse that goes on has
gone on all the time.
-/

namespace Packrat

namespace State

variable {s s' : State}

/-- An event goes to the log: the table of results stays what it is. -/
@[simp] theorem record_memo (e : Event) (s : State) : (s.record e).memo = s.memo := rfl

/-- An event costs no fuel. -/
@[simp] theorem record_fuel (e : Event) (s : State) : (s.record e).fuel = s.fuel := rfl

/-- An event costs no patience. -/
@[simp] theorem record_patience (e : Event) (s : State) : (s.record e).patience = s.patience := rfl

/-- An event does not stop a parse. -/
@[simp] theorem record_halted (e : Event) (s : State) : (s.record e).halted = s.halted := rfl

/-- Where an error is noted, the table of results stays what it is. -/
@[simp] theorem recordError_memo (e : Option (Nat × Nat)) (s : State) :
    (s.recordError e).memo = s.memo := by cases e <;> rfl

/-- Noting an error costs no fuel. -/
@[simp] theorem recordError_fuel (e : Option (Nat × Nat)) (s : State) :
    (s.recordError e).fuel = s.fuel := by cases e <;> rfl

/-- Noting an error costs no patience. -/
@[simp] theorem recordError_patience (e : Option (Nat × Nat)) (s : State) :
    (s.recordError e).patience = s.patience := by cases e <;> rfl

/-- Noting an error does not stop a parse. -/
@[simp] theorem recordError_halted (e : Option (Nat × Nat)) (s : State) :
    (s.recordError e).halted = s.halted := by cases e <;> rfl

/-- A parse that is stopped keeps its table of results. -/
@[simp] theorem stop_memo (reason : Halt) (s : State) : (s.stop reason).memo = s.memo := rfl

/-- Stopping a parse leaves its fuel as it is. -/
@[simp] theorem stop_fuel (reason : Halt) (s : State) : (s.stop reason).fuel = s.fuel := rfl

/-- Stopping a parse leaves its patience as it is. -/
@[simp] theorem stop_patience (reason : Halt) (s : State) :
    (s.stop reason).patience = s.patience := rfl

/-- A parse that is stopped is stopped for the reason given. -/
@[simp] theorem stop_halted (reason : Halt) (s : State) :
    (s.stop reason).halted = some reason := rfl

/-- Settling is about the table of results only, not about fuel. -/
@[simp] theorem settle_fuel (s : State) : s.settle.fuel = s.fuel := rfl

/-- Settling is about the table of results only, not about patience. -/
@[simp] theorem settle_patience (s : State) : s.settle.patience = s.patience := rfl

/-- Settling neither stops a parse nor lets one go on. -/
@[simp] theorem settle_halted (s : State) : s.settle.halted = s.halted := rfl

/-- To settle a state is to settle its table of results. -/
@[simp] theorem settle_memo (s : State) : s.settle.memo = s.memo.settle := rfl

/-- A parse goes on as long as no reason to stop it has been noted. -/
theorem isHalted_eq_false : s.isHalted = false ↔ s.halted = none := by
  simp [isHalted]

/-- How much may still be spent, out of an amount that may be unlimited. -/
inductive Spends : Option Nat → Option Nat → Prop where
  | unlimited : Spends none none
  | limited (n : Nat) : Spends (some (n + 1)) (some n)

/-- A tick that is granted spends fuel and changes nothing else. -/
theorem of_tick_true (h : s.tick = (true, s')) :
    s.halted = none ∧ s'.halted = none ∧ s'.memo = s.memo ∧ s'.patience = s.patience ∧
      Spends s.fuel s'.fuel := by
  rcases s with ⟨memo, _ | _ | n, patience, _ | reason, log⟩ <;> cases h
  · exact ⟨rfl, rfl, rfl, rfl, .unlimited⟩
  · exact ⟨rfl, rfl, rfl, rfl, .limited n⟩

/-- A tick that is refused leaves a parse that has stopped. -/
theorem of_tick_false (h : s.tick = (false, s')) :
    s'.halted ≠ none ∧ s'.memo = s.memo := by
  rcases s with ⟨memo, _ | _ | n, patience, _ | reason, log⟩ <;> cases h <;> simp

/-- Asking that is granted takes patience and changes nothing else. -/
theorem of_ask_true (h : s.ask = (true, s')) :
    s.halted = none ∧ s'.halted = none ∧ s'.memo = s.memo ∧ s'.fuel = s.fuel ∧
      Spends s.patience s'.patience := by
  rcases s with ⟨memo, fuel, _ | _ | n, _ | reason, log⟩ <;> cases h
  · exact ⟨rfl, rfl, rfl, rfl, .unlimited⟩
  · exact ⟨rfl, rfl, rfl, rfl, .limited n⟩

/-- Asking that is refused leaves a parse that has stopped. -/
theorem of_ask_false (h : s.ask = (false, s')) :
    s'.halted ≠ none ∧ s'.memo = s.memo := by
  rcases s with ⟨memo, fuel, _ | _ | n, _ | reason, log⟩ <;> cases h <;> simp

/-- Whether an amount that may be unlimited is at most another one. -/
def AtMost (a b : Option Nat) : Prop := ∀ n, b = some n → ∃ m, a = some m ∧ m ≤ n

/-- A limit is at most itself, whether it is one or none. -/
theorem AtMost.refl (a : Option Nat) : AtMost a a := fun n h => ⟨n, h, Nat.le_refl _⟩

/-- Limits that go down twice have gone down. -/
theorem AtMost.trans {a b c : Option Nat} (hab : AtMost a b) (hbc : AtMost b c) : AtMost a c := by
  intro n hn
  obtain ⟨m, hm, hmn⟩ := hbc n hn
  obtain ⟨k, hk, hkm⟩ := hab m hm
  exact ⟨k, hk, Nat.le_trans hkm hmn⟩

/-- What is spent from an amount can be spent from a larger one. -/
theorem Spends.mono {a a' b : Option Nat} (h : Spends a a') (hab : AtMost a b) :
    ∃ b', Spends b b' ∧ AtMost a' b' := by
  cases b with
  | none => exact ⟨none, .unlimited, nofun⟩
  | some n =>
    obtain ⟨m, rfl, hle⟩ := hab n rfl
    cases h with
    | limited m =>
      obtain ⟨k, rfl⟩ : ∃ k, n = k + 1 := ⟨n - 1, by omega⟩
      refine ⟨some k, .limited k, fun n hn => ?_⟩
      cases hn
      exact ⟨m, rfl, by omega⟩

/-- Where a step of fuel is left, a parse that goes on is granted it and has one less. -/
theorem tick_of_spends {fuel : Option Nat} (h : Spends s.fuel fuel) (hs : s.halted = none) :
    s.tick = (true, { s with fuel := fuel }) := by
  rcases s with ⟨memo, _ | _ | n, patience, _ | reason, log⟩ <;> cases h <;>
    first | rfl | cases hs

/-- Where patience is left, a parse that goes on is granted a try and has one less. -/
theorem ask_of_spends {patience : Option Nat} (h : Spends s.patience patience)
    (hs : s.halted = none) : s.ask = (true, { s with patience := patience }) := by
  rcases s with ⟨memo, fuel, _ | _ | n, _ | reason, log⟩ <;> cases h <;>
    first | rfl | cases hs

/-- Whether a parse goes on in the second state with no less to spend than in the first one. -/
structure Poorer (s s' : State) : Prop where
  live : s'.halted = none
  fuel : AtMost s.fuel s'.fuel
  patience : AtMost s.patience s'.patience

/-- Whether there is no more to spend in the second state than in the first one. -/
structure Spent (s s' : State) : Prop where
  fuel : AtMost s'.fuel s.fuel
  patience : AtMost s'.patience s.patience

/-- A state has spent nothing since itself. -/
theorem Spent.refl (s : State) : s.Spent s := ⟨.refl _, .refl _⟩

/-- What is spent in two stretches is spent in both together. -/
theorem Spent.trans {s₁ s₂ s₃ : State} (h : s₁.Spent s₂) (h' : s₂.Spent s₃) : s₁.Spent s₃ :=
  ⟨h'.fuel.trans h.fuel, h'.patience.trans h.patience⟩

/-- A tick gives back nothing of what has been spent. -/
theorem Spent.tick {granted : Bool} (h : s.tick = (granted, s')) : s.Spent s' := by
  rcases s with ⟨memo, _ | _ | n, patience, _ | reason, log⟩ <;> cases h <;>
    exact ⟨by simp [AtMost], .refl _⟩

/-- Asking for patience gives back nothing of what has been spent. -/
theorem Spent.ask {granted : Bool} (h : s.ask = (granted, s')) : s.Spent s' := by
  rcases s with ⟨memo, fuel, _ | _ | n, _ | reason, log⟩ <;> cases h <;>
    exact ⟨.refl _, by simp [AtMost]⟩

/-- A state that was poorer than another stays poorer when it has spent more. -/
theorem Spent.poorer (h : s.Spent s') {u : State} (hpoorer : s.Poorer u) : s'.Poorer u :=
  ⟨hpoorer.live, h.fuel.trans hpoorer.fuel, h.patience.trans hpoorer.patience⟩

variable {u u' v : State}

/-- Events on both sides do not change which of two states is the poorer one. -/
theorem Poorer.record (h : u.Poorer u') (e e' : Event) : (u.record e).Poorer (u'.record e') :=
  ⟨h.live, h.fuel, h.patience⟩

/-- An event on the richer side does not make that side poorer. -/
theorem Poorer.record_right (h : u.Poorer u') (e : Event) : u.Poorer (u'.record e) :=
  ⟨h.live, h.fuel, h.patience⟩

/-- Settling both states does not change which of them is the poorer one. -/
theorem Poorer.settle (h : u.Poorer u') : u.settle.Poorer u'.settle :=
  ⟨h.live, h.fuel, h.patience⟩

/-- A step of fuel that the poorer state is granted is granted to the richer one too, and neither
table is touched by it. -/
theorem Poorer.tick (h : u.Poorer u') (htick : u.tick = (true, v)) :
    ∃ v', u'.tick = (true, v') ∧ v.Poorer v' ∧ v.memo = u.memo ∧ v'.memo = u'.memo := by
  obtain ⟨-, -, hmemo, hpatience, hspends⟩ := of_tick_true htick
  obtain ⟨fuel, hspends', hfuel⟩ := hspends.mono h.fuel
  exact ⟨_, tick_of_spends hspends' h.live, ⟨h.live, hfuel, hpatience ▸ h.patience⟩, hmemo, rfl⟩

/-- A try that the poorer state is granted is granted to the richer one too, and neither table is
touched by it. -/
theorem Poorer.ask (h : u.Poorer u') (hask : u.ask = (true, v)) :
    ∃ v', u'.ask = (true, v') ∧ v.Poorer v' ∧ v.memo = u.memo ∧ v'.memo = u'.memo := by
  obtain ⟨-, -, hmemo, hfuel, hspends⟩ := of_ask_true hask
  obtain ⟨patience, hspends', hpatience⟩ := hspends.mono h.patience
  exact ⟨_, ask_of_spends hspends' h.live, ⟨h.live, hfuel ▸ h.fuel, hpatience⟩, hmemo, rfl⟩

end State

section Keep

variable {c : Setting} {rule p : Nat} {entry : Entry} {s : State}

/-- Keeping a result in the table does not stop a parse. -/
@[simp] theorem keep_halted : (keep c rule p entry s).halted = s.halted := by
  unfold keep
  split <;> rfl

/-- Keeping a result in the table costs no fuel. -/
@[simp] theorem keep_fuel : (keep c rule p entry s).fuel = s.fuel := by
  unfold keep
  split <;> rfl

/-- Keeping a result in the table costs no patience. -/
@[simp] theorem keep_patience : (keep c rule p entry s).patience = s.patience := by
  unfold keep
  split <;> rfl

/-- What is kept when a result is: nothing more if the parse has stopped or keeps no results. -/
theorem keep_memo : (keep c rule p entry s).memo =
    if c.memoize = true ∧ s.halted = none then
      s.memo.insert (c.recovering && anyBetween c.points p entry.reach) (rule, p) entry
    else s.memo := by
  unfold keep
  by_cases h : c.memoize = true ∧ s.halted = none
  · simp [h, State.isHalted, State.remember]
  · rw [if_neg (by simpa [State.isHalted] using h), if_neg h]

end Keep

/-- Running a terminal only notes an event. -/
theorem runToken_state (c : Setting) (terminal kind : Nat) (immediate : Bool) (p : Nat)
    (s : State) : ∃ e, (runToken c terminal kind immediate p s).2 = s.record e := by
  unfold runToken
  simp only
  split <;> exact ⟨_, rfl⟩

/-- Matching a token is a single step that stops no parse. -/
@[simp] theorem runToken_halted (c : Setting) (terminal kind : Nat) (immediate : Bool) (p : Nat)
    (s : State) : (runToken c terminal kind immediate p s).2.halted = s.halted := by
  obtain ⟨e, he⟩ := runToken_state c terminal kind immediate p s
  rw [he, State.record_halted]

/-- A run that leaves a parse that goes on started in one. -/
theorem Run.live {c : Setting} {d : Nat} {job : Job} {p : Nat} {s s' : State} {out : Outcome}
    (h : Run c d job p s out s') (hlive : s'.halted = none) : s.halted = none := by
  induction h with
  | refused tick => exact absurd hlive (State.of_tick_false tick).1
  | tooDeep tick => simp at hlive
  | ticked tick => exact (State.of_tick_true tick).1
  | cancelled ask => exact absurd hlive (State.of_ask_false ask).1
  | hit ask => exact (State.of_ask_true ask).1
  | body ask => exact (State.of_ask_true ask).1
  | lookRefused tick => exact absurd hlive (State.of_tick_false tick).1
  | lookFound tick => exact (State.of_tick_true tick).1
  | lookStopped tick => exact (State.of_tick_true tick).1
  | lookPassed tick => exact (State.of_tick_true tick).1
  | _ => simp_all

/-- Runs only spend. -/
theorem Run.spent {c : Setting} {d : Nat} {job : Job} {p : Nat} {s s' : State} {out : Outcome}
    (h : Run c d job p s out s') : s.Spent s' := by
  induction h with
  | refused tick => exact .tick tick
  | tooDeep tick => exact (State.Spent.tick tick).trans ⟨.refl _, .refl _⟩
  | ticked tick _ ih => exact (State.Spent.tick tick).trans ih
  | token =>
    obtain ⟨e, he⟩ := runToken_state _ _ _ _ _ _
    exact he ▸ ⟨.refl _, .refl _⟩
  | cancelled ask => exact .ask ask
  | hit ask => exact (State.Spent.ask ask).trans ⟨.refl _, .refl _⟩
  | body ask _ _ ih =>
    refine (State.Spent.ask ask).trans ⟨?_, ?_⟩
    · simpa using ih.fuel
    · simpa using ih.patience
  | seqTook _ _ ihhead ihtail => exact ihhead.trans ihtail
  | seqEnded _ _ _ _ ihhead ihscan =>
    exact ihhead.trans ⟨by simpa using ihscan.fuel, by simpa using ihscan.patience⟩
  | seqResumed _ _ _ _ _ ihhead ihscan ihtail =>
    exact (ihhead.trans ihscan).trans ⟨by simpa using ihtail.fuel, by simpa using ihtail.patience⟩
  | choiceNext _ _ ihhead ihtail =>
    exact ihhead.trans ⟨by simpa using ihtail.fuel, by simpa using ihtail.patience⟩
  | nextIteration _ _ _ _ ihhead ihtail => exact ihhead.trans ihtail
  | lostIteration _ _ _ _ _ _ ihhead ihscan => exact ihhead.trans ihscan
  | foundIteration _ _ _ _ _ _ _ ihhead ihscan ihtail =>
    exact (ihhead.trans ihscan).trans ⟨by simpa using ihtail.fuel, by simpa using ihtail.patience⟩
  | trialNext _ _ _ ihhead ihtail => exact ihhead.trans ihtail
  | lookRefused tick => exact .tick tick
  | lookFound tick _ ih => exact (State.Spent.tick tick).trans ih
  | lookStopped tick _ _ ih => exact (State.Spent.tick tick).trans ih
  | lookPassed tick _ _ ih => exact (State.Spent.tick tick).trans ih
  | searchNext _ _ ihhere ihtail => exact ihhere.trans ihtail
  | _ => first | assumption | exact .refl _

end Packrat
