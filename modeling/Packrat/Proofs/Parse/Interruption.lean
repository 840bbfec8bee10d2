import Packrat.Parse.Trivia
import Packrat.Proofs.Parse.Moment
import Packrat.Proofs.Strict.Soundness
import Packrat.Proofs.Tree.Tiling

/-!
# Where a parse is stopped

A job is interrupted if the parse is stopped in it. The way from the job to the place where a limit
is met goes through the evaluations in progress; on it lie the leaves that were taken so far and the
repetitions that are open. Behind that place everything succeeds with nothing taken, so the
evaluations in progress succeed with what they took, unless a repetition among them lacks
iterations: whether these are enough is asked of a parse that was stopped, too.
-/

/-!
## The leaves of trees with their kinds

The fringe of trees tells their leaves in order, whatever nodes they are in.
-/

namespace Packrat

namespace Tree

mutual

/-- The kinds and the texts of the leaves of a tree, in order. -/
def fringe : Tree → List (Nat × String)
  | leaf kind text => [(kind, text)]
  | node _ children => fringeAmong children

/-- The same for trees in a row. -/
def fringeAmong : List Tree → List (Nat × String)
  | [] => []
  | t :: ts => t.fringe ++ fringeAmong ts

end

/-- The leaves of trees one behind the other are those of each in order. -/
@[simp] theorem fringeAmong_append (as bs : List Tree) :
    fringeAmong (as ++ bs) = fringeAmong as ++ fringeAmong bs := by
  induction as with
  | nil => rfl
  | cons a as ih => simp only [List.cons_append, fringeAmong, ih, List.append_assoc]

/-- The leaves of a node are those of its children. -/
@[simp] theorem fringeAmong_node (kind : Nat) (children : List Tree) :
    fringeAmong [node kind children] = fringeAmong children := by
  simp [fringeAmong, fringe]

variable {text : Text}

mutual

/-- A tree that covers no text has no leaf. -/
theorem Tiles.fringe_eq_nil {start stop : Nat} :
    (t : Tree) → t.Tiles text start stop → stop ≤ start → t.fringe = []
  | leaf _ _, h, hle => absurd h.1 (by omega)
  | node _ children, h, hle => TilesAll.fringe_eq_nil children h hle

/-- Trees over nothing have no leaves. -/
theorem TilesAll.fringe_eq_nil {start stop : Nat} :
    (ts : List Tree) → TilesAll text ts start stop → stop ≤ start → fringeAmong ts = []
  | [], _, _ => rfl
  | t :: ts, ⟨_, ht, hts⟩, hle => by
    have hhead := Tiles.le t ht
    have htail := TilesAll.le ts hts
    rw [fringeAmong, Tiles.fringe_eq_nil t ht (by omega), TilesAll.fringe_eq_nil ts hts (by omega)]
    rfl

end

end Tree

/-- Closing a node keeps all leaves. -/
@[simp] theorem Setting.fringeAmong_close (c : Setting) (kind : Nat) (trees : List Tree) :
    Tree.fringeAmong (c.close kind trees) = Tree.fringeAmong trees := by
  unfold close
  rw [Tree.fringeAmong_append, Tree.fringeAmong_node, ← Tree.fringeAmong_append,
    List.takeWhile_append_dropWhile]

end Packrat

/-! ## Interrupted jobs -/

namespace Packrat

/-- Where a parse was stopped in a job. -/
structure Interruption where
  position : Nat
  /-- The leaves that were taken on the way there. -/
  leaves : List (Nat × String)
  /-- How many iterations the open repetitions need and how many they have had, the one in progress
  included if something was taken in it. -/
  repetitions : List (Nat × Nat)

namespace Interruption

/-- An interruption on the spot. -/
def spot (p : Nat) : Interruption := ⟨p, [], []⟩

/-- An interruption behind something that was taken. -/
def behind (t : Taken) (i : Interruption) : Interruption :=
  { i with leaves := Tree.fringeAmong t.trees ++ i.leaves }

/-- An interruption in an iteration that starts at a position. -/
def inIteration (least count p : Nat) (i : Interruption) : Interruption :=
  { i with repetitions := (least, if i.position = p then count else count + 1) :: i.repetitions }

/-- Whether all open repetitions have had enough iterations. -/
def Enough (i : Interruption) : Prop := ∀ r ∈ i.repetitions, r.1 ≤ r.2

instance (i : Interruption) : Decidable i.Enough :=
  inferInstanceAs (Decidable (∀ r ∈ i.repetitions, r.1 ≤ r.2))

/-- An open repetition has had enough iterations if the one in progress makes them up, and all that
is open in it has. -/
theorem enough_inIteration {least count p : Nat} {i : Interruption} :
    (i.inIteration least count p).Enough ↔
      least ≤ (if i.position = p then count else count + 1) ∧ i.Enough := by
  simp [Enough, inIteration]

end Interruption

namespace Moment

/-- Whether a limit is met at a moment. -/
inductive Strikes : Moment → Prop
  | outOfFuel {c d step p s s'} (live : s.halted = none) (tick : s.tick = (false, s')) :
      Strikes ⟨c, d, .step step, p, s⟩
  | tooDeep {c step p s s'} (tick : s.tick = (true, s')) : Strikes ⟨c, 0, .step step, p, s⟩
  | cancelled {c d rule p s s'} (live : s.halted = none) (ask : s.ask = (false, s')) :
      Strikes ⟨c, d, .rule rule, p, s⟩

/-- `m.Interrupted i` says that the parse is stopped in the job that starts at `m`, other than in a
recovery, and where. -/
inductive Interrupted : Moment → Interruption → Prop
  | here {m} (strikes : m.Strikes) : Interrupted m (.spot m.position)
  -- operations
  | ticked {c d step p s s₁ i} (tick : s.tick = (true, s₁))
      (inside : Interrupted ⟨c, d, .operation step, p, s₁⟩ i) :
      Interrupted ⟨c, d + 1, .step step, p, s⟩ i
  | call {c d rule renamed p s i} (inside : Interrupted ⟨c, d, .rule rule, p, s⟩ i) :
      Interrupted ⟨c, d, .operation (.call rule renamed), p, s⟩ i
  | members {c d members p s i} (inside : Interrupted ⟨c, d, .seq members 0 true, p, s⟩ i) :
      Interrupted ⟨c, d, .operation (.seq members), p, s⟩ i
  | alternatives {c d members p s i} (inside : Interrupted ⟨c, d, .choice members, p, s⟩ i) :
      Interrupted ⟨c, d, .operation (.choice members), p, s⟩ i
  | repetition {c d body min max p s i}
      (inside : Interrupted ⟨c, d, .iterations body min.toNat (max.map (·.toNat))
        (c.text.size + 1 - p) 0, p, s⟩ i) :
      Interrupted ⟨c, d, .operation (.repetition body min max), p, s⟩ i
  | wrap {c d body kind p s i} (inside : Interrupted ⟨c, d, .step body, p, s⟩ i) :
      Interrupted ⟨c, d, .operation (.wrap body kind), p, s⟩ i
  -- rules
  | body {c d rule p s s₁ i} (ask : s.ask = (true, s₁)) (unknown : known? c rule p s₁ = none)
      (inside : Interrupted ⟨c, d, .step (c.program.rule rule).body, p,
        s₁.record (.call rule p)⟩ i) :
      Interrupted ⟨c, d, .rule rule, p, s⟩ i
  -- sequences
  | seqSkip {c d step rest skip isFirst p s i}
      (inside : Interrupted ⟨c, d, .seq rest skip false, p, s⟩ i) :
      Interrupted ⟨c, d, .seq (step :: rest) (skip + 1) isFirst, p, s⟩ i
  | seqHead {c d step rest isFirst p s i} (inside : Interrupted ⟨c, d, .step step, p, s⟩ i) :
      Interrupted ⟨c, d, .seq (step :: rest) 0 isFirst, p, s⟩ i
  | seqTail {c d step rest isFirst p s t notes s₁ i}
      (head : Run c d (.step step) p s (.answer ⟨some t, notes⟩) s₁)
      (inside : Interrupted ⟨c, d, .seq rest 0 false, t.stop, s₁⟩ i) :
      Interrupted ⟨c, d, .seq (step :: rest) 0 isFirst, p, s⟩ (i.behind t)
  -- choices
  | choiceHead {c d step rest p s i} (inside : Interrupted ⟨c, d, .step step, p, s⟩ i) :
      Interrupted ⟨c, d, .choice (step :: rest), p, s⟩ i
  | choiceNext {c d step rest p s notes s₁ i}
      (head : Run c d (.step step) p s (.answer ⟨none, notes⟩) s₁)
      (inside : Interrupted ⟨c, d, .choice rest, p, s₁.record (.backtrack p)⟩ i) :
      Interrupted ⟨c, d, .choice (step :: rest), p, s⟩ i
  -- repetitions
  | iteration {c d body least most left count p s i} (room : most.any (· ≤ count) = false)
      (inside : Interrupted ⟨c, d, .step body, p, s⟩ i) :
      Interrupted ⟨c, d, .iterations body least most (left + 1) count, p, s⟩
        (i.inIteration least count p)
  | nextIteration {c d body least most left count p s t notes s₁ i}
      (room : most.any (· ≤ count) = false)
      (head : Run c d (.step body) p s (.answer ⟨some t, notes⟩) s₁) (moved : t.stop ≠ p)
      (inside : Interrupted ⟨c, d, .iterations body least most left (count + 1), t.stop, s₁⟩ i) :
      Interrupted ⟨c, d, .iterations body least most (left + 1) count, p, s⟩ (i.behind t)

/-- The place of an interruption is that of a moment in the job at which a limit is met. -/
theorem Interrupted.exists_strikes {m : Moment} {i : Interruption} (h : m.Interrupted i) :
    ∃ x, Relation.ReflTransGen Runs m x ∧ x.Strikes ∧ x.position = i.position := by
  induction h with
  | here strikes => exact ⟨_, .refl, strikes, rfl⟩
  | ticked tick _ ih => exact ih.imp fun _ hx => hx.imp_left (.head (.ticked tick))
  | call _ ih => exact ih.imp fun _ hx => hx.imp_left (.head .call)
  | members _ ih => exact ih.imp fun _ hx => hx.imp_left (.head .members)
  | alternatives _ ih => exact ih.imp fun _ hx => hx.imp_left (.head .alternatives)
  | repetition _ ih => exact ih.imp fun _ hx => hx.imp_left (.head .repetition)
  | wrap _ ih => exact ih.imp fun _ hx => hx.imp_left (.head .wrap)
  | body ask unknown _ ih => exact ih.imp fun _ hx => hx.imp_left (.head (.body ask unknown))
  | seqSkip _ ih => exact ih.imp fun _ hx => hx.imp_left (.head .seqSkip)
  | seqHead _ ih => exact ih.imp fun _ hx => hx.imp_left (.head .seqHead)
  | seqTail head _ ih => exact ih.imp fun _ hx => hx.imp_left (.head (.seqTail head))
  | choiceHead _ ih => exact ih.imp fun _ hx => hx.imp_left (.head .choiceHead)
  | choiceNext head _ ih => exact ih.imp fun _ hx => hx.imp_left (.head (.choiceNext head))
  | iteration room _ ih => exact ih.imp fun _ hx => hx.imp_left (.head (.iteration room))
  | nextIteration room head moved _ ih =>
    exact ih.imp fun _ hx => hx.imp_left (.head (.nextIteration room head moved))

end Moment

/-- The answer of a call takes as much as that of the rule, with the same leaves. -/
theorem Answer.exists_called (c : Setting) (rule : Nat) (renamed : Option Nat) (halted : Bool)
    (t : Taken) (notes : Notes) :
    ∃ u, Answer.called c rule renamed halted ⟨some t, notes⟩ = ⟨some u, notes⟩ ∧
      u.stop = t.stop ∧ Tree.fringeAmong u.trees = Tree.fringeAmong t.trees := by
  refine ⟨_, rfl, ?_, ?_⟩
  · simp only
    split <;> rfl
  · simp only
    split
    · rfl
    · exact c.fringeAmong_close _ _

namespace State

variable {s : State}

/-- A parse that has stopped is granted no fuel and stays what it is. -/
theorem tick_of_halted (h : s.halted ≠ none) : s.tick = (false, s) := by
  rcases s with ⟨memo, fuel, patience, _ | reason, log⟩
  · exact absurd rfl h
  · rfl

end State

section

variable {c : Setting} {d p : Nat} {s s' : State}

/-- In a parse that was stopped every operation succeeds with nothing taken. -/
theorem Run.step_of_halted (h : s.halted ≠ none) (step : Step) :
    Run c d (.step step) p s (.answer (.idle p)) s :=
  .refused (State.tick_of_halted h)

/-- So does the rest of a sequence. -/
theorem Run.seq_of_halted (h : s.halted ≠ none) (members : List Step) (isFirst : Bool) :
    ∃ t notes, Run c d (.seq members 0 isFirst) p s (.answer ⟨some t, notes⟩) s ∧ t.stop = p ∧
      t.trees = [] := by
  induction members generalizing isFirst with
  | nil => exact ⟨_, _, .seqNil, rfl, rfl⟩
  | cons step rest ih =>
    obtain ⟨t, notes, hrest, hstop, htrees⟩ := ih false
    exact ⟨_, _, .seqTook (.step_of_halted h step) hrest, hstop, by simp [Taken.andThen, htrees]⟩

/-- A repetition ends after the iterations that it has had, whether these are enough or not. -/
theorem Run.iterations_of_halted (h : s.halted ≠ none) (body : Step) (least : Nat)
    (most : Option Nat) (left count : Nat) :
    ∃ notes, Run c d (.iterations body least most left count) p s
      (.answer (endRepetition least count p notes)) s := by
  cases left with
  | zero => exact ⟨_, .exhausted⟩
  | succ left =>
    cases hroom : most.any (· ≤ count) with
    | true => exact ⟨_, .enough hroom⟩
    | false => exact ⟨_, .idleIteration hroom (.step_of_halted h body) rfl⟩

/-- A repetition that has had enough iterations ends with what it took. -/
theorem endRepetition_of_le {least count : Nat} (h : least ≤ count) (notes : Notes) :
    endRepetition least count p notes = ⟨some { stop := p }, notes⟩ := by
  have hnot : ¬ count < least := by omega
  simp only [endRepetition, hnot, if_false]

/-- A repetition that lacks iterations fails. -/
theorem endRepetition_of_lt {least count : Nat} (h : count < least) (notes : Notes) :
    endRepetition least count p notes = ⟨none, notes⟩ := by
  simp only [endRepetition, h, if_true]

end

namespace Moment

/-- Whether a job comes to exactly what was taken up to a place where the parse is stopped. -/
def ClosesAround (m : Moment) (i : Interruption) : Prop :=
  ∃ t notes s', Run m.setting m.depth m.job m.position m.state (.answer ⟨some t, notes⟩) s' ∧
    s'.halted ≠ none ∧ t.stop = i.position ∧ Tree.fringeAmong t.trees = i.leaves

/-- A limit that is met stops the parse with nothing taken. -/
theorem Strikes.closesAround {m : Moment} (h : m.Strikes) : m.ClosesAround (.spot m.position) := by
  cases h with
  | outOfFuel live tick =>
    exact ⟨_, _, _, .refused tick, (State.of_tick_false tick).1, rfl, rfl⟩
  | tooDeep tick => exact ⟨_, _, _, .tooDeep tick, by simp, rfl, rfl⟩
  | cancelled live ask =>
    exact ⟨_, _, _, .cancelled ask, (State.of_ask_false ask).1, rfl, rfl⟩

/-- A job in which the parse is stopped succeeds with what was taken up to there, if the repetitions
that are open have had enough iterations. -/
theorem Interrupted.closesAround {m : Moment} {i : Interruption} (h : m.Interrupted i)
    (hready : m.job.Ready m.setting m.position)
    (hfits : m.state.memo.Fits m.setting.text m.setting.points) (henough : i.Enough) :
    m.ClosesAround i := by
  induction h with
  | here strikes => exact strikes.closesAround
  | ticked tick inside ih =>
    have hkept := (State.of_tick_true tick).2.2.1
    obtain ⟨t, notes, s', hrun, hhalted, htook⟩ := ih hready (hkept ▸ hfits) henough
    exact ⟨t, notes, s', .ticked tick hrun, hhalted, htook⟩
  | @call c d rule renamed p s i inside ih =>
    obtain ⟨t, notes, s', hrun, hhalted, hstop, hfringe⟩ := ih hready hfits henough
    obtain ⟨u, hcalled, hsame, hsameFringe⟩ :=
      Answer.exists_called c rule renamed s'.isHalted t notes
    have hcall : Run c d (.operation (.call rule renamed)) p s _ s' := .call hrun
    rw [hcalled] at hcall
    exact ⟨u, notes, s', hcall, hhalted, hsame.trans hstop, hsameFringe.trans hfringe⟩
  | members inside ih =>
    obtain ⟨t, notes, s', hrun, htook⟩ := ih hready hfits henough
    exact ⟨t, notes, s', .members hrun, htook⟩
  | alternatives inside ih =>
    obtain ⟨t, notes, s', hrun, htook⟩ := ih hready hfits henough
    exact ⟨t, notes, s', .alternatives hrun, htook⟩
  | repetition inside ih =>
    obtain ⟨t, notes, s', hrun, htook⟩ := ih hready hfits henough
    exact ⟨t, notes, s', .repetition hrun, htook⟩
  | @wrap c d body kind p s i inside ih =>
    obtain ⟨t, notes, s', hrun, hhalted, hstop, hfringe⟩ := ih hready hfits henough
    exact ⟨_, _, s', .wrap hrun, hhalted, hstop, (c.fringeAmong_close _ _).trans hfringe⟩
  | body ask unknown inside ih =>
    have hkept := (State.of_ask_true ask).2.2.1
    obtain ⟨t, notes, s', hrun, hhalted, htook⟩ := ih hready (hkept ▸ hfits) henough
    exact ⟨t, _, _, .body ask unknown hrun, by simpa using hhalted, htook⟩
  | seqSkip inside ih =>
    obtain ⟨t, notes, s', hrun, htook⟩ := ih hready hfits henough
    exact ⟨t, notes, s', .seqSkip hrun, htook⟩
  | @seqHead c d step rest isFirst p s i inside ih =>
    obtain ⟨t, notes, s', hrun, hhalted, hstop, hfringe⟩ := ih hready hfits henough
    obtain ⟨u, notes', hrest, hstop', htrees⟩ :=
      Run.seq_of_halted (c := c) (d := d) (p := t.stop) hhalted rest false
    refine ⟨_, _, s', .seqTook hrun hrest, hhalted, hstop'.trans hstop, ?_⟩
    simp [Taken.andThen, htrees, hfringe]
  | seqTail head inside ih =>
    obtain ⟨hfirst, hfits₁⟩ := head.fits hready hfits
    obtain ⟨t, notes, s', hrun, hhalted, hstop, hfringe⟩ :=
      ih (hfirst.isBoundary hready rfl) hfits₁ henough
    refine ⟨_, _, s', .seqTook head hrun, hhalted, hstop, ?_⟩
    simp [Taken.andThen, Interruption.behind, hfringe]
  | choiceHead inside ih =>
    obtain ⟨t, notes, s', hrun, htook⟩ := ih hready hfits henough
    exact ⟨t, notes, s', .choiceTook hrun, htook⟩
  | choiceNext head inside ih =>
    have hfits₁ := (head.fits hready hfits).2
    obtain ⟨t, notes, s', hrun, htook⟩ := ih hready hfits₁ henough
    exact ⟨t, _, s', .choiceNext head hrun, htook⟩
  | @iteration c d body least most left count p s i room inside ih =>
    obtain ⟨hle, henough⟩ := Interruption.enough_inIteration.mp henough
    obtain ⟨t, notes, s', hrun, hhalted, hstop, hfringe⟩ := ih hready hfits henough
    by_cases hstill : i.position = p
    · -- nothing was taken in the iteration, so it is not counted and leaves nothing behind
      have htiles := (hrun.fits hready hfits).1.tiles t rfl
      have hnone := Tree.TilesAll.fringe_eq_nil _ htiles (by simp only; omega)
      rw [if_pos hstill] at hle
      have hrepetition : Run c d (.iterations body least most (left + 1) count) p s
          (.answer (endRepetition least count p notes)) s' :=
        .idleIteration room hrun (hstop.trans hstill)
      rw [endRepetition_of_le hle] at hrepetition
      exact ⟨_, _, s', hrepetition, hhalted, hstill.symm, hnone.symm.trans hfringe⟩
    · rw [if_neg hstill] at hle
      obtain ⟨notes', htail⟩ :=
        Run.iterations_of_halted (c := c) (d := d) (p := t.stop) hhalted body least most left
          (count + 1)
      rw [endRepetition_of_le hle] at htail
      have hmoved : t.stop ≠ p := fun hsame => hstill (hstop.symm.trans hsame)
      refine ⟨_, _, s', .nextIteration room hrun hmoved htail, hhalted, hstop, ?_⟩
      simpa [Taken.andThen, Interruption.inIteration] using hfringe
  | nextIteration room head moved inside ih =>
    obtain ⟨hfirst, hfits₁⟩ := head.fits hready hfits
    obtain ⟨t, notes, s', hrun, hhalted, hstop, hfringe⟩ :=
      ih (hfirst.isBoundary hready rfl) hfits₁ henough
    refine ⟨_, _, s', .nextIteration room head moved hrun, hhalted, hstop, ?_⟩
    simp [Taken.andThen, Interruption.behind, hfringe]

/-- A repetition in which the parse is stopped before it has had enough iterations fails, and what
was taken in it is given back. -/
theorem Interrupted.fails {c : Setting} {d p least left count : Nat} {body : Step}
    {most : Option Nat} {s : State} {i : Interruption} (room : most.any (· ≤ count) = false)
    (h : Interrupted ⟨c, d, .step body, p, s⟩ i) (hready : c.text.isBoundary p = true)
    (hfits : s.memo.Fits c.text c.points) (henough : i.Enough)
    (hshort : (if i.position = p then count else count + 1) < least) :
    ∃ notes s', Run c d (.iterations body least most (left + 1) count) p s
      (.answer ⟨none, notes⟩) s' ∧ s'.halted ≠ none := by
  obtain ⟨t, notes, s', hrun, hhalted, hstop, -⟩ := h.closesAround hready hfits henough
  by_cases hstill : i.position = p
  · rw [if_pos hstill] at hshort
    have hrepetition : Run c d (.iterations body least most (left + 1) count) p s
        (.answer (endRepetition least count p notes)) s' :=
      .idleIteration room hrun (hstop.trans hstill)
    rw [endRepetition_of_lt hshort] at hrepetition
    exact ⟨notes, s', hrepetition, hhalted⟩
  · rw [if_neg hstill] at hshort
    obtain ⟨notes', htail⟩ := Run.iterations_of_halted (c := c) (d := d) (p := t.stop) hhalted body
      least most left (count + 1)
    rw [endRepetition_of_lt hshort] at htail
    have hmoved : t.stop ≠ p := fun hsame => hstill (hstop.symm.trans hsame)
    exact ⟨_, s', .nextIteration room hrun hmoved htail, hhalted⟩

end Moment

/-- A run without recovery that starts in a parse that goes on and leaves one that was stopped is
interrupted. -/
theorem Run.exists_interruption {c : Setting} {d : Nat} {job : Job} {p : Nat} {s s' : State}
    {out : Outcome} (h : Run c d job p s out s') (hstrict : c.recovering = false)
    (hjob : job.task?.isSome = true) (hlive : s.halted = none) (hhalted : s'.halted ≠ none) :
    ∃ i, Moment.Interrupted ⟨c, d, job, p, s⟩ i := by
  have hnever : ∀ (c : Setting) (notes : Notes) (failure : Failure), c.recovering = false →
      c.recoverable? notes ≠ some failure := fun c notes failure hstrict harmed => by
    have hrec := (Setting.of_recoverable? harmed).1
    rw [hstrict] at hrec
    cases hrec
  induction h with
  | refused tick => exact ⟨_, .here (.outOfFuel hlive tick)⟩
  | tooDeep tick => exact ⟨_, .here (.tooDeep tick)⟩
  | ticked tick rest ih =>
    obtain ⟨i, hi⟩ := ih hstrict rfl (State.of_tick_true tick).2.1 hhalted
    exact ⟨i, .ticked tick hi⟩
  | blank => exact absurd hlive hhalted
  | token =>
    rw [runToken_halted] at hhalted
    exact absurd hlive hhalted
  | call rest ih =>
    obtain ⟨i, hi⟩ := ih hstrict rfl hlive hhalted
    exact ⟨i, .call hi⟩
  | members rest ih =>
    obtain ⟨i, hi⟩ := ih hstrict rfl hlive hhalted
    exact ⟨i, .members hi⟩
  | alternatives rest ih =>
    obtain ⟨i, hi⟩ := ih hstrict rfl hlive hhalted
    exact ⟨i, .alternatives hi⟩
  | repetition rest ih =>
    obtain ⟨i, hi⟩ := ih hstrict rfl hlive hhalted
    exact ⟨i, .repetition hi⟩
  | wrap rest ih =>
    obtain ⟨i, hi⟩ := ih hstrict rfl hlive hhalted
    exact ⟨i, .wrap hi⟩
  | cancelled ask => exact ⟨_, .here (.cancelled hlive ask)⟩
  | hit ask => exact absurd (State.of_ask_true ask).2.1 hhalted
  | body ask unknown rest ih =>
    rw [State.record_halted, keep_halted] at hhalted
    obtain ⟨i, hi⟩ := ih hstrict rfl (State.of_ask_true ask).2.1 hhalted
    exact ⟨i, .body ask unknown hi⟩
  | seqNil => exact absurd hlive hhalted
  | seqSkip tail ih =>
    obtain ⟨i, hi⟩ := ih hstrict rfl hlive hhalted
    exact ⟨i, .seqSkip hi⟩
  | @seqTook c d step rest isFirst p s t notes s₁ a s' head tail ihhead ihtail =>
    by_cases hlive₁ : s₁.halted = none
    · obtain ⟨i, hi⟩ := ihtail hstrict rfl hlive₁ hhalted
      exact ⟨_, .seqTail head hi⟩
    · obtain ⟨i, hi⟩ := ihhead hstrict rfl hlive hlive₁
      exact ⟨i, .seqHead hi⟩
  | seqFailed head final ih =>
    obtain ⟨i, hi⟩ := ih hstrict rfl hlive hhalted
    exact ⟨i, .seqHead hi⟩
  | seqEnded head armed => exact absurd armed (hnever _ _ _ hstrict)
  | seqResumed head armed => exact absurd armed (hnever _ _ _ hstrict)
  | choiceNil => exact absurd hlive hhalted
  | choiceTook head ih =>
    obtain ⟨i, hi⟩ := ih hstrict rfl hlive hhalted
    exact ⟨i, .choiceHead hi⟩
  | @choiceNext c d step rest p s notes s₁ a s' head tail ihhead ihtail =>
    by_cases hlive₁ : s₁.halted = none
    · obtain ⟨i, hi⟩ := ihtail hstrict rfl hlive₁ hhalted
      exact ⟨i, .choiceNext head hi⟩
    · obtain ⟨i, hi⟩ := ihhead hstrict rfl hlive hlive₁
      exact ⟨i, .choiceHead hi⟩
  | exhausted => exact absurd hlive hhalted
  | enough => exact absurd hlive hhalted
  | idleIteration room head still ih =>
    obtain ⟨i, hi⟩ := ih hstrict rfl hlive hhalted
    exact ⟨_, .iteration room hi⟩
  | @nextIteration c d body least most left count p s t notes s₁ a s' room head moved tail ihhead
      ihtail =>
    by_cases hlive₁ : s₁.halted = none
    · obtain ⟨i, hi⟩ := ihtail hstrict rfl hlive₁ hhalted
      exact ⟨_, .nextIteration room head moved hi⟩
    · obtain ⟨i, hi⟩ := ihhead hstrict rfl hlive hlive₁
      exact ⟨_, .iteration room hi⟩
  | lastIteration room head final ih =>
    obtain ⟨i, hi⟩ := ih hstrict rfl hlive hhalted
    exact ⟨_, .iteration room hi⟩
  | lostIteration room head started armed => exact absurd armed (hnever _ _ _ hstrict)
  | foundIteration room head started armed => exact absurd armed (hnever _ _ _ hstrict)
  | _ => cases hjob

end Packrat
