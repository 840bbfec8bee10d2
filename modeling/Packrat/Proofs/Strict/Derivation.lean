import Packrat.Proofs.Parse.Plain

/-!
# Derivations without recovery

`Derives` says what a task comes to when failures are final: a choice commits to the first of its
members that succeeds, a repetition ends with the first iteration that fails or takes nothing, and
nothing is recovered from. There are no limits, and no results are kept; a derivation only tells
that the rules it calls, with their positions, are among some that are allowed.
-/

namespace Packrat

/-- Something to be derived from a position: an operation, a rule, or what is left of an operation
whose parts were derived up to here. -/
inductive Task where
  | step (step : Step)
  | rule (rule : Nat)
  | seq (members : List Step)
  | choice (members : List Step)
  | iterations (body : Step) (least : Nat) (most : Option Nat) (count : Nat)

/-- `Derives g text allowed task p a` says that `task` comes to `a` at a position of a text, with
calls of allowed rules and positions only. -/
inductive Derives (g : Program) (text : Text) (allowed : MemoKey → Prop) :
    Task → (position : Nat) → Answer → Prop
  -- operations
  | blank {p} : Derives g text allowed (.step .blank) p (.idle p)
  | token {terminal kind immediate p} :
      Derives g text allowed (.step (.token terminal kind immediate)) p
        (g.tokenAnswer text terminal kind immediate p)
  | call {rule renamed p a} (rest : Derives g text allowed (.rule rule) p a) :
      Derives g text allowed (.step (.call rule renamed)) p
        (a.called (g.plain text) rule renamed false)
  | members {members p a} (rest : Derives g text allowed (.seq members) p a) :
      Derives g text allowed (.step (.seq members)) p a
  | alternatives {members p a} (rest : Derives g text allowed (.choice members) p a) :
      Derives g text allowed (.step (.choice members)) p a
  | repetition {body min max p a}
      (rest : Derives g text allowed (.iterations body min.toNat (max.map (·.toNat)) 0) p a) :
      Derives g text allowed (.step (.repetition body min max)) p a
  | wrap {body kind p a} (rest : Derives g text allowed (.step body) p a) :
      Derives g text allowed (.step (.wrap body kind)) p (a.wrapped (g.plain text) kind)
  -- rules
  | rule {rule p a} (known : allowed (rule, p))
      (body : Derives g text allowed (.step (g.rule rule).body) p a) :
      Derives g text allowed (.rule rule) p (a.fromRule p)
  -- sequences
  | seqNil {p} : Derives g text allowed (.seq []) p (.idle p)
  | seqTook {step rest p t notes a}
      (head : Derives g text allowed (.step step) p ⟨some t, notes⟩)
      (tail : Derives g text allowed (.seq rest) t.stop a) :
      Derives g text allowed (.seq (step :: rest)) p (.behind t notes a)
  | seqFailed {step rest p notes} (head : Derives g text allowed (.step step) p ⟨none, notes⟩) :
      Derives g text allowed (.seq (step :: rest)) p ⟨none, notes⟩
  -- choices
  | choiceNil {p} : Derives g text allowed (.choice []) p ⟨none, {}⟩
  | choiceTook {step rest p t notes}
      (head : Derives g text allowed (.step step) p ⟨some t, notes⟩) :
      Derives g text allowed (.choice (step :: rest)) p ⟨some t, notes⟩
  | choiceNext {step rest p notes a}
      (head : Derives g text allowed (.step step) p ⟨none, notes⟩)
      (tail : Derives g text allowed (.choice rest) p a) :
      Derives g text allowed (.choice (step :: rest)) p (.noting notes a)
  -- repetitions
  | enough {body least most count p} (full : most.any (· ≤ count) = true) :
      Derives g text allowed (.iterations body least most count) p (endRepetition least count p {})
  | idleIteration {body least most count p t notes} (room : most.any (· ≤ count) = false)
      (head : Derives g text allowed (.step body) p ⟨some t, notes⟩) (still : t.stop = p) :
      Derives g text allowed (.iterations body least most count) p
        (endRepetition least count p notes)
  | nextIteration {body least most count p t notes a} (room : most.any (· ≤ count) = false)
      (head : Derives g text allowed (.step body) p ⟨some t, notes⟩) (moved : t.stop ≠ p)
      (tail : Derives g text allowed (.iterations body least most (count + 1)) t.stop a) :
      Derives g text allowed (.iterations body least most count) p (.behind t notes a)
  | lastIteration {body least most count p notes} (room : most.any (· ≤ count) = false)
      (head : Derives g text allowed (.step body) p ⟨none, notes⟩) :
      Derives g text allowed (.iterations body least most count) p
        (endRepetition least count p notes)

/-- An answer that fits still does without error points. -/
theorem Answer.Fits.plain {c : Setting} {p : Nat} {a : Answer} (h : a.Fits c p) :
    a.plain.Fits c p :=
  ⟨h.far, h.tiles, h.quiet⟩

namespace Derives

variable {g : Program} {text : Text} {allowed : MemoKey → Prop} {task : Task} {p : Nat}
  {a : Answer}

/-- A task comes to one answer at most, whatever is allowed. -/
theorem unique {allowed' : MemoKey → Prop} {b : Answer} (h : Derives g text allowed task p a)
    (h' : Derives g text allowed' task p b) : a = b := by
  induction h generalizing b with
  | blank => cases h'; rfl
  | token => cases h'; rfl
  | call _ ih => cases h' with | call rest => rw [ih rest]
  | members _ ih => cases h' with | members rest => exact ih rest
  | alternatives _ ih => cases h' with | alternatives rest => exact ih rest
  | repetition _ ih => cases h' with | repetition rest => exact ih rest
  | wrap _ ih => cases h' with | wrap rest => rw [ih rest]
  | rule _ _ ih => cases h' with | rule _ body => rw [ih body]
  | seqNil => cases h'; rfl
  | seqTook _ _ ihhead ihtail =>
    cases h' with
    | seqTook head tail =>
      cases ihhead head
      rw [ihtail tail]
    | seqFailed head => cases ihhead head
  | seqFailed _ ih =>
    cases h' with
    | seqTook head => cases ih head
    | seqFailed head => exact ih head
  | choiceNil => cases h'; rfl
  | choiceTook _ ih =>
    cases h' with
    | choiceTook head => exact ih head
    | choiceNext head => cases ih head
  | choiceNext _ _ ihhead ihtail =>
    cases h' with
    | choiceTook head => cases ihhead head
    | choiceNext head tail =>
      cases ihhead head
      rw [ihtail tail]
  | enough full =>
    cases h' with
    | enough => rfl
    | idleIteration room => simp [full] at room
    | nextIteration room => simp [full] at room
    | lastIteration room => simp [full] at room
  | idleIteration room _ still ih =>
    cases h' with
    | enough full => simp [full] at room
    | idleIteration _ head => cases ih head; rfl
    | nextIteration _ head moved => cases ih head; exact absurd still moved
    | lastIteration _ head => cases ih head
  | nextIteration room _ moved _ ihhead ihtail =>
    cases h' with
    | enough full => simp [full] at room
    | idleIteration _ head still => cases ihhead head; exact absurd still moved
    | nextIteration _ head _ tail =>
      cases ihhead head
      rw [ihtail tail]
    | lastIteration _ head => cases ihhead head
  | lastIteration room _ ih =>
    cases h' with
    | enough full => simp [full] at room
    | idleIteration _ head => cases ih head
    | nextIteration _ head => cases ih head
    | lastIteration _ head => cases ih head; rfl

/-- More may be allowed. -/
theorem mono {allowed' : MemoKey → Prop} (h : Derives g text allowed task p a)
    (hallowed : ∀ key, allowed key → allowed' key) : Derives g text allowed' task p a := by
  induction h with
  | blank => exact .blank
  | token => exact .token
  | call _ ih => exact .call ih
  | members _ ih => exact .members ih
  | alternatives _ ih => exact .alternatives ih
  | repetition _ ih => exact .repetition ih
  | wrap _ ih => exact .wrap ih
  | rule known _ ih => exact .rule (hallowed _ known) ih
  | seqNil => exact .seqNil
  | seqTook _ _ ihhead ihtail => exact .seqTook ihhead ihtail
  | seqFailed _ ih => exact .seqFailed ih
  | choiceNil => exact .choiceNil
  | choiceTook _ ih => exact .choiceTook ih
  | choiceNext _ _ ihhead ihtail => exact .choiceNext ihhead ihtail
  | enough full => exact .enough full
  | idleIteration room _ still ih => exact .idleIteration room ih still
  | nextIteration room _ moved _ ihhead ihtail => exact .nextIteration room ihhead moved ihtail
  | lastIteration room _ ih => exact .lastIteration room ih

/-- What is derived from a boundary covers the text and fails in what was looked at. -/
theorem fits (h : Derives g text allowed task p a) (hp : text.isBoundary p = true) :
    a.Fits (g.plain text) p := by
  induction h with
  | blank => exact .idle
  | @token terminal kind immediate p =>
    exact plain_runToken (g.plain text) terminal kind immediate p ⟨{}, none, none, none, none⟩ ▸
      (runToken_fits _ _ _ _ _).plain
  | call _ ih => exact (ih hp).called
  | members _ ih => exact ih hp
  | alternatives _ ih => exact ih hp
  | repetition _ ih => exact ih hp
  | wrap _ ih => exact (ih hp).wrapped
  | rule _ _ ih => exact (ih hp).fromRule
  | seqNil => exact .idle
  | seqTook _ _ ihhead ihtail =>
    have hfirst := ihhead hp
    exact hfirst.behind (ihtail (Tree.TilesAll.isBoundary hp _ (hfirst.tiles _ rfl)))
  | seqFailed _ ih => exact ih hp
  | choiceNil => exact .of_isNone (by simp)
  | choiceTook _ ih => exact ih hp
  | choiceNext _ _ ihhead ihtail => exact (ihhead hp).noting (ihtail hp)
  | enough => exact .endRepetition (by simp)
  | idleIteration _ _ _ ih => exact .endRepetition (ih hp).far
  | nextIteration _ _ _ _ ihhead ihtail =>
    have hfirst := ihhead hp
    exact hfirst.behind (ihtail (Tree.TilesAll.isBoundary hp _ (hfirst.tiles _ rfl)))
  | lastIteration _ _ ih => exact .endRepetition (ih hp).far

/-- Without error points frontiers are where the furthest failures are. -/
theorem exact (h : Derives g text allowed task p a) : a.Exact := by
  induction h with
  | blank => rfl
  | @token terminal kind immediate p =>
    have htoken :=
      plain_runToken (g.plain text) terminal kind immediate p ⟨{}, none, none, none, none⟩
    exact congrArg Answer.plain htoken.symm |>.trans htoken
  | call _ ih => exact ih.map rfl rfl
  | members _ ih => exact ih
  | alternatives _ ih => exact ih
  | repetition _ ih => exact ih
  | wrap _ ih => exact ih.map rfl rfl
  | rule _ _ ih => exact ih.map rfl rfl
  | seqNil => rfl
  | seqTook _ _ ihhead ihtail => exact ihhead.behind ihtail
  | seqFailed _ ih => exact ih
  | choiceNil => rfl
  | choiceTook _ ih => exact ih
  | choiceNext _ _ ihhead ihtail => exact ihhead.noting ihtail
  | enough => rfl
  | idleIteration _ _ _ ih => exact ih.map rfl rfl
  | nextIteration _ _ _ _ ihhead ihtail => exact ihhead.behind ihtail
  | lastIteration _ _ ih => exact ih.map rfl rfl

/-- A derivation that takes something stops at a boundary, not before the position and not behind
what was looked at. -/
theorem stop_bounds {t : Taken} {notes : Notes}
    (h : Derives g text allowed task p ⟨some t, notes⟩) (hp : text.isBoundary p = true) :
    p ≤ t.stop ∧ t.stop ≤ max p notes.reach ∧ text.isBoundary t.stop = true := by
  have hfits := h.fits hp
  have htiles := hfits.tiles t rfl
  exact ⟨Tree.TilesAll.le _ htiles, (hfits.quiet (by simp [Setting.Quiet, Program.plain]) t rfl).1,
    Tree.TilesAll.isBoundary hp _ htiles⟩

/-- A sequence starts with its first member, whose failure is final. -/
theorem of_seq {step : Step} {rest : List Step} {b : Answer}
    (h : Derives g text allowed (.seq (step :: rest)) p b) :
    ∃ a, Derives g text allowed (.step step) p a ∧ a.notes.reach ≤ b.notes.reach ∧
      (a.taken = none → b = a) ∧ ∀ t, a.taken = some t →
        ∃ a', Derives g text allowed (.seq rest) t.stop a' ∧ b = .behind t a.notes a' := by
  cases h with
  | seqTook head tail =>
    refine ⟨_, head, Nat.le_max_left _ _, nofun, fun t ht => ?_⟩
    cases ht
    exact ⟨_, tail, rfl⟩
  | seqFailed head => exact ⟨_, head, Nat.le_refl _, fun _ => rfl, nofun⟩

/-- A choice starts with its first member, whose success is final. -/
theorem of_choice {step : Step} {rest : List Step} {b : Answer}
    (h : Derives g text allowed (.choice (step :: rest)) p b) :
    ∃ a, Derives g text allowed (.step step) p a ∧ a.notes.reach ≤ b.notes.reach ∧
      (a.taken.isSome → b = a) ∧ (a.taken = none →
        ∃ a', Derives g text allowed (.choice rest) p a' ∧ b = .noting a.notes a') := by
  cases h with
  | choiceTook head => exact ⟨_, head, Nat.le_refl _, fun _ => rfl, nofun⟩
  | choiceNext head tail =>
    exact ⟨_, head, Nat.le_max_left _ _, nofun, fun _ => ⟨_, tail, rfl⟩⟩

/-- A repetition with room for an iteration starts with its body, and goes on behind it if it took
something. -/
theorem of_iterations {body : Step} {least : Nat} {most : Option Nat} {count : Nat} {b : Answer}
    (h : Derives g text allowed (.iterations body least most count) p b)
    (room : most.any (· ≤ count) = false) :
    ∃ a, Derives g text allowed (.step body) p a ∧ a.notes.reach ≤ b.notes.reach ∧
      ((∀ t, a.taken = some t → t.stop = p) → b = endRepetition least count p a.notes) ∧
      ∀ t, a.taken = some t → t.stop ≠ p → ∃ a',
        Derives g text allowed (.iterations body least most (count + 1)) t.stop a' ∧
          b = .behind t a.notes a' := by
  cases h with
  | enough full => simp [full] at room
  | idleIteration _ head still =>
    refine ⟨_, head, Nat.le_refl _, fun _ => rfl, fun t ht hmoved => ?_⟩
    cases ht
    exact absurd still hmoved
  | nextIteration _ head moved tail =>
    refine ⟨_, head, Nat.le_max_left _ _, fun hstill => absurd (hstill _ rfl) moved,
      fun t ht _ => ?_⟩
    cases ht
    exact ⟨_, tail, rfl⟩
  | lastIteration _ head => exact ⟨_, head, Nat.le_refl _, fun _ => rfl, nofun⟩

end Derives

end Packrat
