import Packrat.Proofs.Parse.Moment

/-!
# How deeply rules nest

Every call of a rule has a level: calls further on in the text lie lower, at one position a rule
calls rules on lower layers only, and everything in an attempt of a search, which is run without
recovery, lies below what recovers. `Moment.Below.runs` says that what is run for a job stays below
the level that the job was below, and below that of a rule once it is called. So no call of a rule
is run for another call of that rule at its position, with or without recovery for both.
-/

namespace Packrat

namespace Program.Layering

variable {g : Program} {early : Bool} (layers : g.Layering early)

/-- The number from which the levels of calls at a position count. -/
def floor (text : Text) (recovering : Bool) (p : Nat) : Nat :=
  ((if recovering then text.size + 1 else 0) + (text.size - p)) * (layers.top + 1)

/-- The level of a call of a rule. -/
def level (text : Text) (recovering : Bool) (p rule : Nat) : Nat :=
  layers.floor text recovering p + layers.layer rule

variable {text : Text} {recovering : Bool} {p q : Nat}

/-- Further on in the text, levels are counted from a lower number. -/
theorem floor_anti (h : p ≤ q) :
    layers.floor text recovering q ≤ layers.floor text recovering p :=
  Nat.mul_le_mul_right _ (by omega)

/-- The layers of one position lie below the numbers of the next higher one. -/
theorem add_layer_lt {m n : Nat} (h : m < n) (rule : Nat) :
    m * (layers.top + 1) + layers.layer rule < n * (layers.top + 1) :=
  calc m * (layers.top + 1) + layers.layer rule
      < m * (layers.top + 1) + (layers.top + 1) :=
        Nat.add_lt_add_left (Nat.lt_succ_of_le (layers.layer_le rule)) _
    _ = (m + 1) * (layers.top + 1) := (Nat.succ_mul _ _).symm
    _ ≤ n * (layers.top + 1) := Nat.mul_le_mul_right _ h

/-- Calls further on in the text lie lower. -/
theorem level_lt_floor (h : p < q) (hq : q ≤ text.size) (rule : Nat) :
    layers.level text recovering q rule < layers.floor text recovering p :=
  layers.add_layer_lt (by omega) rule

/-- Calls without recovery lie below those with it, wherever they are. -/
theorem level_lt_floor_recovering (rule : Nat) :
    layers.level text false q rule < layers.floor text true p :=
  layers.add_layer_lt (by simp only [Bool.false_eq_true, if_false, if_true]; omega) rule

/-- A level that all calls at the start of a text lie below. -/
def ceiling (text : Text) : Nat := (2 * text.size + 2) * (layers.top + 1)

/-- Every call of a rule has a level below the ceiling. -/
theorem level_lt_ceiling (rule : Nat) :
    layers.level text recovering p rule < layers.ceiling text :=
  layers.add_layer_lt (by split <;> omega) rule

end Program.Layering

/-- Whether a job may call a rule before anything is taken and before another setting is used. -/
def Job.Begins (g : Program) (early : Bool) (idle : Nat → Prop) (i : Nat) : Job → Prop
  | step op => g.Begins early idle i op
  | operation op => g.Begins early idle i op
  | rule called => called = i
  | seq members skip _ => g.BeginsThrough early idle i (members.drop skip)
  | choice members => g.BeginsAmong early idle i members
  | iterations body _ _ _ _ => g.Begins early idle i body
  | trial _ _ steps => g.BeginsAmong early idle i steps
  | _ => False

/-- Whether a job is part of a search outside of its attempts. -/
def Job.Searches : Job → Prop
  | look _ => True
  | search _ _ => True
  | _ => False

namespace Moment

variable {g : Program} {early : Bool} {text : Text} {layers : g.Layering early}

/-- Whether all calls that a job may begin with lie below some level. -/
structure Below (layers : g.Layering early) (text : Text) (level : Nat) (t : Moment) : Prop where
  floor : layers.floor text t.setting.recovering t.position ≤ level
  begins : ∀ rule, t.job.Begins g early layers.idle rule →
    layers.level text t.setting.recovering t.position rule < level
  searches : t.job.Searches → t.setting.recovering = true

section

variable {c : Setting} {d p q level : Nat} {job : Job} {s : State}

/-- What begins with no other calls at the same position stays below. -/
theorem Below.same (h : Below layers text level ⟨c, d, job, p, s⟩) {job' : Job} {d' : Nat}
    {s' : State} (hbegins : ∀ rule, job'.Begins g early layers.idle rule →
      job.Begins g early layers.idle rule) (hsearches : ¬ job'.Searches) :
    Below layers text level ⟨c, d', job', p, s'⟩ :=
  ⟨h.floor, fun rule hrule => h.begins rule (hbegins rule hrule), fun h => absurd h hsearches⟩

/-- What starts further on stays below. -/
theorem Below.advance (h : Below layers text level ⟨c, d, job, p, s⟩) (hpq : p < q)
    (hq : q ≤ text.size) {job' : Job} {d' : Nat} {s' : State} (hsearches : ¬ job'.Searches) :
    Below layers text level ⟨c, d', job', q, s'⟩ :=
  ⟨Nat.le_trans (layers.floor_anti (Nat.le_of_lt hpq)) h.floor,
    fun rule _ => Nat.lt_of_lt_of_le (layers.level_lt_floor hpq hq rule) h.floor,
    fun h => absurd h hsearches⟩

/-- A search stays below, as it calls nothing with recovery. -/
theorem Below.search (h : Below layers text level ⟨c, d, job, p, s⟩) (hpq : p ≤ q)
    (hrecovering : c.recovering = true) {job' : Job} {d' : Nat} {s' : State}
    (hsearches : job'.Searches) : Below layers text level ⟨c, d', job', q, s'⟩ := by
  refine ⟨Nat.le_trans (layers.floor_anti hpq) h.floor, fun rule hrule => ?_,
    fun _ => hrecovering⟩
  cases job' with
  | look => exact hrule.elim
  | search => exact hrule.elim
  | _ => exact hsearches.elim

end

/-- What lies below a level lies below a higher one. -/
theorem Below.mono {t : Moment} {level level' : Nat} (h : Below layers text level t)
    (hle : level ≤ level') : Below layers text level' t :=
  ⟨Nat.le_trans h.floor hle, fun rule hrule => Nat.lt_of_lt_of_le (h.begins rule hrule) hle,
    h.searches⟩

/-- The body of a rule lies below the level of the rule. -/
theorem Sound.below_level {a b : Moment} {rule : Nat} (hsound : Sound layers text a)
    (hruns : a.Runs b) (hrule : a.job = .rule rule) :
    Below layers text (layers.level text a.setting.recovering a.position rule) b := by
  cases hruns with
  | @body c d rule' p s s₁ ask unknown =>
    cases hrule
    obtain rfl : c.program = g := hsound.program
    refine ⟨Nat.le_add_right _ _, fun below hbelow => Nat.add_lt_add_left ?_ _, nofun⟩
    exact layers.layer_lt rule below hbelow
  | _ => cases hrule

/-- What is run for a job whose calls lie below some level stays below it, in a parse that goes
on. -/
theorem Below.runs {a b : Moment} {level : Nat} (h : Below layers text level a)
    (hsound : Sound layers text a) (hruns : a.Runs b) (hlive : b.state.halted = none) :
    Below layers text level b := by
  have hsound' := hsound.runs hruns
  have hready := hsound.ready
  have hready' := hsound'.ready
  cases hruns with
  | ticked => exact h.same (fun _ => id) id
  | call => exact h.same (fun _ => id) id
  | members => exact h.same (fun _ => id) id
  | alternatives => exact h.same (fun _ => id) id
  | repetition => exact h.same (fun _ => id) id
  | wrap => exact h.same (fun _ => id) id
  | body ask unknown =>
    exact (hsound.below_level (.body ask unknown) rfl).mono (Nat.le_of_lt (h.begins _ rfl))
  | seqSkip => exact h.same (fun _ => id) id
  | seqHead => exact h.same (fun _ => .inl) id
  | @seqTail c d step rest isFirst p s t notes s₁ head =>
    have hhead : Sound layers text ⟨c, d, .step step, p, s⟩ := hsound.restart hready rfl
    rcases Nat.eq_or_lt_of_le ((hhead.run_fits head).le rfl) with hstill | hmoved
    · have hidles := hhead.run_idles head hlive t rfl hstill.symm
      rw [← hstill]
      exact h.same (fun _ hrule => .inr ⟨hidles, hrule⟩) id
    · exact h.advance hmoved (hsound'.text ▸ Text.le_size_of_isBoundary hready') id
  | @seqScan c d step rest p s notes s₁ failure head armed =>
    exact h.search (c.le_trivia_stop p) (Setting.of_recoverable? armed).1 trivial
  | @seqResumed c d step rest p s notes s₁ failure result reach s₂ index head armed scan resumed =>
    have hscan : Sound layers text ⟨c, d, .search (step :: rest)
        (c.text.charsFrom (c.trivia p).stop), (c.trivia p).stop, s₁⟩ :=
      hsound.runs (.seqScan head armed)
    have hmoves := hscan.run_idles scan (by simpa using hlive)
    exact h.advance (Setting.lt_resumedTaken_stop resumed (hscan.run_fits scan) hmoves)
      (hsound'.text ▸ Text.le_size_of_isBoundary hready') id
  | choiceHead => exact h.same (fun _ => .inl) id
  | choiceNext => exact h.same (fun _ => .inr) id
  | iteration => exact h.same (fun _ => id) id
  | @nextIteration c d body least most left count p s t notes s₁ room head moved =>
    have hhead : Sound layers text ⟨c, d, .step body, p, s⟩ := hsound.restart hready rfl
    have hle := (hhead.run_fits head).le rfl
    exact h.advance (by omega) (hsound'.text ▸ Text.le_size_of_isBoundary hready') id
  | @iterationScan c d body least most left count p s notes s₁ failure room head started armed =>
    exact h.search (c.le_trivia_stop p) (Setting.of_recoverable? armed).1 trivial
  | @foundIteration c d body least most left count p s notes s₁ failure result reach s₂ t room head
      started armed scan resumed =>
    have hscan : Sound layers text ⟨c, d, .search [body]
        (c.text.charsFrom (c.trivia p).stop), (c.trivia p).stop, s₁⟩ :=
      hsound.runs (.iterationScan room head started armed)
    have hmoved := Setting.lt_resumedIteration?_stop resumed (hscan.run_fits scan)
      (hscan.run_idles scan (by simpa using hlive))
    exact h.advance hmoved (hsound'.text ▸ Text.le_size_of_isBoundary hready') id
  | trialHead => exact h.same (fun _ => .inl) id
  | trialNext => exact h.same (fun _ => .inr) id
  | @attempts c d steps p s s₁ tick =>
    have hrecovering : c.recovering = true := h.searches trivial
    have hfloor := h.floor
    simp only [hrecovering] at hfloor
    have hlevel := fun rule => Nat.lt_of_lt_of_le
      (layers.level_lt_floor_recovering (q := p) rule) hfloor
    exact ⟨Nat.le_of_lt (Nat.lt_of_le_of_lt (Nat.le_add_right _ _) (hlevel 0)),
      fun rule _ => hlevel rule, nofun⟩
  | look => exact h.search (Nat.le_refl _) (h.searches trivial) trivial
  | searchNext => exact h.search (Nat.le_add_right _ _) (h.searches trivial) trivial

/-- The same for all that comes of it. -/
theorem Below.reach {a b : Moment} {level : Nat} (h : Below layers text level a)
    (hsound : Sound layers text a) (hreach : Relation.ReflTransGen Runs a b)
    (hlive : b.state.halted = none) : Below layers text level b ∧ Sound layers text b := by
  induction hreach with
  | refl => exact ⟨h, hsound⟩
  | tail _ hruns ih =>
    obtain ⟨hbelow, hsound'⟩ := ih (hruns.live hlive)
    exact ⟨hbelow.runs hsound' hruns hlive, hsound'.runs hruns⟩

/-- A rule is only called for another one in a parse that goes on. -/
theorem live_of_nested {a b : Moment} {i j : Nat} (h : Relation.TransGen Runs a b)
    (hi : a.job = .rule i) (hj : b.job = .rule j) : b.state.halted = none := by
  obtain ⟨x, hax, hxb⟩ := Relation.TransGen.tail'_iff.mp h
  rcases b with ⟨c, d, job, p, s⟩
  cases hj
  cases hxb
  rcases hax.cases_tail with rfl | ⟨y, -, hyx⟩
  · cases hi
  · cases hyx with
    | ticked tick => exact (State.of_tick_true tick).2.1

/-- A call that is run for another one has a lower level. -/
theorem Sound.level_lt {a b : Moment} {i j : Nat} (hsound : Sound layers text a)
    (h : Relation.TransGen Runs a b) (hi : a.job = .rule i) (hj : b.job = .rule j) :
    layers.level text b.setting.recovering b.position j <
      layers.level text a.setting.recovering a.position i := by
  have hlive := live_of_nested h hi hj
  obtain ⟨x, hax, hxb⟩ := Relation.TransGen.head'_iff.mp h
  have hbelow := hsound.below_level hax hi
  exact ((hbelow.reach (hsound.runs hax) hxb hlive).1).begins j (by rw [hj]; rfl)

end Moment

end Packrat
