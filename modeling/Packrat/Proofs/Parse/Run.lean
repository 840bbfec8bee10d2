import Packrat.Parse.Round

/-!
# Runs as a relation

`evaluate` and the functions around it call each other through an evaluator, so an induction over
them has no principle of its own. `Run` says the same as a relation with one rule for each way in
which an operation, a rule, the rest of a sequence, a repetition or a search can go.
`run_iff` says that the relation is the graph of the functions, so what an induction over `Run`
proves holds of `evaluate`.
-/

namespace Packrat

/-- Something that is run from a position: an operation with or without fuel being spent on it, a
rule, or what is left of an operation whose parts were run up to here. -/
inductive Job where
  /-- An operation, for which fuel is spent. -/
  | step (step : Step)
  /-- An operation for which fuel was spent. -/
  | operation (step : Step)
  | rule (rule : Nat)
  | seq (members : List Step) (skip : Nat) (isFirst : Bool)
  | choice (members : List Step)
  | iterations (body : Step) (min : Nat) (max : Option Nat) (left count : Nat)
  /-- The attempts at one position of a search. -/
  | trial (floor index : Nat) (steps : List Step)
  /-- One position of a search. -/
  | look (steps : List Step)
  | search (steps : List Step) (rest : List Char)

/-- What a job comes to. -/
inductive Outcome where
  | answer (a : Answer)
  | tried (found : Option Match) (reach : Nat)
  | looked (result : Option Search) (reach : Nat)
  | searched (result : Search) (reach : Nat)

namespace Answer

/-- The answer of a rule as that of a call of it, whose node is closed unless the rule is hidden
or the parse has stopped with nothing taken. -/
def called (c : Setting) (rule : Nat) (renamed : Option Nat) (halted : Bool) (a : Answer) :
    Answer :=
  ⟨a.taken.map fun t =>
    if halted && t.trees.isEmpty || (c.program.rule rule).hidden && renamed.isNone then t
    else { t with trees := c.close (renamed.getD (c.program.rule rule).kind) t.trees }, a.notes⟩

/-- The answer with its trees in a node. -/
def wrapped (c : Setting) (kind : Nat) (a : Answer) : Answer :=
  ⟨a.taken.map fun t => { t with trees := c.close kind t.trees }, a.notes⟩

/-- The answer of the body of a rule at a position as that of the rule. -/
def fromRule (a : Answer) (position : Nat) : Answer :=
  ⟨a.taken, ⟨a.notes.far, a.notes.frontier, max position a.notes.reach⟩⟩

end Answer

namespace Setting

/-- What the recovery of a sequence takes when its search ended in some way. -/
def resumedTaken (c : Setting) (position : Nat) (expected : List Nat) : Search → Taken
  | .abandoned => { stop := (c.trivia position).stop, trees := (c.trivia position).leaves }
  | .stopped stop =>
    Taken.andThen { stop := (c.trivia position).stop, trees := (c.trivia position).leaves }
      (c.takenError (c.trivia position).stop stop expected)
  | .found start found =>
    Taken.andThen { stop := (c.trivia position).stop, trees := (c.trivia position).leaves }
      (if (c.trivia position).stop < start || 0 < found.index then
        (c.takenError (c.trivia position).stop start expected).andThen
          { stop := found.stop, trees := found.trees }
      else { stop := found.stop, trees := found.trees })

/-- Whether the recovery of a sequence makes an error, and of what stretch. -/
def resumedError? (c : Setting) (position : Nat) : Search → Option (Nat × Nat)
  | .abandoned => none
  | .stopped stop => some ((c.trivia position).stop, stop)
  | .found start found =>
    if (c.trivia position).stop < start || 0 < found.index then
      some ((c.trivia position).stop, start)
    else none

/-- What the recovery of a repetition takes when its search ended in some way. A search in a
repetition tries the body alone, so the place of what it found is the first. -/
def resumedIteration? (c : Setting) (position : Nat) (expected : List Nat) : Search → Option Taken
  | .found start found =>
    some (c.resumedTaken position expected (.found start { found with index := 0 }))
  | _ => none

/-- Whether the recovery of a repetition makes an error, and of what stretch. -/
def iterationError? (c : Setting) (position : Nat) : Search → Option (Nat × Nat)
  | .found start found => c.resumedError? position (.found start { found with index := 0 })
  | _ => none

end Setting

/-- The place of the member that a search found. -/
def Search.index? : Search → Option Nat
  | .found _ m => some m.index
  | _ => none

/-- Notes an error if there is one. -/
def State.recordError (s : State) : Option (Nat × Nat) → State
  | some (start, stop) => s.record (.error start stop)
  | none => s

/-- A recovery that takes nothing makes no error. -/
theorem Setting.iterationError?_of_none {c : Setting} {position : Nat} {expected : List Nat}
    {result : Search} (h : c.resumedIteration? position expected result = none) :
    c.iterationError? position result = none := by
  cases result with
  | found => cases h
  | stopped => rfl
  | abandoned => rfl

/-- The recovery of a sequence, told by what its search comes to. -/
theorem recoverSeq_eq (run : Evaluator) (c : Setting) (members : List Step)
    (expected : List Nat) (position : Nat) (s : State) :
    recoverSeq run c members expected position s =
      match search run c members (c.text.charsFrom (c.trivia position).stop)
        (c.trivia position).stop s with
      | ((result, reach), s') =>
        (⟨c.resumedTaken position expected result, result.index?,
          max (c.trivia position).reach reach⟩,
          s'.recordError (c.resumedError? position result)) := by
  simp only [recoverSeq, searchBehind]
  rcases search run c members (c.text.charsFrom (c.trivia position).stop)
    (c.trivia position).stop s with ⟨⟨result, reach⟩, s'⟩
  cases result with
  | found start m =>
    simp only [Setting.resumedTaken, Setting.resumedError?, Search.index?]
    split <;> rfl
  | stopped stop => rfl
  | abandoned => rfl

/-- The recovery of a repetition, told by what its search comes to. -/
theorem recoverRepetition_eq (run : Evaluator) (c : Setting) (body : Step)
    (expected : List Nat) (position : Nat) (s : State) :
    recoverRepetition run c body expected position s =
      match search run c [body] (c.text.charsFrom (c.trivia position).stop)
        (c.trivia position).stop s with
      | ((result, reach), s') =>
        ((c.resumedIteration? position expected result, max (c.trivia position).reach reach),
          s'.recordError (c.iterationError? position result)) := by
  simp only [recoverRepetition, searchBehind]
  rcases search run c [body] (c.text.charsFrom (c.trivia position).stop)
    (c.trivia position).stop s with ⟨⟨result, reach⟩, s'⟩
  cases result with
  | found start m =>
    simp only [Setting.resumedIteration?, Setting.resumedTaken, Setting.iterationError?,
      Setting.resumedError?, Nat.lt_irrefl, decide_false, Bool.or_false, decide_eq_true_eq]
    split <;> rfl
  | stopped stop => rfl
  | abandoned => rfl

/-- `Run c depth job position s out s'` says that `job`, run at a position in a state `s` where
operations may nest `depth` deep, comes to `out` and leaves the state `s'`. -/
inductive Run : Setting → (depth : Nat) → Job → (position : Nat) → State → Outcome → State → Prop
  -- operations
  | refused {c d step p s s'} (tick : s.tick = (false, s')) :
      Run c d (.step step) p s (.answer (.idle p)) s'
  | tooDeep {c step p s s'} (tick : s.tick = (true, s')) :
      Run c 0 (.step step) p s (.answer (.idle p)) (s'.stop .tooDeep)
  | ticked {c d step p s s₁ a s'} (tick : s.tick = (true, s₁))
      (rest : Run c d (.operation step) p s₁ (.answer a) s') :
      Run c (d + 1) (.step step) p s (.answer a) s'
  | blank {c d p s} : Run c d (.operation .blank) p s (.answer (.idle p)) s
  | token {c d terminal kind immediate p s} :
      Run c d (.operation (.token terminal kind immediate)) p s
        (.answer (runToken c terminal kind immediate p s).1)
        (runToken c terminal kind immediate p s).2
  | call {c d rule renamed p s a s'} (rest : Run c d (.rule rule) p s (.answer a) s') :
      Run c d (.operation (.call rule renamed)) p s
        (.answer (a.called c rule renamed s'.isHalted)) s'
  | members {c d members p s a s'} (rest : Run c d (.seq members 0 true) p s (.answer a) s') :
      Run c d (.operation (.seq members)) p s (.answer a) s'
  | alternatives {c d members p s a s'} (rest : Run c d (.choice members) p s (.answer a) s') :
      Run c d (.operation (.choice members)) p s (.answer a) s'
  | repetition {c d body min max p s a s'}
      (rest : Run c d (.iterations body min.toNat (max.map (·.toNat)) (c.text.size + 1 - p) 0)
        p s (.answer a) s') :
      Run c d (.operation (.repetition body min max)) p s (.answer a) s'
  | wrap {c d body kind p s a s'} (rest : Run c d (.step body) p s (.answer a) s') :
      Run c d (.operation (.wrap body kind)) p s (.answer (a.wrapped c kind)) s'
  -- rules
  | cancelled {c d rule p s s'} (ask : s.ask = (false, s')) :
      Run c d (.rule rule) p s (.answer (.idle p)) s'
  | hit {c d rule p s s₁ entry recovering} (ask : s.ask = (true, s₁))
      (known : known? c rule p s₁ = some (entry, recovering)) :
      Run c d (.rule rule) p s (.answer (entry.answer c recovering))
        (s₁.record (.hit rule p (entry.taken.map (·.stop))))
  | body {c d rule p s s₁ a s₂} (ask : s.ask = (true, s₁)) (unknown : known? c rule p s₁ = none)
      (rest : Run c d (.step (c.program.rule rule).body) p (s₁.record (.call rule p))
        (.answer a) s₂) :
      Run c d (.rule rule) p s (.answer (a.fromRule p))
        ((keep c rule p (a.entry p) s₂).record (.leave rule (a.taken.map (·.stop))))
  -- sequences
  | seqNil {c d skip isFirst p s} : Run c d (.seq [] skip isFirst) p s (.answer (.idle p)) s
  | seqSkip {c d step rest skip isFirst p s a s'}
      (tail : Run c d (.seq rest skip false) p s (.answer a) s') :
      Run c d (.seq (step :: rest) (skip + 1) isFirst) p s (.answer a) s'
  | seqTook {c d step rest isFirst p s t notes s₁ a s'}
      (head : Run c d (.step step) p s (.answer ⟨some t, notes⟩) s₁)
      (tail : Run c d (.seq rest 0 false) t.stop s₁ (.answer a) s') :
      Run c d (.seq (step :: rest) 0 isFirst) p s (.answer (.behind t notes a)) s'
  | seqFailed {c d step rest isFirst p s notes s'}
      (head : Run c d (.step step) p s (.answer ⟨none, notes⟩) s')
      (final : isFirst = true ∨ c.recoverable? notes = none) :
      Run c d (.seq (step :: rest) 0 isFirst) p s (.answer ⟨none, notes⟩) s'
  | seqEnded {c d step rest p s notes s₁ failure result reach s'}
      (head : Run c d (.step step) p s (.answer ⟨none, notes⟩) s₁)
      (armed : c.recoverable? notes = some failure)
      (scan : Run c d (.search (step :: rest) (c.text.charsFrom (c.trivia p).stop))
        (c.trivia p).stop s₁ (.searched result reach) s')
      (ended : result.index? = none) :
      Run c d (.seq (step :: rest) 0 false) p s
        (.answer ⟨some (c.resumedTaken p failure.expected result),
          notes.join (.seen (max (c.trivia p).reach reach))⟩)
        (s'.recordError (c.resumedError? p result))
  | seqResumed {c d step rest p s notes s₁ failure result reach s₂ index a s'}
      (head : Run c d (.step step) p s (.answer ⟨none, notes⟩) s₁)
      (armed : c.recoverable? notes = some failure)
      (scan : Run c d (.search (step :: rest) (c.text.charsFrom (c.trivia p).stop))
        (c.trivia p).stop s₁ (.searched result reach) s₂)
      (resumed : result.index? = some index)
      (tail : Run c d (.seq rest index false) (c.resumedTaken p failure.expected result).stop
        (s₂.recordError (c.resumedError? p result)) (.answer a) s') :
      Run c d (.seq (step :: rest) 0 false) p s
        (.answer (.behind (c.resumedTaken p failure.expected result)
          (notes.join (.seen (max (c.trivia p).reach reach))) a)) s'
  -- choices
  | choiceNil {c d p s} : Run c d (.choice []) p s (.answer ⟨none, {}⟩) s
  | choiceTook {c d step rest p s t notes s'}
      (head : Run c d (.step step) p s (.answer ⟨some t, notes⟩) s') :
      Run c d (.choice (step :: rest)) p s (.answer ⟨some t, notes⟩) s'
  | choiceNext {c d step rest p s notes s₁ a s'}
      (head : Run c d (.step step) p s (.answer ⟨none, notes⟩) s₁)
      (tail : Run c d (.choice rest) p (s₁.record (.backtrack p)) (.answer a) s') :
      Run c d (.choice (step :: rest)) p s (.answer (.noting notes a)) s'
  -- repetitions
  | exhausted {c d body least most count p s} :
      Run c d (.iterations body least most 0 count) p s (.answer (endRepetition least count p {})) s
  | enough {c d body least most left count p s} (full : most.any (· ≤ count) = true) :
      Run c d (.iterations body least most (left + 1) count) p s
        (.answer (endRepetition least count p {})) s
  | idleIteration {c d body least most left count p s t notes s'}
      (room : most.any (· ≤ count) = false)
      (head : Run c d (.step body) p s (.answer ⟨some t, notes⟩) s') (still : t.stop = p) :
      Run c d (.iterations body least most (left + 1) count) p s
        (.answer (endRepetition least count p notes)) s'
  | nextIteration {c d body least most left count p s t notes s₁ a s'}
      (room : most.any (· ≤ count) = false)
      (head : Run c d (.step body) p s (.answer ⟨some t, notes⟩) s₁) (moved : t.stop ≠ p)
      (tail : Run c d (.iterations body least most left (count + 1)) t.stop s₁ (.answer a) s') :
      Run c d (.iterations body least most (left + 1) count) p s (.answer (.behind t notes a)) s'
  | lastIteration {c d body least most left count p s notes s'}
      (room : most.any (· ≤ count) = false)
      (head : Run c d (.step body) p s (.answer ⟨none, notes⟩) s')
      (final : (1 ≤ count ∨ least = 0) → c.recoverable? notes = none) :
      Run c d (.iterations body least most (left + 1) count) p s
        (.answer (endRepetition least count p notes)) s'
  | lostIteration {c d body least most left count p s notes s₁ failure result reach s'}
      (room : most.any (· ≤ count) = false)
      (head : Run c d (.step body) p s (.answer ⟨none, notes⟩) s₁)
      (started : 1 ≤ count ∨ least = 0) (armed : c.recoverable? notes = some failure)
      (scan : Run c d (.search [body] (c.text.charsFrom (c.trivia p).stop))
        (c.trivia p).stop s₁ (.searched result reach) s')
      (ended : c.resumedIteration? p failure.expected result = none) :
      Run c d (.iterations body least most (left + 1) count) p s
        (.answer (endRepetition least count p
          (notes.join (.seen (max (c.trivia p).reach reach))))) s'
  | foundIteration {c d body least most left count p s notes s₁ failure result reach s₂ t a s'}
      (room : most.any (· ≤ count) = false)
      (head : Run c d (.step body) p s (.answer ⟨none, notes⟩) s₁)
      (started : 1 ≤ count ∨ least = 0) (armed : c.recoverable? notes = some failure)
      (scan : Run c d (.search [body] (c.text.charsFrom (c.trivia p).stop))
        (c.trivia p).stop s₁ (.searched result reach) s₂)
      (resumed : c.resumedIteration? p failure.expected result = some t)
      (tail : Run c d (.iterations body least most left (count + 1)) t.stop
        (s₂.recordError (c.iterationError? p result)) (.answer a) s') :
      Run c d (.iterations body least most (left + 1) count) p s
        (.answer (.behind t (notes.join (.seen (max (c.trivia p).reach reach))) a)) s'
  -- searches
  | trialNil {c d floor index p s} : Run c d (.trial floor index []) p s (.tried none 0) s
  | trialFound {c d floor index step rest p s t notes s'}
      (head : Run c d (.step step) p s (.answer ⟨some t, notes⟩) s') (past : floor < t.stop) :
      Run c d (.trial floor index (step :: rest)) p s
        (.tried (some ⟨index, t.trees, t.stop⟩) notes.reach) s'
  | trialNext {c d floor index step rest p s a s₁ found reach s'}
      (head : Run c d (.step step) p s (.answer a) s₁)
      (short : ∀ t, a.taken = some t → ¬ floor < t.stop)
      (tail : Run c d (.trial floor (index + 1) rest) p s₁ (.tried found reach) s') :
      Run c d (.trial floor index (step :: rest)) p s (.tried found (max a.notes.reach reach)) s'
  | lookRefused {c d steps p s s'} (tick : s.tick = (false, s')) :
      Run c d (.look steps) p s (.looked (some .abandoned) 0) s'
  | lookFound {c d steps p s s₁ found reach s'} (tick : s.tick = (true, s₁))
      (attempts : Run c.strict d (.trial (c.trivia p).stop 0 steps) p s₁
        (.tried (some found) reach) s') :
      Run c d (.look steps) p s (.looked (some (.found p found)) (max (c.trivia p).reach reach)) s'
  | lookStopped {c d steps p s s₁ reach further s'} (tick : s.tick = (true, s₁))
      (attempts : Run c.strict d (.trial (c.trivia p).stop 0 steps) p s₁ (.tried none reach) s')
      (final : c.stopsAt p s' = (true, further)) :
      Run c d (.look steps) p s
        (.looked (some (.stopped p)) (max (max (c.trivia p).reach reach) further)) s'
  | lookPassed {c d steps p s s₁ reach further s'} (tick : s.tick = (true, s₁))
      (attempts : Run c.strict d (.trial (c.trivia p).stop 0 steps) p s₁ (.tried none reach) s')
      (passed : c.stopsAt p s' = (false, further)) :
      Run c d (.look steps) p s (.looked none (max (max (c.trivia p).reach reach) further)) s'
  | searchEnd {c d steps p s result reach s'}
      (here : Run c d (.look steps) p s (.looked result reach) s') :
      Run c d (.search steps []) p s (.searched (result.getD (.stopped p)) reach) s'
  | searchDone {c d steps char rest p s result reach s'}
      (here : Run c d (.look steps) p s (.looked (some result) reach) s') :
      Run c d (.search steps (char :: rest)) p s (.searched result reach) s'
  | searchNext {c d steps char rest p s reach s₁ result further s'}
      (here : Run c d (.look steps) p s (.looked none reach) s₁)
      (tail : Run c d (.search steps rest) (p + char.utf8Size) s₁ (.searched result further) s') :
      Run c d (.search steps (char :: rest)) p s (.searched result (max reach further)) s'

/-- What the functions make of a job. -/
def runJob (c : Setting) (depth position : Nat) (s : State) : Job → Outcome × State
  | .step step =>
    (.answer (evaluate depth c step position s).1, (evaluate depth c step position s).2)
  | .operation step =>
    (.answer (runStep (evaluate depth) c step position s).1,
      (runStep (evaluate depth) c step position s).2)
  | .rule rule =>
    (.answer (runRule (evaluate depth) c rule position s).1,
      (runRule (evaluate depth) c rule position s).2)
  | .seq members skip isFirst =>
    (.answer (runSeq (evaluate depth) c members skip isFirst position s).1,
      (runSeq (evaluate depth) c members skip isFirst position s).2)
  | .choice members =>
    (.answer (runChoice (evaluate depth) c members position s).1,
      (runChoice (evaluate depth) c members position s).2)
  | .iterations body least most left count =>
    (.answer (runIterations (evaluate depth) c body least most left count position s).1,
      (runIterations (evaluate depth) c body least most left count position s).2)
  | .trial floor index steps =>
    let result := tryEach (evaluate depth) c floor position index steps s
    (.tried result.1.1 result.1.2, result.2)
  | .look steps =>
    let result := searchAt (evaluate depth) c steps position s
    (.looked result.1.1 result.1.2, result.2)
  | .search steps rest =>
    let result := search (evaluate depth) c steps rest position s
    (.searched result.1.1 result.1.2, result.2)

section Graph

variable {depth : Nat}
  (hsteps : ∀ c step p s, Run c depth (.step step) p s (runJob c depth p s (.step step)).1
    (runJob c depth p s (.step step)).2)

include hsteps

private theorem run_trial (c : Setting) (floor index : Nat) (steps : List Step) (p : Nat)
    (s : State) :
    Run c depth (.trial floor index steps) p s (runJob c depth p s (.trial floor index steps)).1
      (runJob c depth p s (.trial floor index steps)).2 := by
  induction steps generalizing index s with
  | nil => exact .trialNil
  | cons step rest ih =>
    have hhead := hsteps c step p s
    simp only [runJob, tryEach] at hhead ⊢
    rcases hr : evaluate depth c step p s with ⟨⟨taken, notes⟩, s₁⟩
    rw [hr] at hhead
    have htail := ih (index + 1) s₁
    simp only [runJob] at htail
    cases ht : taken.filter fun t => floor < t.stop with
    | some t =>
      obtain ⟨rfl, hpast⟩ := Option.filter_eq_some_iff.mp ht
      exact .trialFound hhead (by simpa using hpast)
    | none =>
      refine .trialNext hhead ?_ htail
      rintro t rfl
      simpa [Option.filter_eq_none_iff] using ht

private theorem run_look (c : Setting) (steps : List Step) (p : Nat) (s : State) :
    Run c depth (.look steps) p s (runJob c depth p s (.look steps)).1
      (runJob c depth p s (.look steps)).2 := by
  simp only [runJob, searchAt, tryAt]
  rcases htick : s.tick with ⟨_ | _, s₁⟩
  · exact .lookRefused htick
  · have htrial := run_trial hsteps c.strict (c.trivia p).stop 0 steps p s₁
    simp only [runJob] at htrial
    rcases hr : tryEach (evaluate depth) c.strict (c.trivia p).stop p 0 steps s₁ with
      ⟨⟨_ | found, reach⟩, s₂⟩
    · simp only [hr] at htrial ⊢
      rcases hstop : c.stopsAt p s₂ with ⟨_ | _, further⟩
      · exact .lookPassed htick htrial hstop
      · exact .lookStopped htick htrial hstop
    · simp only [hr] at htrial ⊢
      exact .lookFound htick htrial

private theorem run_search (c : Setting) (steps : List Step) (rest : List Char) (p : Nat)
    (s : State) :
    Run c depth (.search steps rest) p s (runJob c depth p s (.search steps rest)).1
      (runJob c depth p s (.search steps rest)).2 := by
  induction rest generalizing p s with
  | nil =>
    have hlook := run_look hsteps c steps p s
    exact .searchEnd hlook
  | cons char rest ih =>
    have hlook := run_look hsteps c steps p s
    simp only [runJob, search] at hlook ⊢
    rcases hr : searchAt (evaluate depth) c steps p s with ⟨⟨_ | result, reach⟩, s₁⟩
    · rw [hr] at hlook
      exact .searchNext hlook (ih (p + char.utf8Size) s₁)
    · rw [hr] at hlook
      exact .searchDone hlook

private theorem run_seq (c : Setting) (members : List Step) (skip : Nat) (isFirst : Bool)
    (p : Nat) (s : State) :
    Run c depth (.seq members skip isFirst) p s
      (runJob c depth p s (.seq members skip isFirst)).1
      (runJob c depth p s (.seq members skip isFirst)).2 := by
  induction members generalizing skip isFirst p s with
  | nil =>
    simp only [runJob, runSeq]
    exact .seqNil
  | cons step rest ih =>
    cases skip with
    | succ skip => exact .seqSkip (ih skip false p s)
    | zero =>
      have hhead := hsteps c step p s
      simp only [runJob, runSeq] at hhead ih ⊢
      rcases hr : evaluate depth c step p s with ⟨⟨_ | t, notes⟩, s₁⟩
      · rw [hr] at hhead
        cases isFirst with
        | true => exact .seqFailed hhead (.inl rfl)
        | false =>
          cases harmed : c.recoverable? notes with
          | none =>
            simp only [Bool.false_eq_true, if_false, harmed]
            exact .seqFailed hhead (.inr harmed)
          | some failure =>
            have hscan := run_search hsteps c (step :: rest)
              (c.text.charsFrom (c.trivia p).stop) (c.trivia p).stop s₁
            simp only [runJob] at hscan
            simp only [Bool.false_eq_true, if_false, harmed, recoverSeq_eq]
            rcases hsearch : search (evaluate depth) c (step :: rest)
              (c.text.charsFrom (c.trivia p).stop) (c.trivia p).stop s₁ with
              ⟨⟨result, reach⟩, s₂⟩
            rw [hsearch] at hscan
            cases hindex : result.index? with
            | none =>
              exact .seqEnded hhead harmed hscan hindex
            | some index =>
              exact .seqResumed hhead harmed hscan hindex (ih _ _ _ _)
      · rw [hr] at hhead
        exact .seqTook hhead (ih _ _ _ _)

private theorem run_choice (c : Setting) (members : List Step) (p : Nat) (s : State) :
    Run c depth (.choice members) p s (runJob c depth p s (.choice members)).1
      (runJob c depth p s (.choice members)).2 := by
  induction members generalizing s with
  | nil => exact .choiceNil
  | cons step rest ih =>
    have hhead := hsteps c step p s
    simp only [runJob, runChoice] at hhead ih ⊢
    rcases hr : evaluate depth c step p s with ⟨⟨_ | t, notes⟩, s₁⟩
    · rw [hr] at hhead
      exact .choiceNext hhead (ih _)
    · rw [hr] at hhead
      exact .choiceTook hhead

private theorem run_iterations (c : Setting) (body : Step) (least : Nat) (most : Option Nat)
    (left count p : Nat) (s : State) :
    Run c depth (.iterations body least most left count) p s
      (runJob c depth p s (.iterations body least most left count)).1
      (runJob c depth p s (.iterations body least most left count)).2 := by
  induction left generalizing count p s with
  | zero => exact .exhausted
  | succ left ih =>
    have hhead := hsteps c body p s
    simp only [runJob, runIterations] at hhead ih ⊢
    cases hroom : most.any (· ≤ count) with
    | true =>
      simp only [if_true]
      exact .enough hroom
    | false =>
      simp only [Bool.false_eq_true, if_false]
      rcases hr : evaluate depth c body p s with ⟨⟨_ | t, notes⟩, s₁⟩
      · rw [hr] at hhead
        by_cases hstarted : 1 ≤ count ∨ least = 0
        · cases harmed : c.recoverable? notes with
          | none =>
            simp only [Bool.or_eq_true, decide_eq_true_eq, hstarted, if_true, harmed]
            exact .lastIteration hroom hhead fun _ => harmed
          | some failure =>
            have hscan := run_search hsteps c [body]
              (c.text.charsFrom (c.trivia p).stop) (c.trivia p).stop s₁
            simp only [runJob] at hscan
            simp only [Bool.or_eq_true, decide_eq_true_eq, hstarted, if_true, harmed,
              recoverRepetition_eq]
            rcases hsearch : search (evaluate depth) c [body]
              (c.text.charsFrom (c.trivia p).stop) (c.trivia p).stop s₁ with
              ⟨⟨result, reach⟩, s₂⟩
            rw [hsearch] at hscan
            cases hfound : c.resumedIteration? p failure.expected result with
            | none =>
              simp only [Setting.iterationError?_of_none hfound, State.recordError]
              exact .lostIteration hroom hhead hstarted harmed hscan hfound
            | some t =>
              exact .foundIteration hroom hhead hstarted harmed hscan hfound (ih _ _ _)
        · simp only [Bool.or_eq_true, decide_eq_true_eq, hstarted, if_false]
          exact .lastIteration hroom hhead fun h => absurd h hstarted
      · rw [hr] at hhead
        by_cases hstill : t.stop = p
        · simp only [hstill, if_true]
          exact .idleIteration hroom hhead hstill
        · simp only [hstill, if_false]
          exact .nextIteration hroom hhead hstill (ih _ _ _)

private theorem run_rule (c : Setting) (rule p : Nat) (s : State) :
    Run c depth (.rule rule) p s (runJob c depth p s (.rule rule)).1
      (runJob c depth p s (.rule rule)).2 := by
  simp only [runJob, runRule]
  rcases hask : s.ask with ⟨_ | _, s₁⟩
  · exact .cancelled hask
  · cases hknown : known? c rule p s₁ with
    | some known =>
      simp only [hknown]
      exact .hit hask hknown
    | none =>
      simp only [hknown]
      exact .body hask hknown (hsteps c (c.program.rule rule).body p _)

private theorem run_operation (c : Setting) (step : Step) (p : Nat) (s : State) :
    Run c depth (.operation step) p s (runJob c depth p s (.operation step)).1
      (runJob c depth p s (.operation step)).2 := by
  cases step with
  | blank => exact .blank
  | token terminal kind immediate => exact .token
  | call rule renamed =>
    have hrest := run_rule hsteps c rule p s
    simp only [runJob, runStep, runCall] at hrest ⊢
    rcases hr : runRule (evaluate depth) c rule p s with ⟨⟨_ | t, notes⟩, s'⟩
    · rw [hr] at hrest
      exact .call hrest
    · simp only [hr] at hrest ⊢
      have hcall : Run c depth (.operation (.call rule renamed)) p s _ _ := .call hrest
      simp only [Answer.called, Option.map_some] at hcall
      by_cases hidle : (s'.isHalted && t.trees.isEmpty) = true
      · simpa only [hidle, Bool.true_or, if_true] using hcall
      · by_cases hhidden : ((c.program.rule rule).hidden && renamed.isNone) = true
        · simpa only [hidle, hhidden, Bool.or_true, Bool.false_eq_true, if_true, if_false]
            using hcall
        · simpa only [hidle, hhidden, Bool.or_false, Bool.false_eq_true, if_false] using hcall
  | seq members => exact .members (run_seq hsteps c members 0 true p s)
  | choice members => exact .alternatives (run_choice hsteps c members p s)
  | repetition body least most => exact .repetition (run_iterations hsteps c body _ _ _ _ p s)
  | wrap body kind => exact .wrap (hsteps c body p s)

end Graph

/-- The functions run every job in one of the ways that `Run` lists. -/
theorem run_runJob (c : Setting) (depth : Nat) (job : Job) (p : Nat) (s : State) :
    Run c depth job p s (runJob c depth p s job).1 (runJob c depth p s job).2 := by
  have hsteps : ∀ c step p s, Run c depth (.step step) p s
      (runJob c depth p s (.step step)).1 (runJob c depth p s (.step step)).2 := by
    induction depth with
    | zero =>
      intro c step p s
      simp only [runJob, evaluate]
      rcases htick : s.tick with ⟨_ | _, s₁⟩
      · exact .refused htick
      · exact .tooDeep htick
    | succ depth ih =>
      intro c step p s
      simp only [runJob, evaluate]
      rcases htick : s.tick with ⟨_ | _, s₁⟩
      · exact .refused htick
      · exact .ticked htick (run_operation ih c step p s₁)
  cases job with
  | step step => exact hsteps c step p s
  | operation step => exact run_operation hsteps c step p s
  | rule rule => exact run_rule hsteps c rule p s
  | seq members skip isFirst => exact run_seq hsteps c members skip isFirst p s
  | choice members => exact run_choice hsteps c members p s
  | iterations body least most left count =>
    exact run_iterations hsteps c body least most left count p s
  | trial floor index steps => exact run_trial hsteps c floor index steps p s
  | look steps => exact run_look hsteps c steps p s
  | search steps rest => exact run_search hsteps c steps rest p s

section Functional

variable {c : Setting} {depth p : Nat} {s s' : State}

/-- The job of a step is to evaluate it. -/
theorem runJob_step_eq {step : Step} {a : Answer} :
    runJob c depth p s (.step step) = (.answer a, s') ↔ evaluate depth c step p s = (a, s') := by
  simp [runJob, Prod.ext_iff]

/-- The job of an operation is to run it, its fuel being spent. -/
theorem runJob_operation_eq {step : Step} {a : Answer} :
    runJob c depth p s (.operation step) = (.answer a, s') ↔
      runStep (evaluate depth) c step p s = (a, s') := by
  simp [runJob, Prod.ext_iff]

/-- The job of a rule is to run it or to use what is kept. -/
theorem runJob_rule_eq {rule : Nat} {a : Answer} :
    runJob c depth p s (.rule rule) = (.answer a, s') ↔
      runRule (evaluate depth) c rule p s = (a, s') := by
  simp [runJob, Prod.ext_iff]

/-- The job of the rest of a sequence is to run its members one after another. -/
theorem runJob_seq_eq {members : List Step} {skip : Nat} {isFirst : Bool} {a : Answer} :
    runJob c depth p s (.seq members skip isFirst) = (.answer a, s') ↔
      runSeq (evaluate depth) c members skip isFirst p s = (a, s') := by
  simp [runJob, Prod.ext_iff]

/-- The job of the rest of a choice is to run its alternatives until one matches. -/
theorem runJob_choice_eq {members : List Step} {a : Answer} :
    runJob c depth p s (.choice members) = (.answer a, s') ↔
      runChoice (evaluate depth) c members p s = (a, s') := by
  simp [runJob, Prod.ext_iff]

/-- The job of what is left of a repetition is to run its iterations. -/
theorem runJob_iterations_eq {body : Step} {least : Nat} {most : Option Nat} {left count : Nat}
    {a : Answer} :
    runJob c depth p s (.iterations body least most left count) = (.answer a, s') ↔
      runIterations (evaluate depth) c body least most left count p s = (a, s') := by
  simp [runJob, Prod.ext_iff]

/-- The job of a trial is to try operations in turn. -/
theorem runJob_trial_eq {floor index : Nat} {steps : List Step} {found : Option Match}
    {reach : Nat} :
    runJob c depth p s (.trial floor index steps) = (.tried found reach, s') ↔
      tryEach (evaluate depth) c floor p index steps s = ((found, reach), s') := by
  simp [runJob, Prod.ext_iff]

/-- The job of a look is to search at one position. -/
theorem runJob_look_eq {steps : List Step} {result : Option Search} {reach : Nat} :
    runJob c depth p s (.look steps) = (.looked result reach, s') ↔
      searchAt (evaluate depth) c steps p s = ((result, reach), s') := by
  simp [runJob, Prod.ext_iff]

/-- The job of a search is to look at one position after another. -/
theorem runJob_search_eq {steps : List Step} {rest : List Char} {result : Search} {reach : Nat} :
    runJob c depth p s (.search steps rest) = (.searched result reach, s') ↔
      search (evaluate depth) c steps rest p s = ((result, reach), s') := by
  simp [runJob, Prod.ext_iff]

/-- A run comes to what the functions make of its job: there is one way to go at most. -/
theorem Run.eq_runJob {c : Setting} {depth : Nat} {job : Job} {p : Nat} {s s' : State}
    {out : Outcome} (h : Run c depth job p s out s') : runJob c depth p s job = (out, s') := by
  induction h <;>
    simp only [runJob_step_eq, runJob_operation_eq, runJob_rule_eq, runJob_seq_eq,
      runJob_choice_eq, runJob_iterations_eq, runJob_trial_eq, runJob_look_eq,
      runJob_search_eq] at *
  case refused d _ _ _ _ tick => cases d <;> simp [evaluate, tick]
  case tooDeep tick => simp [evaluate, tick]
  case ticked tick _ ih => simpa [evaluate, tick] using ih
  case blank => rfl
  case token => rfl
  case call rule renamed _ _ a s' _ ih =>
    rcases a with ⟨_ | t, notes⟩
    · simp [runStep, runCall, ih, Answer.called]
    · simp only [runStep, runCall, ih, Answer.called, Option.map_some]
      by_cases hidle : (s'.isHalted && t.trees.isEmpty) = true
      · simp only [hidle, Bool.true_or, if_true]
      · simp only [hidle, Bool.false_or, Bool.false_eq_true, if_false]
        split <;> rfl
  case members ih => exact ih
  case alternatives ih => exact ih
  case repetition ih => exact ih
  case wrap ih => simp [runStep, runWrap, ih, Answer.wrapped]
  case cancelled ask => simp [runRule, ask]
  case hit ask known => simp [runRule, ask, known]
  case body ask unknown _ ih =>
    simp [runRule, ask, unknown, runBody, ih, Answer.fromRule, Answer.entry]
  case seqNil => simp [runSeq]
  case seqSkip ih => simpa [runSeq] using ih
  case seqTook ih₁ ih₂ => simp [runSeq, ih₁, ih₂]
  case seqFailed final ih =>
    rcases final with rfl | hn
    · simp [runSeq, ih]
    · simp [runSeq, ih, hn]
  case seqEnded armed _ ended ih₁ ih₂ =>
    simp [runSeq, ih₁, armed, recoverSeq_eq, ih₂, ended]
  case seqResumed armed _ resumed _ ih₁ ih₂ ih₃ =>
    simp [runSeq, ih₁, armed, recoverSeq_eq, ih₂, resumed, ih₃]
  case choiceNil => simp [runChoice]
  case choiceTook ih => simp [runChoice, ih]
  case choiceNext ih₁ ih₂ => simp [runChoice, ih₁, ih₂]
  case exhausted => simp [runIterations]
  case enough full => simp [runIterations, full]
  case idleIteration room _ still ih => simp [runIterations, room, ih, still]
  case nextIteration room _ moved _ ih₁ ih₂ => simp [runIterations, room, ih₁, moved, ih₂]
  case lastIteration least most left count p _ notes _ room _ final ih =>
    by_cases hstarted : 1 ≤ count ∨ least = 0
    · simp [runIterations, room, ih, hstarted, final hstarted]
    · simp [runIterations, room, ih, hstarted]
  case lostIteration result _ _ room _ started armed _ ended ih₁ ih₂ =>
    have hquiet := Setting.iterationError?_of_none ended
    simp [runIterations, room, ih₁, started, armed, recoverRepetition_eq, ih₂, ended, hquiet,
      State.recordError]
  case foundIteration room _ started armed _ resumed _ ih₁ ih₂ ih₃ =>
    simp [runIterations, room, ih₁, started, armed, recoverRepetition_eq, ih₂, resumed, ih₃]
  case trialNil => simp [tryEach]
  case trialFound past ih => simp [tryEach, ih, Option.filter, past]
  case trialNext floor _ _ _ _ _ a _ _ _ _ _ short _ ih₁ ih₂ =>
    have hshort : (a.taken.filter fun t => floor < t.stop) = none := by
      simpa [Option.filter_eq_none_iff] using short
    simp [tryEach, ih₁, hshort, ih₂]
  case lookRefused tick => simp [searchAt, tick]
  case lookFound tick _ ih => simp [searchAt, tick, tryAt, ih]
  case lookStopped tick _ final ih => simp [searchAt, tick, tryAt, ih, final]
  case lookPassed tick _ passed ih => simp [searchAt, tick, tryAt, ih, passed]
  case searchEnd ih => simp [search, ih]
  case searchDone ih => simp [search, ih]
  case searchNext ih₁ ih₂ => simp [search, ih₁, ih₂]

end Functional

/-- `Run` is the graph of the functions. -/
theorem run_iff {c : Setting} {depth : Nat} {job : Job} {p : Nat} {s s' : State} {out : Outcome} :
    Run c depth job p s out s' ↔ runJob c depth p s job = (out, s') := by
  refine ⟨Run.eq_runJob, fun h => ?_⟩
  have hrun := run_runJob c depth job p s
  rwa [h] at hrun

end Packrat
