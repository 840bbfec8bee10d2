import Packrat.Proofs.Careful.Basic
import Packrat.Proofs.Parse.Events

/-!
# Careful parses make no slip

From a boundary, with kept results that fit the text and stand at its boundaries, a careful run
makes no slip and comes to what the run comes to: `Run.careful` is the induction over runs. Rounds
keep to the same, and so does the trace, as its events tell of stretches between boundaries.
-/

namespace Packrat

/-- What a careful parse relies on in the kept results. -/
structure Memo.Sits (text : Text) (points : List Nat) (m : Memo) : Prop where
  fits : m.Fits text points
  anchored : m.Anchored text

/-- Settling drops results and adds none, so those that are kept still stand at boundaries. -/
theorem Memo.Sits.settle {text : Text} {points : List Nat} {m : Memo} (h : m.Sits text points)
    (points' : List Nat) : m.settle.Sits text points' :=
  ⟨h.fits.settle points', h.anchored.settle⟩

/-- What a run comes to fits the text and ends at a boundary, and so does all that it keeps. -/
theorem Run.sits {c : Setting} {d : Nat} {job : Job} {p : Nat} {s s' : State} {out : Outcome}
    (h : Run c d job p s out s') (hready : job.Ready c p) (hmemo : s.memo.Sits c.text c.points) :
    (out.Fits c p ∧ out.Anchored c.text) ∧ s'.memo.Sits c.text c.points := by
  obtain ⟨hfits, hfits'⟩ := h.fits hready hmemo.fits
  obtain ⟨hanchored, hanchored'⟩ := h.anchored hready hmemo.fits hmemo.anchored
  exact ⟨⟨hfits, hanchored⟩, hfits', hanchored'⟩

namespace Careful

variable {α β : Type} {text : Text}

/-- A careful step without a slip hands on what it came to. -/
@[simp] theorem ok_bind (a : α) (f : α → Careful β) : (.ok a : Careful α) >>= f = f a := rfl

/-- What is handed on makes no slip. -/
@[simp] theorem pure_eq (a : α) : (pure a : Careful α) = .ok a := rfl

/-- Steps without a slip, one for each thing, come to what each comes to. -/
theorem mapM_eq {f : α → Careful β} {f' : α → β} {l : List α} (h : ∀ a ∈ l, f a = .ok (f' a)) :
    l.mapM f = .ok (l.map f') := by
  induction l with
  | nil => rfl
  | cons a l ih =>
    rw [List.forall_mem_cons] at h
    rw [List.mapM_cons, h.1, ok_bind, ih h.2]
    rfl

/-- Checks of which each passes pass together. -/
theorem forM_eq {f : α → Careful Unit} {l : List α} (h : ∀ a ∈ l, f a = .ok ()) :
    l.forM f = .ok () := by
  induction l with
  | nil => rfl
  | cons a l ih =>
    rw [List.forall_mem_cons] at h
    rw [List.forM, h.1, ok_bind, ih h.2]

/-- Moving to a boundary is no slip. -/
theorem reach_eq {p : Nat} (h : text.isBoundary p = true) : reach text p = .ok () := by
  rw [reach, if_pos h]

/-- A stretch between boundaries is no slip. -/
theorem stretch_eq {start stop : Nat} (h : text.Spans start stop) :
    stretch text start stop = .ok () := by
  rw [stretch, reach_eq h.start, ok_bind, reach_eq h.stop, ok_bind, if_neg (Nat.not_lt.mpr h.le)]
  rfl

/-- The text between boundaries is cut out without a slip. -/
theorem slice_eq {start stop : Nat} (h : text.Spans start stop) :
    slice text start stop = .ok (text.slice start stop) := by
  rw [slice, stretch_eq h]
  rfl

/-- What ends at a boundary, with errors over stretches between boundaries, is taken without a
slip. -/
theorem taken_eq {t : Taken} (hstop : text.isBoundary t.stop = true)
    (herrors : ∀ e ∈ t.errors, text.Spans e.start e.stop) : taken text t = .ok () := by
  rw [taken, reach_eq hstop, ok_bind]
  exact forM_eq fun e he => stretch_eq (herrors e he)

/-- A result that ends at a boundary is kept and used again without a slip. -/
theorem entry_eq {e : Entry} (h : ∀ t, e.taken = some t →
      text.isBoundary t.stop = true ∧ ∀ e ∈ t.errors, text.Spans e.start e.stop) :
    entry text e = .ok () := by
  rw [entry]
  cases ht : e.taken with
  | none => rfl
  | some t => exact taken_eq (h t ht).1 (h t ht).2

section

variable (c : Setting)

/-- The leaf of a piece between boundaries is made without a slip. -/
theorem leaf_eq {p : Piece} (h : c.text.Spans p.start p.stop) : leaf c p = .ok (c.leaf p) := by
  rw [leaf, slice_eq h]
  rfl

/-- The leaves of pieces that cover a stretch are made without a slip. -/
theorem mapM_leaf_eq {ps : List Piece} {start stop : Nat} (h : Piece.Covers c.text ps start stop) :
    ps.mapM (leaf c) = .ok (ps.map c.leaf) := by
  refine mapM_eq fun p hp => leaf_eq c ?_
  induction ps generalizing start with
  | nil => cases hp
  | cons q qs ih =>
    obtain ⟨rfl, hlt, hstart, hstop, hqs⟩ := h
    rcases List.mem_cons.mp hp with rfl | hp
    · exact ⟨Nat.le_of_lt hlt, hstart, hstop⟩
    · exact ih hqs hp

/-- Extras match from boundary to boundary, so the pieces are found without a slip. -/
theorem extraPieces_eq (count position : Nat) :
    extraPieces c count position = .ok (c.extraPieces count position) := by
  induction count generalizing position with
  | zero => rfl
  | succ count ih =>
    rw [extraPieces, Setting.extraPieces]
    rcases hfirst : c.firstExtra position c.program.extras with ⟨_ | piece, examined⟩
    · rfl
    · obtain ⟨-, -, -, hstop, -⟩ := c.firstExtra_eq_some (by rw [hfirst])
      simp only [reach_eq hstop, ok_bind, ih, pure_eq]

/-- Trivia from a boundary on are found without a slip. -/
theorem trivia_eq {p : Nat} (hp : c.text.isBoundary p = true) :
    trivia c p = .ok (c.trivia p) := by
  obtain ⟨stop, hcovers, -⟩ := c.extraPieces_covers (c.text.size + 1 - p) p
  rw [trivia, reach_eq hp, ok_bind, extraPieces_eq, ok_bind]
  simp only [mapM_leaf_eq c hcovers.foldr_push, ok_bind, pure_eq, Setting.trivia]

/-- An error over a stretch between boundaries is taken without a slip. -/
theorem takenError_eq {start stop : Nat} (h : c.text.Spans start stop) (expected : List Nat) :
    takenError c start stop expected = .ok (c.takenError start stop expected) := by
  rw [takenError, stretch_eq h, ok_bind, errorNode]
  by_cases hlt : start < stop
  · simp only [if_pos hlt, leaf_eq c (p := ⟨skippedKind, start, stop⟩) h, ok_bind, pure_eq,
      Setting.takenError, Setting.errorNode]
  · simp only [if_neg hlt, ok_bind, pure_eq, Setting.takenError, Setting.errorNode]

/-- What stands in front of a token is found without a slip. -/
theorem front_eq (immediate : Bool) {p : Nat} (hp : c.text.isBoundary p = true) :
    front c immediate p = .ok (if immediate then ⟨[], p, 0⟩ else c.trivia p) := by
  cases immediate with
  | true => rfl
  | false => exact trivia_eq c hp

/-- The leaf of a token, if it has one, is made without a slip. -/
theorem leaves_eq {kind start n : Nat} (h : c.text.Spans start (start + n)) :
    leaves c ⟨kind, start, start + n⟩ =
      .ok (if n = 0 then [] else [c.leaf ⟨kind, start, start + n⟩]) := by
  by_cases hn : n = 0
  · have heq : start + n = start := by omega
    rw [leaves, if_pos heq, if_pos hn, pure_eq]
  · have hne : ¬ start + n = start := by omega
    rw [leaves, if_neg hne, if_neg hn, List.mapM_cons, leaf_eq c h]
    rfl

/-- A token at a boundary is matched without a slip. -/
theorem runToken_eq (terminal kind : Nat) (immediate : Bool) {p : Nat} (s : State)
    (hp : c.text.isBoundary p = true) :
    runToken c terminal kind immediate p s =
      .ok (Packrat.runToken c terminal kind immediate p s) := by
  simp only [runToken, Packrat.runToken, front_eq c immediate hp, ok_bind]
  generalize (if immediate then (⟨[], p, 0⟩ : Trivia) else c.trivia p) = trivia
  cases hlength : ((c.program.terminal terminal).scanAt c.text trivia.stop).length with
  | none => rfl
  | some n =>
    obtain ⟨hstart, hstop⟩ := Terminal.isBoundary_of_scanAt_length hlength
    simp only [leaves_eq c ⟨Nat.le_add_right _ _, hstart, hstop⟩, ok_bind, pure_eq]

end

section

variable {run : CarefulEvaluator} {c : Setting} {p : Nat} {s s' : State}

/-- An operation that is run at a boundary and comes to something fitting ends without a slip. -/
theorem runAt_eq {step : Step} {a : Answer} (h : run c step p s = .ok (a, s'))
    (hp : c.text.isBoundary p = true) (ha : a.Fits c p ∧ a.Anchored c.text) :
    runAt run c step p s = .ok (a, s') := by
  simp only [runAt, reach_eq hp, h, ok_bind]
  cases ht : a.taken with
  | none => rfl
  | some t =>
    simp only [taken_eq (ha.1.isBoundary hp ht) (ha.2.errors t ht), ok_bind, pure_eq]

/-- A recovery in a sequence makes no slip when its search makes none. -/
theorem recoverSeq_eq {members : List Step} {result : Search} {examined : Nat}
    (h : search run c members (c.text.charsFrom (c.trivia p).stop) (c.trivia p).stop s =
      .ok ((result, examined), s')) (expected : List Nat) (hp : c.text.isBoundary p = true)
    (hresult : result.Fits c (c.trivia p).stop) :
    recoverSeq run c members expected p s =
      .ok (⟨c.resumedTaken p expected result, result.index?, max (c.trivia p).reach examined⟩,
        s'.recordError (c.resumedError? p result)) := by
  have hspans := Setting.resumedError?_spans hp hresult
  simp only [recoverSeq, trivia_eq c hp, searchBehind, h, ok_bind, pure_eq]
  cases result with
  | abandoned => rfl
  | stopped stop =>
    have herror := takenError_eq c (hspans _ rfl) expected
    simp only [herror, ok_bind]
    rfl
  | found start m =>
    simp only [Setting.resumedTaken, Setting.resumedError?] at hspans ⊢
    split
    · rename_i hskipped
      have herror := takenError_eq c (hspans _ (if_pos hskipped)) expected
      simp only [herror, ok_bind]
      rfl
    · rfl

/-- A recovery in a repetition makes no slip when its search makes none. -/
theorem recoverRepetition_eq {body : Step} {result : Search} {examined : Nat}
    (h : search run c [body] (c.text.charsFrom (c.trivia p).stop) (c.trivia p).stop s =
      .ok ((result, examined), s')) (expected : List Nat) (hp : c.text.isBoundary p = true)
    (hresult : result.Fits c (c.trivia p).stop) :
    recoverRepetition run c body expected p s =
      .ok ((c.resumedIteration? p expected result, max (c.trivia p).reach examined),
        s'.recordError (c.iterationError? p result)) := by
  have hspans := Setting.iterationError?_spans hp hresult
  simp only [recoverRepetition, trivia_eq c hp, searchBehind, h, ok_bind, pure_eq]
  cases result with
  | abandoned => rfl
  | stopped stop => rfl
  | found start m =>
    simp only [Setting.resumedIteration?, Setting.resumedTaken, Setting.iterationError?,
      Setting.resumedError?, Nat.lt_irrefl, decide_false, Bool.or_false,
      decide_eq_true_eq] at hspans ⊢
    split
    · rename_i hskipped
      have herror := takenError_eq c (hspans _ (if_pos hskipped)) expected
      simp only [herror, ok_bind]
      rfl
    · rfl

end

/-- Whether a careful run makes no slip and comes to something. -/
def Agrees (c : Setting) (d p : Nat) (s : State) : Job → Outcome → State → Prop
  | .step step, .answer a, s' => runAt (evaluate d) c step p s = .ok (a, s')
  | .operation step, .answer a, s' => runStep (evaluate d) c step p s = .ok (a, s')
  | .rule rule, .answer a, s' => runRule (evaluate d) c rule p s = .ok (a, s')
  | .seq members skip isFirst, .answer a, s' =>
    runSeq (evaluate d) c members skip isFirst p s = .ok (a, s')
  | .choice members, .answer a, s' => runChoice (evaluate d) c members p s = .ok (a, s')
  | .iterations body least most left count, .answer a, s' =>
    runIterations (evaluate d) c body least most left count p s = .ok (a, s')
  | .trial floor index steps, .tried found examined, s' =>
    tryEach (evaluate d) c floor p index steps s = .ok ((found, examined), s')
  | .look steps, .looked result examined, s' =>
    searchAt (evaluate d) c steps p s = .ok ((result, examined), s')
  | .search steps rest, .searched result examined, s' =>
    search (evaluate d) c steps rest p s = .ok ((result, examined), s')
  | _, _, _ => False

end Careful

namespace Careful

variable {c : Setting} {d p : Nat} {s s' : State}

/-- A call makes no slip when the rule makes none. -/
theorem runCall_eq {rule : Nat} {renamed : Option Nat} {a : Answer}
    (h : runRule (evaluate d) c rule p s = .ok (a, s')) :
    runCall (evaluate d) c rule renamed p s = .ok (a.called c rule renamed s'.isHalted, s') := by
  rw [runCall, h, ok_bind]
  rcases a with ⟨_ | t, notes⟩
  · rfl
  · simp only [Answer.called, Option.map_some]
    cases (s'.isHalted && t.trees.isEmpty) with
    | true => rfl
    | false =>
      cases ((c.program.rule rule).hidden && renamed.isNone) with
      | true => rfl
      | false => rfl

/-- A result that is used again ends at a boundary. -/
theorem entry_known {rule : Nat} {known : Entry} {recovering : Bool}
    (h : known? c rule p s = some (known, recovering)) (hp : c.text.isBoundary p = true)
    (hmemo : s.memo.Sits c.text c.points) : entry c.text known = .ok () := by
  have hfits := Entry.answer_fits hmemo.fits h
  have hanchored := Entry.answer_anchored hmemo.fits hmemo.anchored h
  exact entry_eq fun t ht => ⟨hfits.isBoundary hp ht, hanchored.errors t ht⟩

/-- A result that is kept ends at a boundary. -/
theorem runBody_eq {rule : Nat} {a : Answer}
    (h : runAt (evaluate d) c (c.program.rule rule).body p (s.record (.call rule p)) = .ok (a, s'))
    (hp : c.text.isBoundary p = true) (ha : a.Fits c p ∧ a.Anchored c.text) :
    runBody (evaluate d) c rule p s = .ok (a.fromRule p,
      (keep c rule p (a.entry p) s').record (.leave rule (a.taken.map (·.stop)))) := by
  have hkept : entry c.text (a.entry p) = .ok () :=
    entry_eq fun t ht => ⟨ha.1.isBoundary hp ht, ha.2.errors t ht⟩
  simp only [runBody, h, hkept, ok_bind]
  rfl

/-- Attempts behind the trivia at a position. -/
theorem tryAt_eq {steps : List Step} {found : Option Match} {examined : Nat}
    (h : tryEach (evaluate d) c.strict (c.trivia p).stop p 0 steps s = .ok ((found, examined), s'))
    (hp : c.text.isBoundary p = true) :
    tryAt (evaluate d) c steps p s = .ok ((found, max (c.trivia p).reach examined), s') := by
  simp only [tryAt, trivia_eq c hp, h, ok_bind, pure_eq]

/-- The rest of the text from a boundary on can be cut off. -/
theorem stretch_rest (hp : c.text.isBoundary p = true) :
    stretch c.text p c.text.size = .ok () :=
  stretch_eq ⟨Text.le_size_of_isBoundary hp, hp, c.text.isBoundary_size⟩

end Careful

open Careful in
/-- A careful run from a boundary makes no slip and comes to what the run comes to. -/
theorem Run.careful {c : Setting} {d : Nat} {job : Job} {p : Nat} {s s' : State} {out : Outcome}
    (h : Run c d job p s out s') (hready : job.Ready c p)
    (hmemo : s.memo.Sits c.text c.points) : Agrees c d p s job out s' := by
  induction h with
  | @refused c d step p s s' tick =>
    have heval : Careful.evaluate d c step p s = .ok (.idle p, s') := by
      cases d <;> simp [Careful.evaluate, tick]
    exact runAt_eq heval hready ⟨.idle, .idle p⟩
  | @tooDeep c step p s s' tick =>
    have heval : Careful.evaluate 0 c step p s = .ok (.idle p, s'.stop .tooDeep) := by
      simp [Careful.evaluate, tick]
    exact runAt_eq heval hready ⟨.idle, .idle p⟩
  | @ticked c d step p s s₁ a s' tick rest ih =>
    have hkept := (State.of_tick_true tick).2.2.1
    have hmemo₁ : s₁.memo.Sits c.text c.points := hkept ▸ hmemo
    have heval : Careful.evaluate (d + 1) c step p s = .ok (a, s') := by
      simp only [Careful.evaluate, tick]
      exact ih hready hmemo₁
    exact runAt_eq heval hready (rest.sits hready hmemo₁).1
  | blank => rfl
  | token => exact runToken_eq _ _ _ _ _ hready
  | call rest ih => exact runCall_eq (ih hready hmemo)
  | members rest ih => exact ih hready hmemo
  | alternatives rest ih => exact ih hready hmemo
  | repetition rest ih => exact ih hready hmemo
  | @wrap c d body kind p s a s' rest ih =>
    have hbody : runAt (Careful.evaluate d) c body p s = .ok (a, s') := ih hready hmemo
    simp only [Agrees, Careful.runStep, Careful.runWrap, hbody, ok_bind]
    rfl
  | cancelled ask => simp only [Agrees, Careful.runRule, ask, pure_eq]
  | @hit c d rule p s s₁ known recovering ask found =>
    have hkept := (State.of_ask_true ask).2.2.1
    have hentry := entry_known found hready (hkept ▸ hmemo)
    simp only [Agrees, Careful.runRule, ask, found, hentry, ok_bind, pure_eq]
  | @body c d rule p s s₁ a s₂ ask unknown rest ih =>
    have hkept := (State.of_ask_true ask).2.2.1
    have hmemo₁ : (s₁.record (.call rule p)).memo.Sits c.text c.points := hkept ▸ hmemo
    have hbody := runBody_eq (ih hready hmemo₁) hready (rest.sits hready hmemo₁).1
    simp only [Agrees, Careful.runRule, ask, unknown, hbody]
  | seqNil => rfl
  | seqSkip tail ih => exact ih hready hmemo
  | @seqTook c d step rest isFirst p s t notes s₁ a s' head tail ihhead ihtail =>
    have hhead : runAt (Careful.evaluate d) c step p s = .ok (⟨some t, notes⟩, s₁) :=
      ihhead hready hmemo
    obtain ⟨⟨hfirst, -⟩, hmemo₁⟩ := head.sits hready hmemo
    have htail : Careful.runSeq (Careful.evaluate d) c rest 0 false t.stop s₁ = .ok (a, s') :=
      ihtail (hfirst.isBoundary hready rfl) hmemo₁
    simp only [Agrees, Careful.runSeq, hhead, htail, ok_bind, pure_eq]
  | @seqFailed c d step rest isFirst p s notes s' head final ih =>
    have hhead : runAt (Careful.evaluate d) c step p s = .ok (⟨none, notes⟩, s') :=
      ih hready hmemo
    have hnone : (if isFirst then none else c.recoverable? notes) = none := by
      rcases final with rfl | hfinal
      · rfl
      · rw [hfinal, ite_self]
    simp only [Agrees, Careful.runSeq, hhead, hnone, ok_bind, pure_eq]
  | @seqEnded c d step rest p s notes s₁ failure result reach s' head armed scan ended ihhead
      ihscan =>
    have hhead : runAt (Careful.evaluate d) c step p s = .ok (⟨none, notes⟩, s₁) :=
      ihhead hready hmemo
    have hready₁ := Job.ready_search hready (step :: rest)
    have hmemo₁ := (head.sits hready hmemo).2
    have hscan := Careful.recoverSeq_eq (ihscan hready₁ hmemo₁) failure.expected hready
      (scan.sits hready₁ hmemo₁).1.1
    simp only [Agrees, Careful.runSeq, hhead, armed, hscan, ended, ok_bind, pure_eq,
      Bool.false_eq_true, if_false]
  | @seqResumed c d step rest p s notes s₁ failure result reach s₂ index a s' head armed scan
      resumed tail ihhead ihscan ihtail =>
    have hhead : runAt (Careful.evaluate d) c step p s = .ok (⟨none, notes⟩, s₁) :=
      ihhead hready hmemo
    have hready₁ := Job.ready_search hready (step :: rest)
    have hmemo₁ := (head.sits hready hmemo).2
    obtain ⟨⟨hresult, -⟩, hmemo₂⟩ := scan.sits hready₁ hmemo₁
    have hscan := Careful.recoverSeq_eq (ihscan hready₁ hmemo₁) failure.expected hready hresult
    have hstop := Setting.isBoundary_resumedTaken_stop failure.expected hready hresult
    have htail : Careful.runSeq (Careful.evaluate d) c rest index false
        (c.resumedTaken p failure.expected result).stop
        (s₂.recordError (c.resumedError? p result)) = .ok (a, s') :=
      ihtail hstop (by rwa [State.recordError_memo])
    simp only [Agrees, Careful.runSeq, hhead, armed, hscan, resumed, htail, ok_bind, pure_eq,
      Bool.false_eq_true, if_false]
  | choiceNil => rfl
  | @choiceTook c d step rest p s t notes s' head ih =>
    have hhead : runAt (Careful.evaluate d) c step p s = .ok (⟨some t, notes⟩, s') :=
      ih hready hmemo
    simp only [Agrees, Careful.runChoice, hhead, ok_bind, pure_eq]
  | @choiceNext c d step rest p s notes s₁ a s' head tail ihhead ihtail =>
    have hhead : runAt (Careful.evaluate d) c step p s = .ok (⟨none, notes⟩, s₁) :=
      ihhead hready hmemo
    have htail : Careful.runChoice (Careful.evaluate d) c rest p (s₁.record (.backtrack p)) =
        .ok (a, s') := ihtail hready (head.sits hready hmemo).2
    simp only [Agrees, Careful.runChoice, hhead, htail, ok_bind, pure_eq]
  | exhausted => rfl
  | enough full => simp only [Agrees, Careful.runIterations, full, if_true, pure_eq]
  | @idleIteration c d body least most left count p s t notes s' room head still ih =>
    have hhead : runAt (Careful.evaluate d) c body p s = .ok (⟨some t, notes⟩, s') :=
      ih hready hmemo
    simp only [Agrees, Careful.runIterations, room, hhead, still, ok_bind, pure_eq,
      Bool.false_eq_true, if_false, if_true]
  | @nextIteration c d body least most left count p s t notes s₁ a s' room head moved tail ihhead
      ihtail =>
    have hhead : runAt (Careful.evaluate d) c body p s = .ok (⟨some t, notes⟩, s₁) :=
      ihhead hready hmemo
    obtain ⟨⟨hfirst, -⟩, hmemo₁⟩ := head.sits hready hmemo
    have htail : Careful.runIterations (Careful.evaluate d) c body least most left (count + 1)
        t.stop s₁ = .ok (a, s') := ihtail (hfirst.isBoundary hready rfl) hmemo₁
    simp only [Agrees, Careful.runIterations, room, hhead, moved, htail, ok_bind, pure_eq,
      Bool.false_eq_true, if_false]
  | @lastIteration c d body least most left count p s notes s' room head final ih =>
    have hhead : runAt (Careful.evaluate d) c body p s = .ok (⟨none, notes⟩, s') :=
      ih hready hmemo
    have hnone : (if 1 ≤ count || least = 0 then c.recoverable? notes else none) = none := by
      split
      · rename_i hstarted
        simp only [Bool.or_eq_true, decide_eq_true_eq] at hstarted
        exact final hstarted
      · rfl
    simp only [Agrees, Careful.runIterations, room, hhead, hnone, ok_bind, pure_eq,
      Bool.false_eq_true, if_false]
  | @lostIteration c d body least most left count p s notes s₁ failure result reach s' room head
      started armed scan ended ihhead ihscan =>
    have hhead : runAt (Careful.evaluate d) c body p s = .ok (⟨none, notes⟩, s₁) :=
      ihhead hready hmemo
    have hready₁ := Job.ready_search hready [body]
    have hmemo₁ := (head.sits hready hmemo).2
    have hscan := Careful.recoverRepetition_eq (ihscan hready₁ hmemo₁) failure.expected hready
      (scan.sits hready₁ hmemo₁).1.1
    have hstarted : (1 ≤ count || least = 0) = true := by simpa using started
    rw [ended, Setting.iterationError?_of_none ended] at hscan
    simp only [Agrees, Careful.runIterations, room, hhead, hstarted, armed, hscan, ok_bind, pure_eq,
      Bool.false_eq_true, if_false, if_true]
    rfl
  | @foundIteration c d body least most left count p s notes s₁ failure result reach s₂ t a s' room
      head started armed scan resumed tail ihhead ihscan ihtail =>
    have hhead : runAt (Careful.evaluate d) c body p s = .ok (⟨none, notes⟩, s₁) :=
      ihhead hready hmemo
    have hready₁ := Job.ready_search hready [body]
    have hmemo₁ := (head.sits hready hmemo).2
    obtain ⟨⟨hresult, -⟩, hmemo₂⟩ := scan.sits hready₁ hmemo₁
    have hscan :=
      Careful.recoverRepetition_eq (ihscan hready₁ hmemo₁) failure.expected hready hresult
    have hstop :=
      Setting.isBoundary_resumedIteration?_stop failure.expected hready hresult resumed
    have htail : Careful.runIterations (Careful.evaluate d) c body least most left (count + 1)
        t.stop (s₂.recordError (c.iterationError? p result)) = .ok (a, s') :=
      ihtail hstop (by rwa [State.recordError_memo])
    have hstarted : (1 ≤ count || least = 0) = true := by simpa using started
    rw [resumed] at hscan
    simp only [Agrees, Careful.runIterations, room, hhead, hstarted, armed, hscan, htail, ok_bind,
      pure_eq, Bool.false_eq_true, if_false, if_true]
  | trialNil => rfl
  | @trialFound c d floor index step rest p s t notes s' head past ih =>
    have hhead : runAt (Careful.evaluate d) c step p s = .ok (⟨some t, notes⟩, s') :=
      ih hready hmemo
    simp only [Agrees, Careful.tryEach, hhead, Option.filter_some, past, decide_true, if_true,
      ok_bind, pure_eq]
  | @trialNext c d floor index step rest p s a s₁ found reach s' head short tail ihhead ihtail =>
    have hhead : runAt (Careful.evaluate d) c step p s = .ok (a, s₁) := ihhead hready hmemo
    have hnone : (a.taken.filter fun t => floor < t.stop) = none := by
      simpa [Option.filter_eq_none_iff] using short
    have htail : Careful.tryEach (Careful.evaluate d) c floor p (index + 1) rest s₁ =
        .ok ((found, reach), s') := ihtail hready (head.sits hready hmemo).2
    simp only [Agrees, Careful.tryEach, hhead, hnone, htail, ok_bind, pure_eq]
  | lookRefused tick => simp only [Agrees, Careful.searchAt, tick, pure_eq]
  | lookFound tick attempts ih =>
    have hkept := (State.of_tick_true tick).2.2.1
    have htrial := tryAt_eq (ih hready (hkept ▸ hmemo)) hready
    simp only [Agrees, Careful.searchAt, tick, htrial, ok_bind, pure_eq]
  | lookStopped tick attempts final ih =>
    have hkept := (State.of_tick_true tick).2.2.1
    have htrial := tryAt_eq (ih hready (hkept ▸ hmemo)) hready
    simp only [Agrees, Careful.searchAt, tick, htrial, final, ok_bind, pure_eq]
  | lookPassed tick attempts passed ih =>
    have hkept := (State.of_tick_true tick).2.2.1
    have htrial := tryAt_eq (ih hready (hkept ▸ hmemo)) hready
    simp only [Agrees, Careful.searchAt, tick, htrial, passed, ok_bind, pure_eq]
  | @searchEnd c d steps p s result reach s' here ih =>
    have hlook : Careful.searchAt (Careful.evaluate d) c steps p s =
        .ok ((result, reach), s') := ih hready.1 hmemo
    simp only [Agrees, Careful.search, stretch_rest hready.1, hlook, ok_bind, pure_eq]
  | @searchDone c d steps char rest p s result reach s' here ih =>
    have hlook : Careful.searchAt (Careful.evaluate d) c steps p s =
        .ok ((some result, reach), s') := ih hready.1 hmemo
    simp only [Agrees, Careful.search, stretch_rest hready.1, hlook, ok_bind, pure_eq]
  | @searchNext c d steps char rest p s reach s₁ result further s' here tail ihhere ihtail =>
    have hlook : Careful.searchAt (Careful.evaluate d) c steps p s =
        .ok ((none, reach), s₁) := ihhere hready.1 hmemo
    have htail : Careful.search (Careful.evaluate d) c steps rest (p + char.utf8Size) s₁ =
        .ok ((result, further), s') := ihtail hready.next (here.sits hready.1 hmemo).2
    simp only [Agrees, Careful.search, stretch_rest hready.1, hlook, htail, ok_bind, pure_eq]

end Packrat
