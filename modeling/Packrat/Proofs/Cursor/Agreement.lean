import Packrat.Proofs.Cursor.Basic
import Packrat.Proofs.Parse.Notes

/-!
# The cursor and the answers

What an operation does to a cursor is told by its answer: it pushes what the answer takes and joins
its notes to those that are there, and where the answer takes nothing, the position, the trees and
the errors are as they were. `Cursor.eval_eq` says so of every operation, with one lemma for each
function of the machine, all of them under the assumption that it holds of the operations inside.
-/

namespace Packrat

namespace Answer

/-- What is taken in three parts, grouped from either side. -/
theorem behind_behind (t u : Taken) (notes more : Notes) (a : Answer) :
    Answer.behind t notes (.behind u more a) = .behind (t.andThen u) (notes.join more) a := by
  rcases a with ⟨_ | v, rest⟩ <;>
    simp [behind, Taken.andThen, Notes.join_assoc]

end Answer

namespace Cursor

/-- The cursor after an operation with some answer. -/
def after (k : Cursor) (a : Answer) (s : State) : Cursor where
  position := (a.taken.map (·.stop)).getD k.position
  trees := k.trees ++ (a.taken.map (·.trees)).getD []
  errors := k.errors ++ (a.taken.map (·.errors)).getD []
  far := furthest k.far a.notes.far
  frontier := greater k.frontier a.notes.frontier
  examined := max k.examined a.notes.reach
  state := s

/-- What an operation with some answer tells and what it leaves. -/
def resume (k : Cursor) (r : Answer × State) : Bool × Cursor :=
  (r.1.taken.isSome, k.after r.1 r.2)

/-- Whether a way to run operations on cursors does what the answers tell. -/
def Follows (crun : CursorEvaluator) (run : Evaluator) : Prop :=
  ∀ c op k, crun c op k = k.resume (run c op k.position k.state)

section

variable {k : Cursor} {t : Taken} {notes : Notes} {a : Answer} {s s' : State}

/-- After an operation, the state is the one that the operation left. -/
@[simp] theorem after_state (k : Cursor) (a : Answer) (s : State) : (k.after a s).state = s := rfl

/-- An operation that takes something leaves the cursor at its end. -/
@[simp] theorem after_position_some :
    (k.after ⟨some t, notes⟩ s).position = t.stop := rfl

/-- An operation that takes nothing leaves the cursor where it was. -/
@[simp] theorem after_position_none : (k.after ⟨none, notes⟩ s).position = k.position := rfl

/-- An operation that does nothing leaves the cursor as it is. -/
@[simp] theorem after_idle (k : Cursor) : k.after (.idle k.position) k.state = k := by
  ext1 <;> simp [after, Answer.idle]

/-- A change of the state alone is that of an operation that does nothing. -/
theorem with_state (k : Cursor) (s : State) :
    ({ k with state := s } : Cursor) = k.after (.idle k.position) s := by
  ext1 <;> simp [after, Answer.idle]

/-- An event behind an operation is one of the state that the operation left. -/
theorem after_record (k : Cursor) (a : Answer) (s : State) (e : Event) :
    (k.after a s).record e = k.after a (s.record e) := rfl

/-- Two operations one after the other. -/
theorem after_after (t u : Taken) (notes more : Notes) (s s' : State) :
    (k.after ⟨some t, notes⟩ s).after ⟨some u, more⟩ s' =
      k.after ⟨some (t.andThen u), notes.join more⟩ s' := by
  ext1 <;> simp [after, Taken.andThen, furthest_assoc, greater_assoc, Nat.max_assoc]

/-- Notes alone make no difference to what is taken before them. -/
theorem after_noted (t : Option Taken) (notes more : Notes) (s s' : State) :
    (k.after ⟨t, notes⟩ s).after ⟨none, more⟩ s' = k.after ⟨t, notes.join more⟩ s' := by
  cases t <;> ext1 <;> simp [after, furthest_assoc, greater_assoc, Nat.max_assoc]

/-- Behind an operation that took nothing, another one adds its answer and joins its notes. -/
theorem after_of_noted (u : Option Taken) (notes more : Notes) (s s' : State) :
    (k.after ⟨none, notes⟩ s).after ⟨u, more⟩ s' = k.after ⟨u, notes.join more⟩ s' := by
  cases u <;> ext1 <;> simp [after, furthest_assoc, greater_assoc, Nat.max_assoc]

/-- Going back to a mark leaves nothing but the notes. -/
theorem reset_after (k : Cursor) (t : Option Taken) (notes : Notes) (s : State) :
    (k.after ⟨t, notes⟩ s).reset k.mark = k.after ⟨none, notes⟩ s := by
  cases t <;> ext1 <;> simp [after, reset, mark]

/-- A look at the text behind an operation could be among the notes of the operation. -/
theorem look_after (k : Cursor) (t : Option Taken) (notes : Notes) (s : State) (reach : Nat) :
    (k.after ⟨t, notes⟩ s).look reach = k.after ⟨t, notes.join (.seen reach)⟩ s := by
  cases t <;> ext1 <;> simp [after, look, Nat.max_assoc]

/-- Closing a node over what an operation pushed. -/
theorem closeNode_after (c : Setting) (k : Cursor) (t : Taken) (notes : Notes) (s : State)
    (kind : Nat) :
    (k.after ⟨some t, notes⟩ s).closeNode c k.mark.trees kind =
      k.after ⟨some { t with trees := c.close kind t.trees }, notes⟩ s := by
  -- the trivia in front and the trees behind it are the two parts of what was pushed
  have hparts : t.trees.takeWhile c.isTrivia ++ t.trees.dropWhile c.isTrivia = t.trees :=
    List.takeWhile_append_dropWhile
  have hfront : t.trees.take (t.trees.takeWhile c.isTrivia).length =
      t.trees.takeWhile c.isTrivia := by
    have htake : (t.trees.takeWhile c.isTrivia ++ t.trees.dropWhile c.isTrivia).take
        (t.trees.takeWhile c.isTrivia).length = t.trees.takeWhile c.isTrivia := List.take_left
    rwa [hparts] at htake
  have hback : t.trees.drop (t.trees.takeWhile c.isTrivia).length =
      t.trees.dropWhile c.isTrivia := by
    have hdrop : (t.trees.takeWhile c.isTrivia ++ t.trees.dropWhile c.isTrivia).drop
        (t.trees.takeWhile c.isTrivia).length = t.trees.dropWhile c.isTrivia := List.drop_left
    rwa [hparts] at hdrop
  ext1 <;> simp [closeNode, after, mark, Setting.close, List.take_length_add_append,
    List.drop_length_add_append, hfront, hback]

end

/-- Trivia is pushed like what an operation takes. -/
theorem skipExtras_eq (c : Setting) (k : Cursor) :
    k.skipExtras c =
      k.after ⟨some ⟨(c.trivia k.position).stop, (c.trivia k.position).leaves, []⟩,
        .seen (c.trivia k.position).reach⟩ k.state := by
  ext1 <;> simp [skipExtras, look, push, after]

/-- A token does to the cursor what its answer tells. -/
theorem token_eq (c : Setting) (terminal kind : Nat) (immediate : Bool) (k : Cursor) :
    k.token c terminal kind immediate =
      k.resume (runToken c terminal kind immediate k.position k.state) := by
  obtain ⟨trivia, htrivia⟩ : ∃ trivia, trivia =
      if immediate then (⟨[], k.position, 0⟩ : Trivia) else c.trivia k.position := ⟨_, rfl⟩
  have hbehind : (if immediate then k else k.skipExtras c) =
      k.after ⟨some ⟨trivia.stop, trivia.leaves, []⟩, .seen trivia.reach⟩ k.state := by
    rw [htrivia]
    cases immediate with
    | false => exact skipExtras_eq c k
    | true => ext1 <;> simp [after]
  simp only [token, runToken, ← htrivia, hbehind, after_position_some, look_after]
  cases hlength : ((c.program.terminal terminal).scanAt c.text trivia.stop).length with
  | none =>
    refine Prod.ext rfl ?_
    by_cases hpoint : c.isPoint trivia.stop = true <;>
      ext1 <;> simp [after, resume, expect, reset, record, mark, hpoint]
  | some n =>
    by_cases hn : n = 0
    · subst hn
      refine Prod.ext rfl ?_
      ext1 <;> simp [after, resume, record]
    · simp only [hn, if_false]
      refine Prod.ext rfl ?_
      ext1 <;> simp [after, resume, record, push]

/-- A result that is used again does to the cursor what its answer tells. -/
theorem replay_eq (c : Setting) (entry : Entry) (recovering : Bool) (k : Cursor) :
    k.replay c entry recovering = k.resume (entry.answer c recovering, k.state) := by
  simp only [replay]
  cases htaken : entry.taken with
  | none =>
    refine Prod.ext (by simp [resume, Entry.answer, htaken]) ?_
    ext1 <;> simp [after, resume, Entry.answer, look, htaken]
  | some t =>
    refine Prod.ext (by simp [resume, Entry.answer, htaken]) ?_
    ext1 <;> simp [after, resume, Entry.answer, look, push, htaken]

/-- A repetition that ends early goes back to where it began; else it keeps what its iterations
took. -/
theorem leave_eq (k : Cursor) (least count : Nat) (t : Taken) (notes more : Notes) (s : State) :
    (k.after ⟨some t, notes.join more⟩ s).leave least k.mark count =
      k.resume (.behind t notes (endRepetition least count t.stop more), s) := by
  by_cases hfew : count < least
  · simp only [leave, endRepetition, hfew, if_true, reset_after]
    rfl
  · simp only [leave, endRepetition, hfew, if_false]
    refine Prod.ext rfl ?_
    simp [resume, Answer.behind, Taken.andThen]

section

variable {crun : CursorEvaluator} {run : Evaluator} (hrun : Follows crun run) (c : Setting)
  (k : Cursor)

include hrun

/-- The body of a rule does to the cursor what its answer tells. -/
theorem enter_eq (number : Nat) :
    k.enter crun c number = k.resume (runBody run c number k.position k.state) := by
  obtain ⟨r, hr⟩ : ∃ r, r = run c (c.program.rule number).body k.position
      (k.state.record (.call number k.position)) := ⟨_, rfl⟩
  simp only [enter, runBody, hrun c, record, ← hr]
  rcases r with ⟨⟨_ | t, notes⟩, s⟩
  · refine Prod.ext rfl ?_
    ext1 <;> simp [after, resume, Answer.entry]
  · refine Prod.ext rfl ?_
    ext1 <;> simp [after, resume, Answer.entry, mark]

/-- A rule does to the cursor what its answer tells, whether it is run or a result is used again. -/
theorem rule_eq (number : Nat) :
    k.rule crun c number = k.resume (runRule run c number k.position k.state) := by
  simp only [rule, runRule]
  rcases hask : k.state.ask with ⟨_ | _, s⟩
  · exact Prod.ext rfl (with_state k s)
  · cases hknown : known? c number k.position s with
    | some found =>
      simp only [hknown, replay_eq]
      rfl
    | none =>
      simp only [hknown, enter_eq hrun]
      rfl

/-- A call does to the cursor what its answer tells, the node around the trees included. -/
theorem call_eq (number : Nat) (renamed : Option Nat) :
    k.call crun c number renamed =
      k.resume (runCall run c number renamed k.position k.state) := by
  simp only [call, runCall, rule_eq hrun]
  rcases runRule run c number k.position k.state with ⟨⟨_ | t, notes⟩, s⟩
  · rfl
  · -- nothing was pushed just where the rule took no trees
    have hpushed : (k.after ⟨some t, notes⟩ s).trees.length = k.mark.trees ↔ t.trees = [] := by
      simp [after, mark]
    by_cases hidle : s.isHalted = true ∧ t.trees = []
    · simp [resume, hpushed, hidle]
    · by_cases hhidden : ((c.program.rule number).hidden && renamed.isNone) = true
      · simp [resume, hpushed, hhidden]
      · have hclosed := closeNode_after c k t notes s (renamed.getD (c.program.rule number).kind)
        simpa [resume, hpushed, hidle, hhidden] using hclosed

/-- A name for a part does to the cursor what its answer tells. -/
theorem wrap_eq (body : Step) (kind : Nat) :
    k.wrap crun c body kind = k.resume (runWrap run c body kind k.position k.state) := by
  simp only [wrap, runWrap, hrun c body k]
  rcases run c body k.position k.state with ⟨⟨_ | t, notes⟩, s⟩
  · rfl
  · exact Prod.ext rfl (closeNode_after c k t notes s kind)

/-- What attempts find is what the answers tell, and what they leave behind are looks at the text,
once their failures are forgotten. -/
theorem attempt_eq (floor position index : Nat) (steps : List Step) :
    (k.attempt crun c floor position index steps).1 =
        (tryEach run c floor position index steps k.state).1.1 ∧
      { (k.attempt crun c floor position index steps).2 with
          far := k.far, frontier := k.frontier } =
        k.after ⟨none, .seen (tryEach run c floor position index steps k.state).1.2⟩
          (tryEach run c floor position index steps k.state).2 := by
  induction steps generalizing index k with
  | nil =>
    refine ⟨rfl, ?_⟩
    ext1 <;> simp [attempt, tryEach, after]
  | cons step steps ih =>
    simp only [attempt, tryEach, hrun c]
    rcases run c step position k.state with ⟨⟨taken, notes⟩, s⟩
    cases hmatch : taken.filter fun t => floor < t.stop with
    | some t =>
      obtain ⟨rfl, hpast⟩ := Option.filter_eq_some_iff.mp hmatch
      have hlt : floor < t.stop := of_decide_eq_true hpast
      refine ⟨by simp [resume, after, mark, hlt], ?_⟩
      ext1 <;> simp [resume, after, reset, mark, hlt]
    | none =>
      have hshort : ∀ t, taken = some t → ¬ floor < t.stop := by
        simpa [Option.filter_eq_none_iff] using hmatch
      -- going back leaves the notes of the attempt, whether it failed or ended too early
      obtain ⟨k₁, hk₁⟩ : ∃ k₁ : Cursor, k₁ =
          { k with
            far := furthest k.far notes.far
            frontier := greater k.frontier notes.frontier
            examined := max k.examined notes.reach
            state := s } := ⟨_, rfl⟩
      have hback : (({ k with position := position } : Cursor).after ⟨taken, notes⟩ s).reset
          k.mark = k₁ := by
        rw [hk₁]
        cases taken <;> ext1 <;> simp [after, reset, mark]
      obtain ⟨hfound, hleft⟩ := ih k₁ (index + 1)
      have hstate : k₁.state = s := by rw [hk₁]
      rw [hstate] at hfound hleft
      have hforget := congrArg
        (fun u : Cursor => { u with far := k.far, frontier := k.frontier }) hleft
      have hjoined : { k₁.after
            ⟨none, .seen (tryEach run c floor position (index + 1) steps s).1.2⟩
            (tryEach run c floor position (index + 1) steps s).2 with
            far := k.far, frontier := k.frontier } =
          k.after ⟨none, .seen (max notes.reach
            (tryEach run c floor position (index + 1) steps s).1.2)⟩
            (tryEach run c floor position (index + 1) steps s).2 := by
        rw [hk₁]
        ext1 <;> simp [after, Nat.max_assoc]
      cases taken with
      | none =>
        simp only [resume, Option.isSome_none, Bool.false_and, Bool.false_eq_true, if_false, hback]
        exact ⟨hfound, hforget.trans hjoined⟩
      | some t =>
        simp only [resume, Option.isSome_some, Bool.true_and, after_position_some,
          decide_eq_true_eq, hshort t rfl, if_false, hback]
        exact ⟨hfound, hforget.trans hjoined⟩

/-- Strict attempts at a position leave nothing on the cursor but a look at the text. -/
theorem attemptAt_eq (steps : List Step) (position : Nat) :
    k.attemptAt crun c steps position =
      ((tryAt run c steps position k.state).1.1,
        k.after ⟨none, .seen (tryAt run c steps position k.state).1.2⟩
          (tryAt run c steps position k.state).2) := by
  obtain ⟨k₁, hk₁⟩ : ∃ k₁ : Cursor, k₁ = k.look (c.trivia position).reach := ⟨_, rfl⟩
  have hback : (({ k with position := position } : Cursor).skipExtras c).reset k.mark = k₁ := by
    rw [hk₁]
    ext1 <;> simp [skipExtras, reset, mark, look, push]
  obtain ⟨hfound, hleft⟩ := attempt_eq hrun c.strict k₁ (c.trivia position).stop position 0 steps
  have hstate : k₁.state = k.state := by rw [hk₁]; rfl
  have hfar : k₁.far = k.far ∧ k₁.frontier = k.frontier := by rw [hk₁]; exact ⟨rfl, rfl⟩
  rw [hstate] at hfound hleft
  rw [hfar.1, hfar.2] at hleft
  simp only [attemptAt, tryAt, hback]
  refine Prod.ext hfound (hleft.trans ?_)
  rw [hk₁]
  ext1 <;> simp [after, look, Nat.max_assoc]

/-- A search ends as the answers tell, and leaves nothing behind but looks at the text. -/
theorem scan_eq (steps : List Step) (rest : List Char) (position : Nat) :
    k.scan crun c steps rest position =
      ((search run c steps rest position k.state).1.1,
        k.after ⟨none, .seen (search run c steps rest position k.state).1.2⟩
          (search run c steps rest position k.state).2) := by
  induction rest generalizing k position with
  | nil =>
    simp only [scan, search, searchAt]
    rcases htick : k.state.tick with ⟨_ | _, s⟩
    · refine Prod.ext rfl ?_
      ext1 <;> simp [after]
    · simp only [attemptAt_eq hrun]
      rcases tryAt run c steps position s with ⟨⟨_ | found, reach⟩, s'⟩
      · simp only [after_state, look_after]
        rcases hstops : c.stopsAt position s' with ⟨_ | _, further⟩ <;> exact Prod.ext rfl rfl
      · exact Prod.ext rfl rfl
  | cons char rest ih =>
    rw [scan]
    simp only [search, searchAt]
    rcases htick : k.state.tick with ⟨_ | _, s⟩
    · refine Prod.ext rfl ?_
      ext1 <;> simp [after]
    · simp only [attemptAt_eq hrun]
      rcases tryAt run c steps position s with ⟨⟨_ | found, reach⟩, s'⟩
      · simp only [after_state, look_after]
        rcases hstops : c.stopsAt position s' with ⟨_ | _, further⟩
        · simp only [Bool.false_eq_true, if_false, ih, after_state]
          refine Prod.ext rfl ?_
          exact after_of_noted none _ _ _ _
        · exact Prod.ext rfl rfl
      · exact Prod.ext rfl rfl

/-- A recovery in a sequence does to the cursor what it takes. -/
theorem recoverSeq_eq (members : List Step) (expected : List Nat) :
    k.recoverSeq crun c members expected =
      ((Packrat.recoverSeq run c members expected k.position k.state).1.index,
        k.after ⟨some (Packrat.recoverSeq run c members expected k.position k.state).1.taken,
            .seen (Packrat.recoverSeq run c members expected k.position k.state).1.reach⟩
          (Packrat.recoverSeq run c members expected k.position k.state).2) := by
  simp only [recoverSeq, Packrat.recoverSeq, searchBehind, skipExtras_eq, after_position_some,
    scan_eq hrun, after_state, after_noted]
  rcases search run c members (c.text.charsFrom (c.trivia k.position).stop)
    (c.trivia k.position).stop k.state with ⟨⟨⟨start, found⟩ | stop | _, reach⟩, s⟩
  · by_cases hskipped : (c.trivia k.position).stop < start ∨ 0 < found.index
    · simp only [Bool.or_eq_true, decide_eq_true_eq, hskipped, if_true]
      refine Prod.ext rfl ?_
      ext1 <;> simp [after, emitError, record, push, Taken.andThen, Setting.takenError]
    · simp only [Bool.or_eq_true, decide_eq_true_eq, hskipped, if_false]
      refine Prod.ext rfl ?_
      ext1 <;> simp [after, push, Taken.andThen]
  · refine Prod.ext rfl ?_
    ext1 <;> simp [after, emitError, record, Taken.andThen, Setting.takenError]
  · exact Prod.ext rfl rfl

/-- A recovery in a repetition does to the cursor what it takes, or looks at the text only. -/
theorem recoverRepetition_eq (body : Step) (expected : List Nat) :
    k.recoverRepetition crun c body expected =
      k.resume
        (⟨(Packrat.recoverRepetition run c body expected k.position k.state).1.1,
          .seen (Packrat.recoverRepetition run c body expected k.position k.state).1.2⟩,
          (Packrat.recoverRepetition run c body expected k.position k.state).2) := by
  simp only [recoverRepetition, Packrat.recoverRepetition, searchBehind, skipExtras_eq,
    after_position_some, scan_eq hrun, after_state, after_noted]
  rcases search run c [body] (c.text.charsFrom (c.trivia k.position).stop)
    (c.trivia k.position).stop k.state with ⟨⟨⟨start, found⟩ | stop | _, reach⟩, s⟩
  · by_cases hskipped : (c.trivia k.position).stop < start
    · simp only [hskipped, if_true]
      refine Prod.ext rfl ?_
      ext1 <;> simp [after, resume, emitError, record, push, Taken.andThen, Setting.takenError]
    · simp only [hskipped, if_false]
      refine Prod.ext rfl ?_
      ext1 <;> simp [after, resume, push, Taken.andThen]
  · exact Prod.ext rfl (reset_after k _ _ s)
  · exact Prod.ext rfl (reset_after k _ _ s)

/-- An operation whose failures are noted apart does the same as one whose failures are joined at
once. -/
theorem apart_eq (op : Step) :
    k.apart crun c op =
      ((run c op k.position k.state).1.taken.isSome, (run c op k.position k.state).1.notes.far,
        k.after (run c op k.position k.state).1 (run c op k.position k.state).2) := by
  simp only [apart, hrun c]
  refine Prod.ext rfl (Prod.ext ?_ ?_)
  · simp [resume, after]
  · ext1 <;> simp [resume, after]

/-- Operations in order, behind what was taken since the mark was set. -/
theorem seq_eq (members : List Step) (skip : Nat) (isFirst : Bool) (t : Taken) (notes : Notes)
    (s : State) :
    (k.after ⟨some t, notes⟩ s).seq crun c k.mark members skip isFirst =
      k.resume (.behind t notes (runSeq run c members skip isFirst t.stop s).1,
        (runSeq run c members skip isFirst t.stop s).2) := by
  induction members generalizing skip isFirst t notes s with
  | nil =>
    refine Prod.ext rfl ?_
    simp [seq, runSeq, resume, Answer.behind, Answer.idle, Taken.andThen]
  | cons op rest ih =>
    cases skip with
    | succ skip => exact ih skip false t notes s
    | zero =>
      simp only [seq, runSeq, apart_eq hrun, after_position_some, after_state]
      rcases run c op t.stop s with ⟨⟨_ | u, more⟩, s₁⟩
      · simp only [Option.isSome_none, after_noted]
        have hown : c.recoverable? { far := more.far } = c.recoverable? more := rfl
        rw [hown]
        cases hfailure : (if isFirst then none else c.recoverable? more) with
        | none => exact Prod.ext rfl (reset_after k _ _ s₁)
        | some failure =>
          simp only [recoverSeq_eq hrun, after_position_some, after_state]
          rcases Packrat.recoverSeq run c (op :: rest) failure.expected t.stop s₁ with
            ⟨⟨v, _ | index, reach⟩, s₂⟩
          · simp only [after_after, Notes.join_assoc]
            rfl
          · simp only [after_after, Notes.join_assoc, ih, Answer.behind_behind]
            rfl
      · simp only [Option.isSome_some, after_after, ih, Answer.behind_behind]
        rfl

/-- Alternatives, behind those that were given up since the mark was set. -/
theorem choice_eq (members : List Step) (notes : Notes) (s : State) :
    (k.after ⟨none, notes⟩ s).choice crun c k.mark members =
      k.resume (.noting notes (runChoice run c members k.position s).1,
        (runChoice run c members k.position s).2) := by
  induction members generalizing notes s with
  | nil =>
    refine Prod.ext rfl ?_
    simp [choice, runChoice, resume, Answer.noting]
  | cons op rest ih =>
    simp only [choice, runChoice, hrun c, after_position_none, after_state]
    rcases run c op k.position s with ⟨⟨_ | u, more⟩, s₁⟩
    · simp only [resume, Option.isSome_none, after_noted, reset_after, after_record]
      have hrest := ih (notes.join more) (s₁.record (.backtrack k.position))
      simp only [Answer.noting, Notes.join_assoc] at hrest ⊢
      exact hrest
    · simp only [resume, Option.isSome_some, after_of_noted]
      rfl

/-- The iterations of a repetition, behind those that were run since the mark was set. -/
theorem iterations_eq (body : Step) (least : Nat) (most : Option Nat) (left count : Nat)
    (t : Taken) (notes : Notes) (s : State) :
    (k.after ⟨some t, notes⟩ s).iterations crun c body least most k.mark left count =
      k.resume (.behind t notes (runIterations run c body least most left count t.stop s).1,
        (runIterations run c body least most left count t.stop s).2) := by
  induction left generalizing count t notes s with
  | zero =>
    have hleave := leave_eq k least count t notes {} s
    rwa [Notes.join_empty] at hleave
  | succ left ih =>
    simp only [iterations, runIterations]
    by_cases hfull : most.any (· ≤ count) = true
    · simp only [hfull, if_true]
      have hleave := leave_eq k least count t notes {} s
      rwa [Notes.join_empty] at hleave
    · simp only [hfull, Bool.false_eq_true, if_false, apart_eq hrun, after_position_some,
        after_state]
      rcases run c body t.stop s with ⟨⟨_ | u, more⟩, s₁⟩
      · simp only [Option.isSome_none, after_noted]
        have hown : c.recoverable? { far := more.far } = c.recoverable? more := rfl
        rw [hown]
        cases hfailure : (if 1 ≤ count || least = 0 then c.recoverable? more else none) with
        | none => exact leave_eq k least count t notes more s₁
        | some failure =>
          simp only [recoverRepetition_eq hrun, after_position_some, after_state]
          rcases Packrat.recoverRepetition run c body failure.expected t.stop s₁ with
            ⟨⟨_ | v, reach⟩, s₂⟩
          · simp only [resume, Option.isSome_none, after_noted, Notes.join_assoc]
            exact leave_eq k least count t notes (more.join (.seen reach)) s₂
          · simp only [resume, Option.isSome_some, after_after, Notes.join_assoc, ih,
              Answer.behind_behind]
            rfl
      · have hposition : (k.after ⟨some t, notes⟩ s).mark.position = t.stop := rfl
        simp only [Option.isSome_some, after_position_some, hposition]
        by_cases hstill : u.stop = t.stop
        · simp only [hstill, if_true, reset_after, after_noted]
          exact leave_eq k least count t notes more s₁
        · simp only [hstill, if_false, after_after, ih, Answer.behind_behind]
          rfl

/-- An operation does to the cursor what its answer tells, if those inside it do. -/
theorem step_eq (op : Step) :
    k.step crun c op = k.resume (runStep run c op k.position k.state) := by
  -- an operation starts behind nothing at all
  have hstart : k.after ⟨some { stop := k.position }, {}⟩ k.state = k := after_idle k
  have hnothing : k.after ⟨none, {}⟩ k.state = k := by
    ext1 <;> simp [after]
  have hbehind : ∀ a : Answer, Answer.behind { stop := k.position } {} a = a := by
    rintro ⟨_ | t, notes⟩ <;> simp [Answer.behind, Taken.andThen, Notes.join]
  have hnoting : ∀ a : Answer, Answer.noting {} a = a := by
    rintro ⟨t, notes⟩
    simp [Answer.noting, Notes.join]
  cases op with
  | blank => exact Prod.ext rfl (after_idle k).symm
  | token terminal kind immediate => exact token_eq c terminal kind immediate k
  | call number renamed => exact call_eq hrun c k number renamed
  | seq members =>
    have hseq := seq_eq hrun c k members 0 true { stop := k.position } {} k.state
    rwa [hstart, hbehind] at hseq
  | choice members =>
    have hchoice := choice_eq hrun c k members {} k.state
    rwa [hnothing, hnoting] at hchoice
  | repetition body least most =>
    have hiterations := iterations_eq hrun c k body least.toNat (most.map (·.toNat))
      (c.text.size + 1 - k.position) 0 { stop := k.position } {} k.state
    rwa [hstart, hbehind] at hiterations
  | wrap body kind => exact wrap_eq hrun c k body kind

end

/-- Operations on a cursor do to it what the answers tell. -/
theorem eval_eq (depth : Nat) : Follows (eval depth) (evaluate depth) := by
  induction depth with
  | zero =>
    intro c op k
    simp only [eval, evaluate]
    rcases k.state.tick with ⟨_ | _, s⟩ <;> exact Prod.ext rfl (with_state k _)
  | succ depth ih =>
    intro c op k
    simp only [eval, evaluate]
    rcases k.state.tick with ⟨_ | _, s⟩
    · exact Prod.ext rfl (with_state k s)
    · exact step_eq ih c { k with state := s } op

end Cursor

end Packrat
