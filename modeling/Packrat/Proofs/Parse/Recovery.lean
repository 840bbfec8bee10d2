import Mathlib.Data.List.TakeWhile
import Packrat.Proofs.Parse.ErrorNodes
import Packrat.Proofs.Parse.Meeting
import Packrat.Proofs.Parse.Search
import Packrat.Proofs.Parse.Trivia

/-!
# Where error nodes come from

Every error node in what a run takes comes from the recovery of a sequence or of a repetition that
the parse meets, and covers what the search of this recovery skipped. The trees that follow it are
only ever added to, so this goes on to hold when results are kept and used again and when nodes are
closed. `Run.recovers` is the induction that carries it, for parses that go on.
-/

/-!
## Nodes and what follows them

`Tree.EachAmong` says that something holds of every node of a kind among trees in a row, of its
range and of the trees behind it in the same node. If it goes on to hold when more trees follow, it
goes on to hold when trees are put behind others and when a node is closed over them.
-/

namespace Packrat

namespace Tree

mutual

/-- Whether something holds of every node of a kind in a tree that starts at an offset and has
some trees behind it: of the start and of the end of the node and of the trees behind it. -/
def Each (wanted : Nat) (P : Nat → Nat → List Tree → Prop) (start : Nat) : Tree → List Tree → Prop
  | leaf _ _, _ => True
  | node kind children, behind =>
    (kind = wanted → P start (start + sizeAmong children) behind) ∧
      EachAmong wanted P start children

/-- The same for trees that follow each other. -/
def EachAmong (wanted : Nat) (P : Nat → Nat → List Tree → Prop) (start : Nat) : List Tree → Prop
  | [] => True
  | t :: ts => t.Each wanted P start ts ∧ EachAmong wanted P (start + t.size) ts

end

/-- Whether something goes on to hold of a node when more trees follow. -/
def Persists (P : Nat → Nat → List Tree → Prop) : Prop :=
  ∀ start stop behind more, P start stop behind → P start stop (behind ++ more)

variable {wanted start : Nat} {P : Nat → Nat → List Tree → Prop}

/-- Leaves have no nodes in them. -/
theorem eachAmong_of_leaves {ts : List Tree} (h : ∀ t ∈ ts, ∃ kind text, t = leaf kind text) :
    EachAmong wanted P start ts := by
  induction ts generalizing start with
  | nil => trivial
  | cons t ts ih =>
    rw [List.forall_mem_cons] at h
    obtain ⟨⟨kind, text, rfl⟩, hts⟩ := h
    exact ⟨trivial, ih hts⟩

/-- What holds of trees in a row holds of the last of them. -/
theorem EachAmong.of_append {as bs : List Tree} (h : EachAmong wanted P start (as ++ bs)) :
    EachAmong wanted P (start + sizeAmong as) bs := by
  induction as generalizing start with
  | nil => exact h
  | cons a as ih =>
    have htail := ih h.2
    rwa [Nat.add_assoc] at htail

/-- What persists goes on to hold of each node when more trees follow. -/
theorem Each.append {t : Tree} {behind : List Tree} (h : t.Each wanted P start behind)
    (hP : Persists P) (more : List Tree) : t.Each wanted P start (behind ++ more) := by
  cases t with
  | leaf kind text => trivial
  | node kind children => exact ⟨fun hkind => hP _ _ _ more (h.1 hkind), h.2⟩

/-- Trees may be put behind others. -/
theorem EachAmong.append {as bs : List Tree} (has : EachAmong wanted P start as) (hP : Persists P)
    (hbs : EachAmong wanted P (start + sizeAmong as) bs) :
    EachAmong wanted P start (as ++ bs) := by
  induction as generalizing start with
  | nil => exact hbs
  | cons a as ih =>
    have htail : EachAmong wanted P (start + a.size + sizeAmong as) bs := by
      rwa [Nat.add_assoc]
    exact ⟨has.1.append hP bs, ih has.2 htail⟩

/-- Trees may be put behind others that cover a stretch of a text. -/
theorem EachAmong.append_of_tiles {text : Text} {as bs : List Tree} {stop : Nat}
    (has : EachAmong wanted P start as) (hP : Persists P) (htiles : TilesAll text as start stop)
    (hbs : EachAmong wanted P stop bs) : EachAmong wanted P start (as ++ bs) := by
  have hstop := TilesAll.size_eq as htiles
  exact has.append hP (hstop ▸ hbs)

/-- A node of another kind may be closed over trees. -/
theorem EachAmong.close {c : Setting} {kind : Nat} {trees : List Tree}
    (h : EachAmong wanted P start trees) (hP : Persists P) (hkind : kind ≠ wanted) :
    EachAmong wanted P start (c.close kind trees) := by
  have hbefore : EachAmong wanted P start (trees.takeWhile c.isTrivia) := by
    refine eachAmong_of_leaves fun t ht => ?_
    cases t with
    | leaf kind text => exact ⟨kind, text, rfl⟩
    | node kind children =>
      have htrivia : c.isTrivia (node kind children) = true := List.mem_takeWhile_imp ht
      cases htrivia
  rw [← List.takeWhile_append_dropWhile (p := c.isTrivia) (l := trees)] at h
  exact hbefore.append hP ⟨⟨fun heq => absurd heq hkind, h.of_append⟩, trivial⟩

end Tree

end Packrat

/-! ## Error nodes and recoveries -/

namespace Packrat

/-- The trees of what a search found. -/
def Search.trees : Search → List Tree
  | found _ m => m.trees
  | _ => []

/-- `m.Mends steps start stop trees` says that a sequence or a repetition is recovered from at a
moment with an error over a stretch. Some operations were looked for: the members of the sequence
from the failed one on, or the body of the repetition. The trees are those of what was found. -/
inductive Moment.Mends : Moment → List Step → (start stop : Nat) → List Tree → Prop
  | seq {c d step rest p s notes s₁ failure result reach s₂ start stop}
      (head : Run c d (.step step) p s (.answer ⟨none, notes⟩) s₁)
      (armed : c.recoverable? notes = some failure)
      (scan : Run c d (.search (step :: rest) (c.text.charsFrom (c.trivia p).stop))
        (c.trivia p).stop s₁ (.searched result reach) s₂)
      (error : c.resumedError? p result = some (start, stop)) :
      Mends ⟨c, d, .seq (step :: rest) 0 false, p, s⟩ (step :: rest) start stop result.trees
  | iteration {c d body least most left count p s notes s₁ failure result reach s₂ start stop}
      (room : most.any (· ≤ count) = false)
      (head : Run c d (.step body) p s (.answer ⟨none, notes⟩) s₁)
      (started : 1 ≤ count ∨ least = 0) (armed : c.recoverable? notes = some failure)
      (scan : Run c d (.search [body] (c.text.charsFrom (c.trivia p).stop))
        (c.trivia p).stop s₁ (.searched result reach) s₂)
      (error : c.iterationError? p result = some (start, stop)) :
      Mends ⟨c, d, .iterations body least most (left + 1) count, p, s⟩ [body] start stop
        result.trees

/-- Whether a recovery that a parse meets makes an error over a stretch of a text where some trees
are behind it: it skips no more than it must, and the trees of what it found come first. -/
def Program.Recovers (g : Program) (o : ParseOptions) (text : Text) (start stop : Nat)
    (behind : List Tree) : Prop :=
  ∃ m steps found, g.Meets o text m ∧ m.Mends steps start stop found ∧ found <+: behind ∧
    g.Skips text steps start stop behind

/-- An error that a recovery makes is over what its search skipped. -/
theorem Search.Skips.of_resumedError? {g : Program} {text : Text} {steps : List Step}
    {c : Setting} {p start stop : Nat} {result : Search}
    (h : result.Skips g text steps (c.trivia p).stop)
    (herror : c.resumedError? p result = some (start, stop)) :
    g.Skips text steps start stop result.trees := by
  cases result with
  | abandoned => cases herror
  | stopped stop => cases herror; exact h
  | found start m =>
    rw [Setting.resumedError?] at herror
    split at herror
    · cases herror
      exact h
    · cases herror

/-- An error that the recovery of a repetition makes is over what its search skipped. -/
theorem Search.Skips.of_iterationError? {g : Program} {text : Text} {steps : List Step}
    {c : Setting} {p start stop : Nat} {result : Search}
    (h : result.Skips g text steps (c.trivia p).stop)
    (herror : c.iterationError? p result = some (start, stop)) :
    g.Skips text steps start stop result.trees := by
  cases result with
  | found start m =>
    have hfirst :
        Search.Skips g text steps (c.trivia p).stop (.found start { m with index := 0 }) := h
    exact hfirst.of_resumedError? herror
  | stopped => cases herror
  | abandoned => cases herror

/-- The recovery of a moment that a parse meets is one of those of the parse. -/
theorem Moment.Mends.recovers {g : Program} {o : ParseOptions} {text : Text} {m : Moment}
    {steps : List Step} {start stop : Nat} {trees : List Tree} (h : m.Mends steps start stop trees)
    (hmeets : g.Meets o text m) (hskips : g.Skips text steps start stop trees) :
    g.Recovers o text start stop trees :=
  ⟨m, steps, trees, hmeets, h, List.prefix_rfl, hskips⟩

/-- A stretch that a recovery skips stays one when more trees follow. -/
theorem Program.persists_recovers (g : Program) (o : ParseOptions) (text : Text) :
    Tree.Persists (g.Recovers o text) := by
  rintro start stop behind more ⟨m, steps, found, hmeets, hmends, hfound, hskips⟩
  exact ⟨m, steps, found, hmeets, hmends, hfound.trans (List.prefix_append _ _),
    hskips.append more⟩

namespace Program.Meets

variable {g : Program} {o : ParseOptions} {text : Text}

/-- A parse that meets a moment meets all that is run from there. -/
theorem runs {a b : Moment} (h : g.Meets o text a) (hruns : a.Runs b) : g.Meets o text b := by
  obtain ⟨number, points, s, hstarts, hreach⟩ := h
  exact ⟨number, points, s, hstarts, hreach.tail hruns⟩

/-- The moments that a parse meets are regular: their rules and positions are where they should
be. -/
theorem exists_regular {m : Moment} (h : g.Meets o text m) : ∃ height, m.Regular g text height := by
  obtain ⟨height, hheight⟩ := g.exists_height
  exact ⟨height, h.regular hheight⟩

/-- All moments of a parse are of its program. -/
theorem program {c : Setting} {d p : Nat} {job : Job} {s : State}
    (h : g.Meets o text ⟨c, d, job, p, s⟩) : c.program = g := by
  obtain ⟨height, hregular⟩ := h.exists_regular
  exact hregular.program

/-- What a job that a parse meets comes to fits. -/
theorem fits {c : Setting} {d p : Nat} {job : Job} {s s' : State} {out : Outcome}
    (h : g.Meets o text ⟨c, d, job, p, s⟩) (hrun : Run c d job p s out s') : out.Fits c p := by
  obtain ⟨height, hregular⟩ := h.exists_regular
  exact (hrun.fits hregular.ready hregular.fits).1

/-- A parse that meets a moment stands at a boundary. -/
theorem isBoundary {c : Setting} {d p : Nat} {job : Job} {s : State}
    (h : g.Meets o text ⟨c, d, job, p, s⟩) : c.text.isBoundary p = true := by
  obtain ⟨height, hregular⟩ := h.exists_regular
  cases job with
  | search steps rest => exact hregular.ready.1
  | _ => exact hregular.ready

/-- A search that a parse meets skips no more than it must. -/
theorem skips {c : Setting} {d p reach : Nat} {steps : List Step} {rest : List Char}
    {s s' : State} {result : Search} (h : g.Meets o text ⟨c, d, .search steps rest, p, s⟩)
    (hrun : Run c d (.search steps rest) p s (.searched result reach) s')
    (hlive : s'.halted = none) : result.Skips g text steps p := by
  obtain ⟨height, hprogram, htext, hready, hfits, hvalid, -, -⟩ := h.exists_regular
  have hskips := hrun.search_skips hready hfits hvalid hlive
  rwa [show c.program = g from hprogram, show c.text = text from htext] at hskips

end Program.Meets

section

variable (P : Nat → Nat → List Tree → Prop)

/-- Whether something holds of all error nodes of what an answer takes from a position. -/
def Answer.EachError (p : Nat) (a : Answer) : Prop :=
  ∀ t, a.taken = some t → Tree.EachAmong errorKind P p t.trees

/-- Whether something holds of all error nodes of what is kept. -/
def Memo.EachError (m : Memo) : Prop :=
  ∀ key e, m.Holds true key e →
    ∀ t, e.taken = some t → Tree.EachAmong errorKind P key.2 t.trees

/-- Whether something holds of all error nodes of what a search found. -/
def Search.EachError : Search → Prop
  | found start m => Tree.EachAmong errorKind P start m.trees
  | _ => True

/-- Whether something holds of all error nodes of what a job comes to. -/
def Outcome.EachError (p : Nat) : Outcome → Prop
  | answer a => a.EachError P p
  | tried found _ => ∀ m, found = some m → Tree.EachAmong errorKind P p m.trees
  | looked result _ => ∀ r, result = some r → r.EachError P
  | searched result _ => result.EachError P

end

variable {P : Nat → Nat → List Tree → Prop} {c : Setting} {p : Nat}

namespace Answer.EachError

variable {a : Answer} {notes : Notes}

/-- An answer that takes nothing has no error node. -/
theorem of_isNone : Answer.EachError P p ⟨none, notes⟩ := nofun

/-- An operation that is not run makes no error node. -/
theorem idle : (Answer.idle p).EachError P p := by
  rintro t ⟨⟩
  trivial

/-- The end of a repetition makes no error node. -/
theorem endRepetition {least count : Nat} : (endRepetition least count p notes).EachError P p := by
  unfold Packrat.endRepetition
  split
  · exact of_isNone
  · rintro t ⟨⟩
    trivial

/-- An answer behind what was taken has the error nodes of both, those in front with more trees
behind them. -/
theorem behind {t : Taken} (hP : Tree.Persists P) (ht : Tree.EachAmong errorKind P p t.trees)
    (htiles : Tree.TilesAll c.text t.trees p t.stop) (ha : a.EachError P t.stop) :
    (Answer.behind t notes a).EachError P p := by
  intro u hu
  obtain ⟨v, hv, rfl⟩ := Option.map_eq_some_iff.mp hu
  exact ht.append_of_tiles hP htiles (ha v hv)

/-- A name for a part puts no error node around it and leaves those in it where they are. -/
theorem wrapped {kind : Nat} (hP : Tree.Persists P) (hkind : Ordinary kind)
    (h : a.EachError P p) : (a.wrapped c kind).EachError P p := by
  intro t ht
  obtain ⟨u, hu, rfl⟩ := Option.map_eq_some_iff.mp ht
  exact (h u hu).close hP hkind.1

/-- The node of a rule is no error node and leaves those in it where they are. -/
theorem called {rule : Nat} {renamed : Option Nat} {halted : Bool} (hP : Tree.Persists P)
    (hkind : Ordinary (renamed.getD (c.program.rule rule).kind)) (h : a.EachError P p) :
    (a.called c rule renamed halted).EachError P p := by
  intro t ht
  obtain ⟨u, hu, rfl⟩ := Option.map_eq_some_iff.mp ht
  split
  · exact h u hu
  · exact (h u hu).close hP hkind.1

end Answer.EachError

namespace Setting

/-- Trivia are leaves. -/
theorem exists_leaf_of_mem_trivia (c : Setting) (p : Nat) :
    ∀ t ∈ (c.trivia p).leaves, ∃ kind text, t = .leaf kind text := by
  intro t ht
  obtain ⟨extra, -, text, rfl⟩ := c.trivia_leaves p t ht
  exact ⟨extra.2, text, rfl⟩

/-- There is no error node among trivia. -/
theorem trivia_eachError (c : Setting) (p : Nat) :
    Tree.EachAmong errorKind P p (c.trivia p).leaves :=
  Tree.eachAmong_of_leaves (c.exists_leaf_of_mem_trivia p)

/-- What holds of the stretch that was skipped holds of the node of the error. -/
theorem errorNode_each {start stop : Nat} {behind : List Tree} (hle : start ≤ stop)
    (hstart : c.text.isBoundary start = true) (hstop : c.text.isBoundary stop = true)
    (h : P start stop behind) : (c.errorNode start stop).Each errorKind P start behind := by
  have hsize := Tree.Tiles.size_eq _ (c.errorNode_tiles hstart hstop hle)
  unfold errorNode at hsize ⊢
  rw [Tree.size] at hsize
  refine ⟨fun _ => ?_, Tree.eachAmong_of_leaves fun t ht => ?_⟩
  · rwa [hsize]
  · split at ht
    · exact ⟨skippedKind, _, List.mem_singleton.mp ht⟩
    · cases ht

end Setting

/-- A terminal takes no nodes. -/
theorem runToken_eachError (c : Setting) (terminal kind : Nat) (immediate : Bool) (p : Nat)
    (s : State) : (runToken c terminal kind immediate p s).1.EachError P p := by
  obtain ⟨trivia, htrivia⟩ : ∃ trivia, trivia =
      if immediate then (⟨[], p, 0⟩ : Trivia) else c.trivia p := ⟨_, rfl⟩
  have hleaves : ∀ t ∈ trivia.leaves, ∃ kind text, t = .leaf kind text := by
    intro t ht
    rw [htrivia] at ht
    split at ht
    · cases ht
    · exact c.exists_leaf_of_mem_trivia p t ht
  simp only [runToken, ← htrivia]
  cases ((c.program.terminal terminal).scanAt c.text trivia.stop).length with
  | none => exact .of_isNone
  | some n =>
    rintro t ⟨⟩
    refine Tree.eachAmong_of_leaves fun t ht => ?_
    rcases List.mem_append.mp ht with ht | ht
    · exact hleaves t ht
    · split at ht
      · cases ht
      · exact ⟨kind, _, List.mem_singleton.mp ht⟩

namespace Memo.EachError

variable {s : State} {rule : Nat}

/-- What holds of the error nodes of kept results holds of those of the answers that they stand
for. -/
theorem answer {entry : Entry} {recovering : Bool} (h : s.memo.EachError P)
    (hknown : known? c rule p s = some (entry, recovering)) :
    (entry.answer c recovering).EachError P p :=
  h (rule, p) entry (holds_of_known? (fun _ => rfl) hknown)

/-- To keep an answer keeps no other error nodes than those of the answer. -/
theorem keep {a : Answer} (h : s.memo.EachError P) (ha : a.EachError P p) :
    (Packrat.keep c rule p (a.entry p) s).memo.EachError P := by
  intro key e he
  rcases holds_keep he with hold | ⟨rfl, rfl, -⟩
  · exact h key e hold
  · exact ha

/-- What is left of a table when results are dropped was in it. -/
theorem settle {m : Memo} (h : m.EachError P) : m.settle.EachError P :=
  fun key e he => h key e he.of_settle

end Memo.EachError

namespace Setting

variable (expected : List Nat)

/-- What a recovery takes begins with trivia and with a node over what its search skipped, if it
makes an error at all. -/
theorem resumedTaken_eachError {result : Search} (hP : Tree.Persists P)
    (hp : c.text.isBoundary p = true) (hfits : result.Fits c (c.trivia p).stop)
    (hnode : ∀ start stop, c.resumedError? p result = some (start, stop) →
      P start stop result.trees)
    (h : result.EachError P) :
    Tree.EachAmong errorKind P p (c.resumedTaken p expected result).trees := by
  have hstart := c.isBoundary_trivia_stop hp
  have hblank : Tree.EachAmong errorKind P p (c.trivia p).leaves := c.trivia_eachError p
  cases result with
  | abandoned => exact hblank
  | stopped stop =>
    have herror := errorNode_each hfits.1 hstart hfits.2 (hnode (c.trivia p).stop stop rfl)
    exact hblank.append_of_tiles hP (c.trivia_tiles p) ⟨herror, trivial⟩
  | found start m =>
    obtain ⟨hle, hboundary, -⟩ := hfits
    refine hblank.append_of_tiles hP (c.trivia_tiles p) ?_
    by_cases hskipped : ((c.trivia p).stop < start || 0 < m.index) = true
    · rw [if_pos hskipped]
      have herror := errorNode_each hle hstart hboundary
        (hnode (c.trivia p).stop start (by rw [resumedError?, if_pos hskipped]))
      have hsize := Tree.Tiles.size_eq _ (c.errorNode_tiles hstart hboundary hle)
      exact ⟨herror, hsize.symm ▸ h⟩
    · rw [if_neg hskipped]
      have heq : (c.trivia p).stop = start := by
        simp only [Bool.or_eq_true, decide_eq_true_eq, not_or] at hskipped
        omega
      exact heq.symm ▸ h

/-- What a recovery takes in a repetition has the error node that it makes and those of the trees
that its search has found. -/
theorem resumedIteration?_eachError {result : Search} {t : Taken} (hP : Tree.Persists P)
    (hp : c.text.isBoundary p = true) (hfits : result.Fits c (c.trivia p).stop)
    (hnode : ∀ start stop, c.iterationError? p result = some (start, stop) →
      P start stop result.trees)
    (h : result.EachError P) (ht : c.resumedIteration? p expected result = some t) :
    Tree.EachAmong errorKind P p t.trees := by
  cases result with
  | found start m =>
    cases ht
    exact resumedTaken_eachError expected hP hp hfits hnode h
  | stopped => cases ht
  | abandoned => cases ht

end Setting

/-- In a parse that goes on, all error nodes of what a run takes come from recoveries that the parse
meets, and so do those of what it keeps. -/
theorem Run.recovers {g : Program} {o : ParseOptions} {text : Text} {d : Nat} {job : Job}
    {s s' : State} {out : Outcome} (h : Run c d job p s out s')
    (hmeets : g.Meets o text ⟨c, d, job, p, s⟩) (hg : g.Reserves) (hjob : job.Spares g)
    (hmemo : s.memo.EachError (g.Recovers o text)) (hlive : s'.halted = none) :
    out.EachError (g.Recovers o text) p ∧ s'.memo.EachError (g.Recovers o text) := by
  have hP := g.persists_recovers o text
  induction h with
  | refused tick => exact absurd hlive (State.of_tick_false tick).1
  | tooDeep tick => simp at hlive
  | ticked tick rest ih =>
    have hkept := (State.of_tick_true tick).2.2.1
    exact ih (hmeets.runs (.ticked tick)) hjob (hkept ▸ hmemo) hlive
  | blank => exact ⟨.idle, hmemo⟩
  | @token c d terminal kind immediate p s =>
    obtain ⟨e, he⟩ := runToken_state c terminal kind immediate p s
    exact ⟨runToken_eachError c terminal kind immediate p s, he ▸ hmemo⟩
  | call rest ih =>
    refine (ih (hmeets.runs .call) trivial hmemo hlive).imp_left ?_
    rw [← hmeets.program] at hjob
    exact Answer.EachError.called hP hjob
  | members rest ih => exact ih (hmeets.runs .members) hjob hmemo hlive
  | alternatives rest ih => exact ih (hmeets.runs .alternatives) hjob hmemo hlive
  | repetition rest ih => exact ih (hmeets.runs .repetition) hjob hmemo hlive
  | wrap rest ih =>
    exact (ih (hmeets.runs .wrap) hjob.1 hmemo hlive).imp_left
      (Answer.EachError.wrapped hP hjob.2)
  | cancelled ask => exact absurd hlive (State.of_ask_false ask).1
  | hit ask known =>
    have hkept := (State.of_ask_true ask).2.2.1
    rw [← hkept] at hmemo
    exact ⟨hmemo.answer known, hmemo⟩
  | @body c d rule p s s₁ a s₂ ask unknown rest ih =>
    have hkept := (State.of_ask_true ask).2.2.1
    have hbody : g.Spares (c.program.rule rule).body := by
      rw [hmeets.program]
      exact hg.bodies rule
    rw [State.record_halted, keep_halted] at hlive
    obtain ⟨ha, hmemo'⟩ := ih (hmeets.runs (.body ask unknown)) hbody (hkept ▸ hmemo) hlive
    exact ⟨ha, hmemo'.keep ha⟩
  | seqNil => exact ⟨.idle, hmemo⟩
  | seqSkip tail ih => exact ih (hmeets.runs .seqSkip) hjob.2 hmemo hlive
  | seqTook head tail ihhead ihtail =>
    have hhead := hmeets.runs .seqHead
    have htiles := (hhead.fits head).tiles _ rfl
    obtain ⟨ha, hmemo₁⟩ := ihhead hhead hjob.1 hmemo (tail.live hlive)
    exact (ihtail (hmeets.runs (.seqTail head)) hjob.2 hmemo₁ hlive).imp_left
      (Answer.EachError.behind hP (ha _ rfl) htiles)
  | seqFailed head final ih =>
    exact (ih (hmeets.runs .seqHead) hjob.1 hmemo hlive).imp_left fun _ => .of_isNone
  | seqEnded head armed scan ended ihhead ihscan =>
    rw [State.recordError_halted] at hlive
    have hscan := hmeets.runs (.seqScan head armed)
    obtain ⟨-, hmemo₁⟩ := ihhead (hmeets.runs .seqHead) hjob.1 hmemo (scan.live hlive)
    obtain ⟨hfound, hmemo₂⟩ := ihscan hscan hjob hmemo₁ hlive
    refine ⟨?_, by rwa [State.recordError_memo]⟩
    rintro t ⟨⟩
    exact Setting.resumedTaken_eachError _ hP hmeets.isBoundary (hscan.fits scan)
      (fun _ _ herror => (Moment.Mends.seq head armed scan herror).recovers hmeets
        ((hscan.skips scan hlive).of_resumedError? herror)) hfound
  | @seqResumed c d step rest p s notes s₁ failure result reach s₂ index a s' head armed scan
      resumed tail ihhead ihscan ihtail =>
    have hlive₂ := tail.live hlive
    rw [State.recordError_halted] at hlive₂
    have hscan := hmeets.runs (.seqScan head armed)
    obtain ⟨-, hmemo₁⟩ := ihhead (hmeets.runs .seqHead) hjob.1 hmemo (scan.live hlive₂)
    obtain ⟨hfound, hmemo₂⟩ := ihscan hscan hjob hmemo₁ hlive₂
    have htiles :=
      Setting.resumedTaken_tiles failure.expected hmeets.isBoundary (hscan.fits scan)
    have ht := Setting.resumedTaken_eachError failure.expected hP hmeets.isBoundary
      (hscan.fits scan) (fun _ _ herror => (Moment.Mends.seq head armed scan herror).recovers hmeets
        ((hscan.skips scan hlive₂).of_resumedError? herror)) hfound
    exact (ihtail (hmeets.runs (.seqResumed head armed scan resumed)) hjob.2
      (by rwa [State.recordError_memo]) hlive).imp_left
      (Answer.EachError.behind hP ht htiles)
  | choiceNil => exact ⟨.of_isNone, hmemo⟩
  | choiceTook head ih => exact ih (hmeets.runs .choiceHead) hjob.1 hmemo hlive
  | choiceNext head tail ihhead ihtail =>
    obtain ⟨-, hmemo₁⟩ :=
      ihhead (hmeets.runs .choiceHead) hjob.1 hmemo (tail.live hlive)
    exact ihtail (hmeets.runs (.choiceNext head)) hjob.2 hmemo₁ hlive
  | exhausted => exact ⟨.endRepetition, hmemo⟩
  | enough => exact ⟨.endRepetition, hmemo⟩
  | idleIteration room head still ih =>
    exact (ih (hmeets.runs (.iteration room)) hjob hmemo hlive).imp_left fun _ => .endRepetition
  | nextIteration room head moved tail ihhead ihtail =>
    have hhead := hmeets.runs (.iteration room)
    have htiles := (hhead.fits head).tiles _ rfl
    obtain ⟨ha, hmemo₁⟩ := ihhead hhead hjob hmemo (tail.live hlive)
    exact (ihtail (hmeets.runs (.nextIteration room head moved)) hjob hmemo₁ hlive).imp_left
      (Answer.EachError.behind hP (ha _ rfl) htiles)
  | lastIteration room head final ih =>
    exact (ih (hmeets.runs (.iteration room)) hjob hmemo hlive).imp_left fun _ => .endRepetition
  | lostIteration room head started armed scan ended ihhead ihscan =>
    obtain ⟨-, hmemo₁⟩ := ihhead (hmeets.runs (.iteration room)) hjob hmemo (scan.live hlive)
    obtain ⟨-, hmemo₂⟩ :=
      ihscan (hmeets.runs (.iterationScan room head started armed)) ⟨hjob, trivial⟩ hmemo₁ hlive
    exact ⟨.endRepetition, hmemo₂⟩
  | @foundIteration c d body least most left count p s notes s₁ failure result reach s₂ t a s' room
      head started armed scan resumed tail ihhead ihscan ihtail =>
    have hlive₂ := tail.live hlive
    rw [State.recordError_halted] at hlive₂
    have hscan := hmeets.runs (.iterationScan room head started armed)
    obtain ⟨-, hmemo₁⟩ := ihhead (hmeets.runs (.iteration room)) hjob hmemo (scan.live hlive₂)
    obtain ⟨hfound, hmemo₂⟩ := ihscan hscan ⟨hjob, trivial⟩ hmemo₁ hlive₂
    have htiles := Setting.resumedIteration?_tiles failure.expected hmeets.isBoundary
      (hscan.fits scan) resumed
    have ht := Setting.resumedIteration?_eachError failure.expected hP hmeets.isBoundary
      (hscan.fits scan) (fun _ _ herror =>
        (Moment.Mends.iteration room head started armed scan herror).recovers hmeets
          ((hscan.skips scan hlive₂).of_iterationError? herror)) hfound resumed
    exact (ihtail (hmeets.runs (.foundIteration room head started armed scan resumed)) hjob
      (by rwa [State.recordError_memo]) hlive).imp_left
      (Answer.EachError.behind hP ht htiles)
  | trialNil => exact ⟨nofun, hmemo⟩
  | trialFound head past ih =>
    refine (ih (hmeets.runs .trialHead) hjob.1 hmemo hlive).imp_left fun ha => ?_
    rintro m ⟨⟩
    exact ha _ rfl
  | trialNext head short tail ihhead ihtail =>
    obtain ⟨-, hmemo₁⟩ := ihhead (hmeets.runs .trialHead) hjob.1 hmemo (tail.live hlive)
    exact ihtail (hmeets.runs (.trialNext head short)) hjob.2 hmemo₁ hlive
  | lookRefused tick => exact absurd hlive (State.of_tick_false tick).1
  | lookFound tick attempts ih =>
    have hkept := (State.of_tick_true tick).2.2.1
    refine (ih (hmeets.runs (.attempts tick)) hjob (hkept ▸ hmemo) hlive).imp_left
      fun hfound => ?_
    rintro r ⟨⟩
    exact hfound _ rfl
  | lookStopped tick attempts final ih =>
    have hkept := (State.of_tick_true tick).2.2.1
    refine (ih (hmeets.runs (.attempts tick)) hjob (hkept ▸ hmemo) hlive).imp_left
      fun _ => ?_
    rintro r ⟨⟩
    trivial
  | lookPassed tick attempts passed ih =>
    have hkept := (State.of_tick_true tick).2.2.1
    exact (ih (hmeets.runs (.attempts tick)) hjob (hkept ▸ hmemo) hlive).imp_left
      fun _ => nofun
  | @searchEnd c d steps p s result reach s' here ih =>
    refine (ih (hmeets.runs .look) hjob hmemo hlive).imp_left fun hresult => ?_
    cases result with
    | none => trivial
    | some r => exact hresult r rfl
  | searchDone here ih =>
    exact (ih (hmeets.runs .look) hjob hmemo hlive).imp_left fun hresult => hresult _ rfl
  | searchNext here tail ihhere ihtail =>
    obtain ⟨-, hmemo₁⟩ := ihhere (hmeets.runs .look) hjob hmemo (tail.live hlive)
    exact ihtail (hmeets.runs (.searchNext here)) hjob hmemo₁ hlive

end Packrat
