import Packrat.Proofs.Parse.Lossless
import Packrat.Proofs.Tree.ErrorNodes

/-!
# Errors and error nodes in a run

Whatever a run takes has an error for every error node, in document order and with its range. What
an attempt of a search takes has none, as it is run without recovery. `Run.reported` is the
induction that carries this; it needs that the program itself uses the kinds of errors and of
skipped text nowhere.
-/

namespace Packrat

/-- Whether a kind is neither that of errors nor that of skipped text. -/
def Ordinary (kind : Nat) : Prop := kind ≠ errorKind ∧ kind ≠ skippedKind

namespace Program

mutual

/-- Whether an operation makes leaves and nodes of ordinary kinds only. -/
def Spares (p : Program) : Step → Prop
  | .blank => True
  | .token _ kind _ => Ordinary kind
  | .call rule renamed => Ordinary (renamed.getD (p.rule rule).kind)
  | .seq members => p.SparesAll members
  | .choice members => p.SparesAll members
  | .repetition body _ _ => p.Spares body
  | .wrap body kind => p.Spares body ∧ Ordinary kind

/-- The same for all of some operations. -/
def SparesAll (p : Program) : List Step → Prop
  | [] => True
  | step :: steps => p.Spares step ∧ p.SparesAll steps

end

/-- Whether a program leaves the kinds of errors and of skipped text to the parser. -/
structure Reserves (p : Program) : Prop where
  bodies : ∀ rule, p.Spares (p.rule rule).body
  extras : ∀ extra ∈ p.extras, Ordinary extra.2
  start : Ordinary p.startRule.kind

end Program

namespace SyntaxError

/-- The stretch of the text that an error is about. -/
def span (e : SyntaxError) : Nat × Nat := (e.start, e.stop)

/-- Whether an error is of the kind that goes with its stretch of the text. -/
def Apt (e : SyntaxError) : Prop := e.kind = .over e.start e.stop

/-- An error of the kind that goes with its stretch tells of absent input exactly if the stretch is
empty. -/
theorem Apt.isMissing_iff {e : SyntaxError} (h : e.Apt) (hle : e.start ≤ e.stop) :
    e.isMissing = true ↔ e.start = e.stop := by
  rw [isMissing, beq_iff_eq, h, SyntaxErrorKind.over]
  split
  · simp only [reduceCtorEq, false_iff]
    omega
  · simp only [true_iff]
    omega

end SyntaxError

/-- Whether something that was taken from a position has an error for every error node, of the kind
that goes with it. -/
structure Taken.Reported (p : Nat) (t : Taken) : Prop where
  marked : Tree.MarkedAll t.trees
  spans : Tree.spansAmong errorKind p t.trees = t.errors.map SyntaxError.span
  apt : ∀ e ∈ t.errors, e.Apt

/-- Whether there are no errors in trees. -/
def Tree.Sane (trees : List Tree) : Prop :=
  MarkedAll trees ∧ ∀ p, spansAmong errorKind p trees = []

/-- Whether all results have an error for every error node. -/
def Results.Reported (r : Results) : Prop :=
  ∀ (key : MemoKey) (e : Entry), r[key]? = some e → ∀ t, e.taken = some t → t.Reported key.2

/-- The same for all kept results. -/
structure Memo.Reported (m : Memo) : Prop where
  strict : m.strict.Reported
  recovering : m.recovering.Reported

/-- Whether an answer from a position has an error for every error node. -/
def Answer.Reported (p : Nat) (a : Answer) : Prop := ∀ t, a.taken = some t → t.Reported p

/-- Whether what a search found has no errors. -/
def Search.Sane : Search → Prop
  | found _ m => Tree.Sane m.trees
  | _ => True

/-- Whether what a job comes to has an error for every error node; without recovery there are
none. -/
def Outcome.Reported (c : Setting) (p : Nat) : Outcome → Prop
  | answer a => a.Reported p
  | tried found _ => c.recovering = false → ∀ m, found = some m → Tree.Sane m.trees
  | looked result _ => ∀ r, result = some r → r.Sane
  | searched result _ => result.Sane

/-- Whether all operations of a job make ordinary leaves and nodes. -/
def Job.Spares (g : Program) : Job → Prop
  | step op => g.Spares op
  | operation op => g.Spares op
  | rule _ => True
  | seq members _ _ => g.SparesAll members
  | choice members => g.SparesAll members
  | iterations body _ _ _ _ => g.Spares body
  | trial _ _ steps => g.SparesAll steps
  | look steps => g.SparesAll steps
  | search steps _ => g.SparesAll steps

namespace Tree

/-- Ordinary leaves have no errors in them. -/
theorem sane_of_leaves {ts : List Tree}
    (h : ∀ t ∈ ts, ∃ kind text, t = .leaf kind text ∧ Ordinary kind) : Sane ts := by
  refine ⟨markedAll_iff.mpr fun t ht => ?_, fun p => spansAmong_eq_nil_of_leaves fun t ht => ?_⟩
  · obtain ⟨kind, text, rfl, hkind⟩ := h t ht
    exact hkind.2
  · obtain ⟨kind, text, rfl, -⟩ := h t ht
    exact ⟨kind, text, rfl⟩

/-- Trees without errors one behind the other have none. -/
theorem Sane.append {as bs : List Tree} (ha : Sane as) (hb : Sane bs) : Sane (as ++ bs) :=
  ⟨markedAll_append.mpr ⟨ha.1, hb.1⟩, fun p => by
    rw [spansAmong_append, ha.2, hb.2, List.append_nil]⟩

end Tree

namespace Taken.Reported

variable {p : Nat} {t u : Taken}

/-- What takes nothing has no error node and no error. -/
theorem idle (p : Nat) : Taken.Reported p { stop := p } := ⟨trivial, rfl, nofun⟩

/-- Trees without errors need no error. -/
theorem of_sane (h : Tree.Sane t.trees) (herrors : t.errors = []) : t.Reported p :=
  ⟨h.1, by rw [h.2, herrors, List.map_nil], by simp [herrors]⟩

/-- What has an error for every error node and no errors has no error nodes. -/
theorem sane (h : t.Reported p) (herrors : t.errors = []) : Tree.Sane t.trees := by
  have hspans : Tree.spansAmong errorKind p t.trees = [] := by
    rw [h.spans, herrors, List.map_nil]
  exact ⟨h.marked, fun _ => Tree.spansAmong_eq_nil_of _ hspans⟩

/-- Errors of what was taken first come before those of what was taken behind it. -/
theorem andThen {text : Text} (ht : t.Reported p) (htiles : Tree.TilesAll text t.trees p t.stop)
    (hu : u.Reported t.stop) : (t.andThen u).Reported p := by
  refine ⟨Tree.markedAll_append.mpr ⟨ht.marked, hu.marked⟩, ?_,
    List.forall_mem_append.mpr ⟨ht.apt, hu.apt⟩⟩
  simp only [Taken.andThen]
  rw [Tree.spansAmong_append, Tree.TilesAll.size_eq _ htiles, ht.spans, hu.spans, List.map_append]

end Taken.Reported

namespace Setting

variable {c : Setting}

/-- A closed node holds the errors of what was put into it. -/
theorem close_reported {kind p : Nat} {t : Taken} (hkind : Ordinary kind) (h : t.Reported p) :
    ({ t with trees := c.close kind t.trees } : Taken).Reported p := by
  obtain ⟨hmarked, hspans, hapt⟩ := h
  rw [← List.takeWhile_append_dropWhile (p := c.isTrivia) (l := t.trees)] at hmarked hspans
  rw [Tree.spansAmong_append] at hspans
  obtain ⟨hbefore, hinside⟩ := Tree.markedAll_append.mp hmarked
  refine ⟨Tree.markedAll_append.mpr ⟨hbefore, ?_, trivial⟩, ?_, hapt⟩
  · simpa only [Tree.Marked, if_neg hkind.1] using hinside
  · simp only [close]
    rw [Tree.spansAmong_append, Tree.spansAmong, Tree.spansAmong, List.append_nil, Tree.spansOf,
      if_neg hkind.1, hspans]

/-- An error comes with its node. -/
theorem takenError_reported {start stop : Nat} (expected : List Nat) (hle : start ≤ stop)
    (hstart : c.text.isBoundary start = true) (hstop : c.text.isBoundary stop = true) :
    (c.takenError start stop expected).Reported start := by
  have hsize := Tree.Tiles.size_eq _ (c.errorNode_tiles hstart hstop hle)
  unfold errorNode at hsize
  refine ⟨?_, ?_, List.forall_mem_singleton.mpr rfl⟩
  · simp only [takenError, errorNode, Tree.MarkedAll, Tree.Marked, and_true, if_true]
    split
    · exact .inr ⟨_, rfl⟩
    · exact .inl rfl
  · simp only [takenError, errorNode, Tree.spansAmong, Tree.spansOf, if_true, List.append_nil,
      List.map_cons, List.map_nil, SyntaxError.span, error]
    rw [Tree.size] at hsize
    rw [hsize]
    split <;> rfl

/-- Trivia is made of leaves of the kinds of extras. -/
theorem trivia_leaves (c : Setting) (p : Nat) :
    ∀ t ∈ (c.trivia p).leaves, ∃ extra ∈ c.program.extras, ∃ text, t = .leaf extra.2 text := by
  have hfirst : ∀ (extras : List (Nat × Nat)) (p : Nat) (piece : Piece),
      (c.firstExtra p extras).1 = some piece → ∃ extra ∈ extras, piece.kind = extra.2 := by
    intro extras p piece h
    induction extras with
    | nil => cases h
    | cons extra rest ih =>
      rw [firstExtra] at h
      simp only at h
      split at h
      · cases h
        exact ⟨extra, List.mem_cons_self, rfl⟩
      · obtain ⟨found, hfound, hkind⟩ := ih h
        exact ⟨found, List.mem_cons_of_mem _ hfound, hkind⟩
  have hpieces : ∀ count p, ∀ piece ∈ (c.extraPieces count p).1,
      ∃ extra ∈ c.program.extras, piece.kind = extra.2 := by
    intro count
    induction count with
    | zero =>
      intro p piece h
      cases h
    | succ count ih =>
      intro p piece h
      rw [extraPieces] at h
      rcases hfound : c.firstExtra p c.program.extras with ⟨_ | found, reach⟩
      · simp [hfound] at h
      · simp only [hfound, List.mem_cons] at h
        rcases h with rfl | h
        · exact hfirst _ p _ (by rw [hfound])
        · exact ih _ _ h
  have hpush : ∀ pieces : List Piece,
      (∀ piece ∈ pieces, ∃ extra ∈ c.program.extras, piece.kind = extra.2) →
      ∀ piece ∈ pieces.foldr Piece.push [], ∃ extra ∈ c.program.extras, piece.kind = extra.2 := by
    intro pieces h
    induction pieces with
    | nil => simp
    | cons q rest ih =>
      rw [List.forall_mem_cons] at h
      have hrest := ih h.2
      rw [List.foldr_cons]
      cases hfold : rest.foldr Piece.push [] with
      | nil => simpa [Piece.push] using h.1
      | cons r others =>
        rw [hfold, List.forall_mem_cons] at hrest
        rw [Piece.push]
        split
        · exact List.forall_mem_cons.mpr ⟨h.1, hrest.2⟩
        · exact List.forall_mem_cons.mpr ⟨h.1, List.forall_mem_cons.mpr hrest⟩
  intro t ht
  simp only [trivia, List.mem_map] at ht
  obtain ⟨piece, hpiece, rfl⟩ := ht
  obtain ⟨extra, hextra, hkind⟩ := hpush _ (hpieces _ p) piece hpiece
  exact ⟨extra, hextra, _, by rw [leaf, hkind]⟩

/-- There are no errors in trivia. -/
theorem trivia_sane (hprogram : c.program.Reserves) (p : Nat) : Tree.Sane (c.trivia p).leaves := by
  refine Tree.sane_of_leaves fun t ht => ?_
  obtain ⟨extra, hextra, text, rfl⟩ := c.trivia_leaves p t ht
  exact ⟨extra.2, text, rfl, hprogram.extras extra hextra⟩

end Setting

namespace Answer.Reported

variable {c : Setting} {p : Nat} {a : Answer} {notes : Notes}

/-- An answer that takes nothing has nothing to report. -/
theorem of_isNone : Answer.Reported p ⟨none, notes⟩ := nofun

/-- An operation that is not run has nothing to report. -/
theorem idle : (Answer.idle p).Reported p := by
  rintro t ⟨⟩
  exact .idle p

/-- The end of a repetition has nothing to report. -/
theorem endRepetition {least count : Nat} :
    (endRepetition least count p notes).Reported p := by
  unfold Packrat.endRepetition
  split
  · exact of_isNone
  · rintro t ⟨⟩
    exact .idle p

/-- An answer behind what was taken reports the errors of both, in order. -/
theorem behind {t : Taken} (ht : t.Reported p) (htiles : Tree.TilesAll c.text t.trees p t.stop)
    (ha : a.Reported t.stop) : (Answer.behind t notes a).Reported p := by
  intro u hu
  obtain ⟨v, hv, rfl⟩ := Option.map_eq_some_iff.mp hu
  exact ht.andThen htiles (ha v hv)

/-- A node of an ordinary kind around some trees is no error node. -/
theorem wrapped {kind : Nat} (hkind : Ordinary kind) (h : a.Reported p) :
    (a.wrapped c kind).Reported p := by
  intro t ht
  obtain ⟨u, hu, rfl⟩ := Option.map_eq_some_iff.mp ht
  exact Setting.close_reported hkind (h u hu)

/-- The node of a rule of an ordinary kind is no error node. -/
theorem called {rule : Nat} {renamed : Option Nat} {halted : Bool}
    (hkind : Ordinary (renamed.getD (c.program.rule rule).kind)) (h : a.Reported p) :
    (a.called c rule renamed halted).Reported p := by
  intro t ht
  obtain ⟨u, hu, rfl⟩ := Option.map_eq_some_iff.mp ht
  split
  · exact h u hu
  · exact Setting.close_reported hkind (h u hu)

end Answer.Reported

/-- A terminal takes leaves of ordinary kinds. -/
theorem runToken_reported {c : Setting} (hprogram : c.program.Reserves) {terminal kind : Nat}
    (hkind : Ordinary kind) (immediate : Bool) (p : Nat) (s : State) :
    (runToken c terminal kind immediate p s).1.Reported p := by
  obtain ⟨trivia, htrivia⟩ : ∃ trivia, trivia =
      if immediate then (⟨[], p, 0⟩ : Trivia) else c.trivia p := ⟨_, rfl⟩
  have hleaves : Tree.Sane trivia.leaves := by
    rw [htrivia]
    split
    · exact ⟨trivial, fun _ => rfl⟩
    · exact c.trivia_sane hprogram p
  simp only [runToken, ← htrivia]
  cases ((c.program.terminal terminal).scanAt c.text trivia.stop).length with
  | none => exact .of_isNone
  | some n =>
    rintro t ⟨⟩
    refine .of_sane (hleaves.append (Tree.sane_of_leaves fun t ht => ?_)) rfl
    split at ht
    · cases ht
    · exact ⟨kind, _, List.mem_singleton.mp ht, hkind⟩

namespace Setting

variable {c : Setting} {p : Nat} (expected : List Nat)

/-- What the recovery of a sequence takes comes with its error. -/
theorem resumedTaken_reported (hprogram : c.program.Reserves) {result : Search}
    (hp : c.text.isBoundary p = true) (hfits : result.Fits c (c.trivia p).stop)
    (h : result.Sane) : (c.resumedTaken p expected result).Reported p := by
  have hstart := c.isBoundary_trivia_stop hp
  have hblank : Taken.Reported p
      { stop := (c.trivia p).stop, trees := (c.trivia p).leaves } :=
    .of_sane (c.trivia_sane hprogram p) rfl
  cases result with
  | abandoned => exact hblank
  | stopped stop =>
    exact hblank.andThen (c.trivia_tiles p) (takenError_reported expected hfits.1 hstart hfits.2)
  | found start m =>
    obtain ⟨hle, hboundary, -⟩ := hfits
    refine hblank.andThen (c.trivia_tiles p) ?_
    split
    · exact (takenError_reported expected hle hstart hboundary).andThen
        (Tree.tilesAll_singleton.mpr (c.errorNode_tiles hstart hboundary hle)) (.of_sane h rfl)
    · exact .of_sane h rfl

/-- What a recovery takes in a repetition has its error for its error node, and its search has found
none. -/
theorem resumedIteration?_reported (hprogram : c.program.Reserves) {result : Search} {t : Taken}
    (hp : c.text.isBoundary p = true) (hfits : result.Fits c (c.trivia p).stop)
    (h : result.Sane) (ht : c.resumedIteration? p expected result = some t) : t.Reported p := by
  cases result with
  | found start m =>
    cases ht
    exact resumedTaken_reported expected hprogram hp hfits h
  | stopped => cases ht
  | abandoned => cases ht

end Setting

/-- The answer that a kept result stands for is reported. -/
theorem Memo.Reported.answer {c : Setting} {rule p : Nat} {s : State} {entry : Entry}
    {recovering : Bool} (hmemo : s.memo.Reported)
    (h : known? c rule p s = some (entry, recovering)) :
    (entry.answer c recovering).Reported p := by
  obtain ⟨-, ⟨-, -, hentry⟩ | ⟨-, hentry, -, -⟩⟩ := of_known? h
  · exact hmemo.recovering _ _ hentry
  · exact hmemo.strict _ _ hentry

/-- To keep an answer that reports its errors leaves only such results in the table. -/
theorem Memo.Reported.keep {c : Setting} {rule p : Nat} {a : Answer} {s : State}
    (hmemo : s.memo.Reported) (ha : a.Reported p) :
    (Packrat.keep c rule p (a.entry p) s).memo.Reported := by
  constructor
  · intro key e he
    rcases getElem?_keep_strict he with hold | ⟨rfl, rfl, -⟩
    · exact hmemo.strict key e hold
    · exact ha
  · intro key e he
    rcases getElem?_keep_recovering he with hold | ⟨rfl, rfl, -⟩
    · exact hmemo.recovering key e hold
    · exact ha

/-- A run of operations that make ordinary leaves and nodes takes an error for every error node. -/
theorem Run.reported {c : Setting} {d : Nat} {job : Job} {p : Nat} {s s' : State} {out : Outcome}
    (h : Run c d job p s out s') (hready : job.Ready c p)
    (hfits : s.memo.Fits c.text c.points) (hprogram : c.program.Reserves)
    (hjob : job.Spares c.program) (hmemo : s.memo.Reported) :
    out.Reported c p ∧ s'.memo.Reported := by
  induction h with
  | refused tick => exact ⟨.idle, (State.of_tick_false tick).2 ▸ hmemo⟩
  | tooDeep tick =>
    have hkept := (State.of_tick_true tick).2.2.1
    exact ⟨.idle, by simpa only [State.stop_memo, hkept] using hmemo⟩
  | ticked tick rest ih =>
    have hkept := (State.of_tick_true tick).2.2.1
    exact ih hready (hkept ▸ hfits) hprogram hjob (hkept ▸ hmemo)
  | blank => exact ⟨.idle, hmemo⟩
  | @token c d terminal kind immediate p s =>
    obtain ⟨e, he⟩ := runToken_state c terminal kind immediate p s
    exact ⟨runToken_reported hprogram hjob immediate p s, he ▸ hmemo⟩
  | call rest ih =>
    exact (ih hready hfits hprogram trivial hmemo).imp_left (Answer.Reported.called hjob)
  | members rest ih => exact ih hready hfits hprogram hjob hmemo
  | alternatives rest ih => exact ih hready hfits hprogram hjob hmemo
  | repetition rest ih => exact ih hready hfits hprogram hjob hmemo
  | wrap rest ih =>
    exact (ih hready hfits hprogram hjob.1 hmemo).imp_left (Answer.Reported.wrapped hjob.2)
  | cancelled ask => exact ⟨.idle, (State.of_ask_false ask).2 ▸ hmemo⟩
  | hit ask known =>
    have hkept := (State.of_ask_true ask).2.2.1
    rw [← hkept] at hmemo
    exact ⟨hmemo.answer known, hmemo⟩
  | body ask unknown rest ih =>
    have hkept := (State.of_ask_true ask).2.2.1
    obtain ⟨ha, hmemo'⟩ :=
      ih hready (hkept ▸ hfits) hprogram (hprogram.bodies _) (hkept ▸ hmemo)
    exact ⟨ha, hmemo'.keep ha⟩
  | seqNil => exact ⟨.idle, hmemo⟩
  | seqSkip tail ih => exact ih hready hfits hprogram hjob.2 hmemo
  | seqTook head tail ihhead ihtail =>
    obtain ⟨hfirst, hfits₁⟩ := head.fits hready hfits
    have htiles := hfirst.tiles _ rfl
    obtain ⟨ha, hmemo₁⟩ := ihhead hready hfits hprogram hjob.1 hmemo
    exact (ihtail (Tree.TilesAll.isBoundary hready _ htiles) hfits₁ hprogram hjob.2
      hmemo₁).imp_left (Answer.Reported.behind (ha _ rfl) htiles)
  | seqFailed head final ih =>
    exact (ih hready hfits hprogram hjob.1 hmemo).imp_left fun _ => .of_isNone
  | seqEnded head armed scan ended ihhead ihscan =>
    obtain ⟨-, hfits₁⟩ := head.fits hready hfits
    have hready₁ := Job.ready_search hready
    obtain ⟨hresult, -⟩ := scan.fits (hready₁ _) hfits₁
    obtain ⟨-, hmemo₁⟩ := ihhead hready hfits hprogram hjob.1 hmemo
    obtain ⟨hsane, hmemo₂⟩ := ihscan (hready₁ _) hfits₁ hprogram hjob hmemo₁
    refine ⟨?_, by rwa [State.recordError_memo]⟩
    rintro t ⟨⟩
    exact Setting.resumedTaken_reported _ hprogram hready hresult hsane
  | @seqResumed c d step rest p s notes s₁ failure result reach s₂ index a s' head armed scan
      resumed tail ihhead ihscan ihtail =>
    obtain ⟨-, hfits₁⟩ := head.fits hready hfits
    have hready₁ := Job.ready_search hready
    obtain ⟨hresult, hfits₂⟩ := scan.fits (hready₁ _) hfits₁
    obtain ⟨-, hmemo₁⟩ := ihhead hready hfits hprogram hjob.1 hmemo
    obtain ⟨hsane, hmemo₂⟩ := ihscan (hready₁ _) hfits₁ hprogram hjob hmemo₁
    have htiles := Setting.resumedTaken_tiles failure.expected hready hresult
    have ht := Setting.resumedTaken_reported failure.expected hprogram hready hresult hsane
    have hready₂ := Setting.isBoundary_resumedTaken_stop failure.expected hready hresult
    exact (ihtail hready₂ (by rwa [State.recordError_memo])
      hprogram hjob.2 (by rwa [State.recordError_memo])).imp_left (Answer.Reported.behind ht htiles)
  | choiceNil => exact ⟨.of_isNone, hmemo⟩
  | choiceTook head ih => exact ih hready hfits hprogram hjob.1 hmemo
  | choiceNext head tail ihhead ihtail =>
    obtain ⟨-, hfits₁⟩ := head.fits hready hfits
    obtain ⟨-, hmemo₁⟩ := ihhead hready hfits hprogram hjob.1 hmemo
    exact ihtail hready hfits₁ hprogram hjob.2 hmemo₁
  | exhausted => exact ⟨.endRepetition, hmemo⟩
  | enough => exact ⟨.endRepetition, hmemo⟩
  | idleIteration room head still ih =>
    exact (ih hready hfits hprogram hjob hmemo).imp_left fun _ => .endRepetition
  | nextIteration room head moved tail ihhead ihtail =>
    obtain ⟨hfirst, hfits₁⟩ := head.fits hready hfits
    have htiles := hfirst.tiles _ rfl
    obtain ⟨ha, hmemo₁⟩ := ihhead hready hfits hprogram hjob hmemo
    exact (ihtail (Tree.TilesAll.isBoundary hready _ htiles) hfits₁ hprogram hjob
      hmemo₁).imp_left (Answer.Reported.behind (ha _ rfl) htiles)
  | lastIteration room head final ih =>
    exact (ih hready hfits hprogram hjob hmemo).imp_left fun _ => .endRepetition
  | lostIteration room head started armed scan ended ihhead ihscan =>
    obtain ⟨-, hfits₁⟩ := head.fits hready hfits
    obtain ⟨-, hmemo₁⟩ := ihhead hready hfits hprogram hjob hmemo
    obtain ⟨-, hmemo₂⟩ := ihscan (Job.ready_search hready _) hfits₁ hprogram ⟨hjob, trivial⟩
      hmemo₁
    exact ⟨.endRepetition, hmemo₂⟩
  | @foundIteration c d body least most left count p s notes s₁ failure result reach s₂ t a s' room
      head started armed scan resumed tail ihhead ihscan ihtail =>
    obtain ⟨-, hfits₁⟩ := head.fits hready hfits
    have hready₁ := Job.ready_search hready
    obtain ⟨hresult, hfits₂⟩ := scan.fits (hready₁ _) hfits₁
    obtain ⟨-, hmemo₁⟩ := ihhead hready hfits hprogram hjob hmemo
    obtain ⟨hsane, hmemo₂⟩ := ihscan (hready₁ _) hfits₁ hprogram ⟨hjob, trivial⟩ hmemo₁
    have htiles := Setting.resumedIteration?_tiles failure.expected hready hresult resumed
    have ht := Setting.resumedIteration?_reported _ hprogram hready hresult hsane resumed
    have hready₂ :=
      Setting.isBoundary_resumedIteration?_stop failure.expected hready hresult resumed
    exact (ihtail hready₂ (by rwa [State.recordError_memo])
      hprogram hjob (by rwa [State.recordError_memo])).imp_left (Answer.Reported.behind ht htiles)
  | trialNil => exact ⟨fun _ => nofun, hmemo⟩
  | trialFound head past ih =>
    obtain ⟨hfirst, -⟩ := head.fits hready hfits
    obtain ⟨ha, hmemo'⟩ := ih hready hfits hprogram hjob.1 hmemo
    refine ⟨fun hstrict => ?_, hmemo'⟩
    rintro m ⟨⟩
    exact (ha _ rfl).sane (hfirst.quiet (Setting.quiet_of_strict hstrict) _ rfl).2
  | trialNext head short tail ihhead ihtail =>
    obtain ⟨-, hfits₁⟩ := head.fits hready hfits
    obtain ⟨-, hmemo₁⟩ := ihhead hready hfits hprogram hjob.1 hmemo
    exact ihtail hready hfits₁ hprogram hjob.2 hmemo₁
  | lookRefused tick =>
    refine ⟨?_, (State.of_tick_false tick).2 ▸ hmemo⟩
    rintro r ⟨⟩
    trivial
  | lookFound tick attempts ih =>
    have hkept := (State.of_tick_true tick).2.2.1
    obtain ⟨hsane, hmemo'⟩ := ih hready (hkept ▸ hfits) hprogram hjob (hkept ▸ hmemo)
    refine ⟨?_, hmemo'⟩
    rintro r ⟨⟩
    exact hsane rfl _ rfl
  | lookStopped tick attempts final ih =>
    have hkept := (State.of_tick_true tick).2.2.1
    refine ⟨?_, (ih hready (hkept ▸ hfits) hprogram hjob (hkept ▸ hmemo)).2⟩
    rintro r ⟨⟩
    trivial
  | lookPassed tick attempts passed ih =>
    have hkept := (State.of_tick_true tick).2.2.1
    exact ⟨nofun, (ih hready (hkept ▸ hfits) hprogram hjob (hkept ▸ hmemo)).2⟩
  | @searchEnd c d steps p s result reach s' here ih =>
    refine (ih hready.1 hfits hprogram hjob hmemo).imp_left fun hresult => ?_
    cases result with
    | none => trivial
    | some r => exact hresult r rfl
  | searchDone here ih =>
    exact (ih hready.1 hfits hprogram hjob hmemo).imp_left fun hresult => hresult _ rfl
  | searchNext here tail ihhere ihtail =>
    obtain ⟨-, hfits₁⟩ := here.fits hready.1 hfits
    obtain ⟨-, hmemo₁⟩ := ihhere hready.1 hfits hprogram hjob hmemo
    exact ihtail hready.next hfits₁ hprogram hjob hmemo₁

end Packrat
