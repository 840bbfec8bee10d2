import Packrat.Proofs.Parse.Idle
import Packrat.Proofs.Parse.Reuse
import Packrat.Proofs.Parse.Rounds

/-!
# What holds of every tree of a parse

Something that holds of leaves and of error nodes, and of a node closed over trees as soon as it
holds of these, holds of every tree that a parse makes, whether it goes on to its end or not.
`Run.uniform` is the induction that carries it through a run and through what the run keeps.
-/

namespace Packrat

/-- Whether something holds of all leaves and error nodes, and goes on to hold when nodes are
closed. -/
structure Setting.Upholds (c : Setting) (P : Tree → Prop) : Prop where
  leaf : ∀ kind text, P (.leaf kind text)
  error : ∀ start stop, P (c.errorNode start stop)
  node : ∀ kind (trees : List Tree), (∀ t ∈ trees, P t) →
    P (.node kind (trees.dropWhile c.isTrivia))

section

variable (P : Tree → Prop)

/-- Whether something holds of all trees of what was taken. -/
def Taken.Uniform (t : Taken) : Prop := ∀ u ∈ t.trees, P u

/-- Whether something holds of all trees of what an answer takes. -/
def Answer.Uniform (a : Answer) : Prop := ∀ t, a.taken = some t → t.Uniform P

/-- Whether something holds of all trees of some results. -/
def Results.Uniform (r : Results) : Prop :=
  ∀ (key : MemoKey) (e : Entry), r[key]? = some e → ∀ t, e.taken = some t → t.Uniform P

/-- Whether something holds of all trees of what is kept. -/
def Memo.Uniform (m : Memo) : Prop :=
  ∀ key e, m.Holds true key e → ∀ t, e.taken = some t → t.Uniform P

/-- Whether something holds of all trees of what a search found. -/
def Search.Uniform : Search → Prop
  | found _ m => ∀ u ∈ m.trees, P u
  | _ => True

/-- Whether something holds of all trees of what a job comes to. -/
def Outcome.Uniform : Outcome → Prop
  | answer a => a.Uniform P
  | tried found _ => ∀ m, found = some m → ∀ u ∈ m.trees, P u
  | looked result _ => ∀ r, result = some r → r.Uniform P
  | searched result _ => result.Uniform P

end

variable {P : Tree → Prop} {c : Setting}

/-- What takes no tree has only trees that are as they should be. -/
theorem Taken.Uniform.nil {p : Nat} : Taken.Uniform P { stop := p } := by
  intro u hu
  cases hu

/-- What is taken in two steps has the trees of both. -/
theorem Taken.Uniform.andThen {t u : Taken} (ht : t.Uniform P) (hu : u.Uniform P) :
    (t.andThen u).Uniform P :=
  List.forall_mem_append.mpr ⟨ht, hu⟩

namespace Setting.Upholds

/-- With recovery switched off, a parse makes trees in the same ways. -/
theorem strict (h : c.Upholds P) : c.strict.Upholds P := ⟨h.leaf, h.error, h.node⟩

/-- What holds of every leaf holds of trees that are leaves. -/
theorem leaves (h : c.Upholds P) {trees : List Tree}
    (hleaves : ∀ t ∈ trees, ∃ kind text, t = .leaf kind text) : ∀ t ∈ trees, P t := by
  intro t ht
  obtain ⟨kind, text, rfl⟩ := hleaves t ht
  exact h.leaf kind text

/-- A node that is closed over trees is as they are, and so is the trivia that stays in front of
it. -/
theorem close (h : c.Upholds P) (kind : Nat) {trees : List Tree} (htrees : ∀ t ∈ trees, P t) :
    ∀ t ∈ c.close kind trees, P t := by
  refine List.forall_mem_append.mpr ⟨fun t ht => ?_, fun t ht => ?_⟩
  · exact htrees t ((List.takeWhile_sublist _).mem ht)
  · obtain rfl := List.mem_singleton.mp ht
    exact h.node kind trees htrees

/-- What holds of every leaf holds of trivia. -/
theorem trivia (h : c.Upholds P) (p : Nat) : ∀ t ∈ (c.trivia p).leaves, P t := by
  intro t ht
  obtain ⟨piece, -, rfl⟩ := List.mem_map.mp ht
  exact h.leaf _ _

/-- What holds of every error node holds of the one that is taken for what is missing. -/
theorem takenError (h : c.Upholds P) (start stop : Nat) (expected : List Nat) :
    (c.takenError start stop expected).Uniform P := by
  intro t ht
  obtain rfl := List.mem_singleton.mp ht
  exact h.error start stop

/-- What a recovery takes in a sequence is an error node and the trees that its search has found. -/
theorem resumedTaken (h : c.Upholds P) (p : Nat) (expected : List Nat) {result : Search}
    (hresult : result.Uniform P) : (c.resumedTaken p expected result).Uniform P := by
  have hblank : Taken.Uniform P { stop := (c.trivia p).stop, trees := (c.trivia p).leaves } :=
    h.trivia p
  cases result with
  | abandoned => exact hblank
  | stopped stop => exact hblank.andThen (h.takenError _ _ _)
  | found start m =>
    refine hblank.andThen ?_
    split
    · exact (h.takenError _ _ _).andThen hresult
    · exact hresult

/-- What a recovery takes in a repetition is an error node and the trees that its search has
found. -/
theorem resumedIteration? (h : c.Upholds P) (p : Nat) (expected : List Nat) {result : Search}
    {t : Taken} (hresult : result.Uniform P)
    (ht : c.resumedIteration? p expected result = some t) : t.Uniform P := by
  cases result with
  | found start m =>
    cases ht
    have hfound : Search.Uniform P (.found start { m with index := 0 }) := hresult
    exact h.resumedTaken p expected hfound
  | stopped => cases ht
  | abandoned => cases ht

end Setting.Upholds

namespace Answer.Uniform

variable {a : Answer} {notes : Notes}

/-- An answer that takes nothing has no tree. -/
theorem of_isNone : Answer.Uniform P ⟨none, notes⟩ := nofun

/-- An operation that is not run makes no tree. -/
theorem idle {p : Nat} : (Answer.idle p).Uniform P := by
  rintro t ⟨⟩
  exact .nil

/-- The end of a repetition makes no tree. -/
theorem endRepetition {least count p : Nat} : (endRepetition least count p notes).Uniform P := by
  unfold Packrat.endRepetition
  split
  · exact of_isNone
  · rintro t ⟨⟩
    exact .nil

/-- An answer behind what was taken has the trees of both. -/
theorem behind {t : Taken} (ht : t.Uniform P) (ha : a.Uniform P) :
    (Answer.behind t notes a).Uniform P := by
  intro u hu
  obtain ⟨v, hv, rfl⟩ := Option.map_eq_some_iff.mp hu
  exact ht.andThen (ha v hv)

/-- A part that is given a name is as its trees are. -/
theorem wrapped (hc : c.Upholds P) (kind : Nat) (h : a.Uniform P) :
    (a.wrapped c kind).Uniform P := by
  intro t ht
  obtain ⟨u, hu, rfl⟩ := Option.map_eq_some_iff.mp ht
  exact hc.close kind (h u hu)

/-- What a call comes to is as the trees of the rule are. -/
theorem called (hc : c.Upholds P) (rule : Nat) (renamed : Option Nat) (halted : Bool)
    (h : a.Uniform P) : (a.called c rule renamed halted).Uniform P := by
  intro t ht
  obtain ⟨u, hu, rfl⟩ := Option.map_eq_some_iff.mp ht
  split
  · exact h u hu
  · exact hc.close _ (h u hu)

end Answer.Uniform

/-- A terminal takes leaves. -/
theorem runToken_uniform (hc : c.Upholds P) (terminal kind : Nat) (immediate : Bool) (p : Nat)
    (s : State) : (runToken c terminal kind immediate p s).1.Uniform P := by
  obtain ⟨trivia, htrivia⟩ : ∃ trivia, trivia =
      if immediate then (⟨[], p, 0⟩ : Trivia) else c.trivia p := ⟨_, rfl⟩
  have hleaves : ∀ t ∈ trivia.leaves, P t := by
    rw [htrivia]
    split
    · exact nofun
    · exact hc.trivia p
  simp only [runToken, ← htrivia]
  cases ((c.program.terminal terminal).scanAt c.text trivia.stop).length with
  | none => exact .of_isNone
  | some n =>
    rintro t ⟨⟩
    refine List.forall_mem_append.mpr ⟨hleaves, fun t ht => ?_⟩
    split at ht
    · cases ht
    · obtain rfl := List.mem_singleton.mp ht
      exact hc.leaf _ _

namespace Memo.Uniform

variable {s : State} {rule p : Nat}

/-- A result that is used again has the trees with which it was kept. -/
theorem answer {entry : Entry} {recovering : Bool} (h : s.memo.Uniform P)
    (hknown : known? c rule p s = some (entry, recovering)) :
    (entry.answer c recovering).Uniform P :=
  h (rule, p) entry (holds_of_known? (fun _ => rfl) hknown)

/-- To keep an answer keeps no other trees than those of the answer. -/
theorem keep {a : Answer} (h : s.memo.Uniform P) (ha : a.Uniform P) :
    (Packrat.keep c rule p (a.entry p) s).memo.Uniform P := by
  intro key e he
  rcases holds_keep he with hold | ⟨rfl, rfl, -⟩
  · exact h key e hold
  · exact ha

/-- What is left of a table when results are dropped was in it. -/
theorem settle {m : Memo} (h : m.Uniform P) : m.settle.Uniform P :=
  fun key e he => h key e he.of_settle

/-- The strict results of a table are some of its results. -/
theorem strict {m : Memo} (h : m.Uniform P) : m.strict.Uniform P :=
  fun key e he => h key e (.inl he)

end Memo.Uniform

/-- What a program upholds holds of every tree of what a run takes and of what it keeps. -/
theorem Run.uniform {d : Nat} {job : Job} {p : Nat} {s s' : State} {out : Outcome}
    (h : Run c d job p s out s') (hc : c.Upholds P) (hmemo : s.memo.Uniform P) :
    out.Uniform P ∧ s'.memo.Uniform P := by
  induction h with
  | refused tick => exact ⟨.idle, (State.of_tick_false tick).2 ▸ hmemo⟩
  | tooDeep tick =>
    have hkept := (State.of_tick_true tick).2.2.1
    exact ⟨.idle, by simpa only [State.stop_memo, hkept] using hmemo⟩
  | ticked tick rest ih =>
    have hkept := (State.of_tick_true tick).2.2.1
    exact ih hc (hkept ▸ hmemo)
  | blank => exact ⟨.idle, hmemo⟩
  | @token c d terminal kind immediate p s =>
    obtain ⟨e, he⟩ := runToken_state c terminal kind immediate p s
    exact ⟨runToken_uniform hc terminal kind immediate p s, he ▸ hmemo⟩
  | call rest ih => exact (ih hc hmemo).imp_left (Answer.Uniform.called hc _ _ _)
  | members rest ih => exact ih hc hmemo
  | alternatives rest ih => exact ih hc hmemo
  | repetition rest ih => exact ih hc hmemo
  | wrap rest ih => exact (ih hc hmemo).imp_left (Answer.Uniform.wrapped hc _)
  | cancelled ask => exact ⟨.idle, (State.of_ask_false ask).2 ▸ hmemo⟩
  | hit ask known =>
    have hkept := (State.of_ask_true ask).2.2.1
    rw [← hkept] at hmemo
    exact ⟨hmemo.answer known, hmemo⟩
  | body ask unknown rest ih =>
    have hkept := (State.of_ask_true ask).2.2.1
    obtain ⟨ha, hmemo'⟩ := ih hc (hkept ▸ hmemo)
    exact ⟨ha, hmemo'.keep ha⟩
  | seqNil => exact ⟨.idle, hmemo⟩
  | seqSkip tail ih => exact ih hc hmemo
  | seqTook head tail ihhead ihtail =>
    obtain ⟨ha, hmemo₁⟩ := ihhead hc hmemo
    exact (ihtail hc hmemo₁).imp_left (Answer.Uniform.behind (ha _ rfl))
  | seqFailed head final ih => exact (ih hc hmemo).imp_left fun _ => .of_isNone
  | seqEnded head armed scan ended ihhead ihscan =>
    obtain ⟨-, hmemo₁⟩ := ihhead hc hmemo
    obtain ⟨hresult, hmemo₂⟩ := ihscan hc hmemo₁
    refine ⟨?_, by rwa [State.recordError_memo]⟩
    rintro t ⟨⟩
    exact hc.resumedTaken _ _ hresult
  | seqResumed head armed scan resumed tail ihhead ihscan ihtail =>
    obtain ⟨-, hmemo₁⟩ := ihhead hc hmemo
    obtain ⟨hresult, hmemo₂⟩ := ihscan hc hmemo₁
    exact (ihtail hc (by rwa [State.recordError_memo])).imp_left
      (Answer.Uniform.behind (hc.resumedTaken _ _ hresult))
  | choiceNil => exact ⟨.of_isNone, hmemo⟩
  | choiceTook head ih => exact ih hc hmemo
  | choiceNext head tail ihhead ihtail => exact ihtail hc (ihhead hc hmemo).2
  | exhausted => exact ⟨.endRepetition, hmemo⟩
  | enough => exact ⟨.endRepetition, hmemo⟩
  | idleIteration room head still ih => exact (ih hc hmemo).imp_left fun _ => .endRepetition
  | nextIteration room head moved tail ihhead ihtail =>
    obtain ⟨ha, hmemo₁⟩ := ihhead hc hmemo
    exact (ihtail hc hmemo₁).imp_left (Answer.Uniform.behind (ha _ rfl))
  | lastIteration room head final ih => exact (ih hc hmemo).imp_left fun _ => .endRepetition
  | lostIteration room head started armed scan ended ihhead ihscan =>
    exact ⟨.endRepetition, (ihscan hc (ihhead hc hmemo).2).2⟩
  | foundIteration room head started armed scan resumed tail ihhead ihscan ihtail =>
    obtain ⟨-, hmemo₁⟩ := ihhead hc hmemo
    obtain ⟨hresult, hmemo₂⟩ := ihscan hc hmemo₁
    exact (ihtail hc (by rwa [State.recordError_memo])).imp_left
      (Answer.Uniform.behind (hc.resumedIteration? _ _ hresult resumed))
  | trialNil => exact ⟨nofun, hmemo⟩
  | trialFound head past ih =>
    refine (ih hc hmemo).imp_left fun ha => ?_
    rintro m ⟨⟩
    exact ha _ rfl
  | trialNext head short tail ihhead ihtail => exact ihtail hc (ihhead hc hmemo).2
  | lookRefused tick =>
    refine ⟨?_, (State.of_tick_false tick).2 ▸ hmemo⟩
    rintro r ⟨⟩
    trivial
  | lookFound tick attempts ih =>
    have hkept := (State.of_tick_true tick).2.2.1
    refine (ih hc.strict (hkept ▸ hmemo)).imp_left fun hfound => ?_
    rintro r ⟨⟩
    exact hfound _ rfl
  | lookStopped tick attempts final ih =>
    have hkept := (State.of_tick_true tick).2.2.1
    refine (ih hc.strict (hkept ▸ hmemo)).imp_left fun _ => ?_
    rintro r ⟨⟩
    trivial
  | lookPassed tick attempts passed ih =>
    have hkept := (State.of_tick_true tick).2.2.1
    exact (ih hc.strict (hkept ▸ hmemo)).imp_left fun _ => nofun
  | @searchEnd c d steps p s result reach s' here ih =>
    refine (ih hc hmemo).imp_left fun hresult => ?_
    cases result with
    | none => trivial
    | some r => exact hresult r rfl
  | searchDone here ih => exact (ih hc hmemo).imp_left fun hresult => hresult _ rfl
  | searchNext here tail ihhere ihtail => exact ihtail hc (ihhere hc hmemo).2

/-- A round takes trivia behind what the start rule takes. -/
theorem runRound_uniform {depth : Nat} {s s' : State} {a : Answer}
    (h : runRound c depth s = (a, s')) (hc : c.Upholds P) (hmemo : s.memo.Uniform P) :
    a.Uniform P ∧ s'.memo.Uniform P := by
  obtain ⟨a₀, hrun, rfl⟩ := runRound_eq.mp h
  refine (hrun.uniform hc hmemo).imp_left fun ha t ht => ?_
  obtain ⟨t₀, ht₀, rfl⟩ := Option.map_eq_some_iff.mp ht
  exact (ha t₀ ht₀).andThen (hc.trivia t₀.stop)

section

variable {p : Program} {o : ParseOptions} {text : Text}

/-- What holds of the trees of each round holds of the trees of the last one and of all that is
kept. -/
theorem Rounds.uniform {left number : Nat} {points points' : List Nat} {s s' : State} {a : Answer}
    (h : Rounds p o text left number points s a points' s')
    (hc : ∀ points, (roundSetting p o text points).Upholds P) (hmemo : s.memo.Uniform P) :
    a.Uniform P ∧ s'.memo.Uniform P := by
  induction h with
  | last round final => exact runRound_uniform round (hc _) hmemo
  | next round more rest ih => exact ih (runRound_uniform round (hc _) hmemo).2.settle

/-- What a program upholds holds of all trees below the root and of the results that are kept. -/
theorem Program.parseWith_uniform {known : Results} {traced : Bool}
    (hc : ∀ points, (roundSetting p o text points).Upholds P) (hknown : known.Uniform P) :
    (∃ children, (p.parseWith o known traced text).tree = .node p.startRule.kind children ∧
      ∀ t ∈ children, P t) ∧ (p.parseWith o known traced text).results.Uniform P := by
  obtain ⟨a, points, s, hrounds, heq⟩ := p.exists_rounds o known traced text
  have hstart : (o.startState known traced).memo.Uniform P := by
    rintro key e (he | ⟨-, he⟩)
    · exact hknown key e he
    · simp [ParseOptions.startState] at he
  obtain ⟨ha, hmemo⟩ := hrounds.uniform hc hstart
  rw [heq]
  refine ⟨⟨_, rfl, ?_⟩, hmemo.strict⟩
  have htaken : (a.taken.getD { stop := 0 }).Uniform P := by
    cases htaken : a.taken with
    | none => exact .nil
    | some t => exact ha t htaken
  unfold takenInFull
  simp only
  split
  · exact htaken.andThen ((hc points).takenError _ _ _)
  · exact htaken

end

/-- Trees stay as they are when results are carried over an edit. -/
theorem Results.Uniform.carryOver {edit : Edit} {results : Results} (h : results.Uniform P) :
    (edit.carryOver results).Uniform P := by
  intro key entry hentry t ht
  obtain ⟨key₀, entry₀, hold, hcarry⟩ := Edit.of_getElem?_carryOver hentry
  rcases Edit.carry?_eq_some hcarry with ⟨-, rfl, rfl⟩ | ⟨-, rfl, rfl⟩
  · exact h _ _ hold t ht
  · obtain ⟨t₀, ht₀, rfl⟩ := Option.map_eq_some_iff.mp ht
    exact h key₀ entry₀ hold t₀ ht₀

end Packrat
