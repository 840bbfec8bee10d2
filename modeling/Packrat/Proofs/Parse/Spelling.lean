import Packrat.Proofs.Grammar.Spelling
import Packrat.Proofs.Program.Reading
import Packrat.Proofs.Strict.Soundness

/-!
# Runs without errors spell matches

In a parse that goes on, every run that takes something without an error spells a match of the part
of the grammar that its job stands for, in strict and recovering rounds and from results that were
kept. Where members of a sequence are left out or text is skipped there is an error, so a recovery
without one goes on with the member that failed, behind the trivia. `Run.spelled` is the induction
that carries this.
-/

namespace Packrat

variable {g : Grammar} {start : Nat}

/-- Whether trees spell a match of a part of the grammar, once they are read in the table of a
program. Leaves of the kinds of extras may stand before a node. -/
def Program.Spelled (p : Program) (g : Grammar) (start : Nat) (text : Text) (part : Part)
    (q stop : Nat) (trees : List Tree) : Prop :=
  ∃ ns, p.namedAll? trees = some ns ∧
    g.Spells start text (g.isTrivia start · = true) part q stop ns

/-- Whether something that was taken without errors spells a match of what a task stands for. -/
def Taken.Spelled (g : Grammar) (start : Nat) (p : Program) (text : Text) (task : Task) (q : Nat)
    (t : Taken) : Prop :=
  t.errors = [] → ∀ part, Stands g start p part task →
    p.Spelled g start text part q t.stop t.trees

/-- Whether kept results that were taken without errors spell matches of their rules. -/
def Results.Spelled (g : Grammar) (start : Nat) (p : Program) (text : Text) (r : Results) : Prop :=
  ∀ (key : MemoKey) (e : Entry), r[key]? = some e → ∀ t, e.taken = some t →
    t.Spelled g start p text (.rule key.1) key.2

/-- The same for all kept results. -/
structure Memo.Spelled (g : Grammar) (start : Nat) (p : Program) (text : Text) (m : Memo) :
    Prop where
  strict : m.strict.Spelled g start p text
  recovering : m.recovering.Spelled g start p text

/-- Whether an operation that was found to match, the places being counted from some number,
spells a match of the member in its place. -/
def Match.Spelled (g : Grammar) (start : Nat) (p : Program) (text : Text) (steps : List Step)
    (index q : Nat) (m : Match) : Prop :=
  ∃ place step, m.index = index + place ∧ steps[place]? = some step ∧
    ∀ r, Lowers g start p r step → p.Spelled g start text (.expression r) q m.stop m.trees

/-- Whether a search found what spells a match. In a parse that goes on it is not abandoned. -/
def Search.Spelled (g : Grammar) (start : Nat) (p : Program) (text : Text) (steps : List Step) :
    Search → Prop
  | found q m => m.Spelled g start p text steps 0 q
  | stopped _ => True
  | abandoned => False

/-- Whether what a job comes to in a parse that goes on spells a match. -/
def Outcome.Spelled (g : Grammar) (start : Nat) (c : Setting) (job : Job) (q : Nat) :
    Outcome → Prop
  | answer a => ∀ task, job.task? = some task → ∀ t, a.taken = some t →
    t.Spelled g start c.program c.text task q
  | tried found _ => ∀ floor index steps, job = .trial floor index steps → c.recovering = false →
    ∀ m, found = some m → m.Spelled g start c.program c.text steps index q
  | looked result _ => ∀ steps, job = .look steps → ∀ r, result = some r →
    r.Spelled g start c.program c.text steps
  | searched result _ => ∀ steps rest, job = .search steps rest →
    result.Spelled g start c.program c.text steps

namespace Program.Spelled

variable {p : Program} {text : Text} {q stop : Nat} {trees : List Tree}

/-- What spells an expression without its wrappers spells the expression. -/
theorem of_unwrapped {r : Rule}
    (h : p.Spelled g start text (.expression r.unwrapped) q stop trees) :
    p.Spelled g start text (.expression r) q stop trees :=
  Exists.imp (fun _ => And.imp_right Grammar.Spells.of_unwrapped) h

/-- A part may be spelled behind the trivia in front of it. -/
theorem behind_trivia {c : Setting} {part : Part} (himplements : c.program.Implements g start)
    (h : c.program.Spelled g start c.text part (c.trivia q).stop stop trees) :
    c.program.Spelled g start c.text part q stop ((c.trivia q).leaves ++ trees) := by
  obtain ⟨m, hskips, hstop, hleaves⟩ := himplements.trivia_skips rfl q
  obtain ⟨ns, hns, hspells⟩ := h
  simp only at hstop
  exact ⟨_, namedAll?_append hleaves hns, .trivia hskips (hstop ▸ hspells)⟩

/-- A member and the rest of a sequence spell the sequence. -/
theorem seqCons {r : Rule} {rs : List Rule} {o : Nat} {others : List Tree}
    (h : p.Spelled g start text (.expression r) q stop trees)
    (htail : p.Spelled g start text (.sequence rs) stop o others) :
    p.Spelled g start text (.sequence (r :: rs)) q o (trees ++ others) := by
  obtain ⟨ns, hns, hspells⟩ := h
  obtain ⟨ms, hms, hspells'⟩ := htail
  exact ⟨_, namedAll?_append hns hms, .seqCons hspells hspells'⟩

/-- An iteration and the ones that follow spell the repetition, as long as there is room for it. -/
theorem next {r : Rule} {least : Nat} {most : Option Nat} {count o : Nat} {others : List Tree}
    (room : most.any (· ≤ count) = false)
    (h : p.Spelled g start text (.expression r) q stop trees)
    (htail : p.Spelled g start text (.iterations r least most (count + 1)) stop o others) :
    p.Spelled g start text (.iterations r least most count) q o (trees ++ others) := by
  obtain ⟨ns, hns, hspells⟩ := h
  obtain ⟨ms, hms, hspells'⟩ := htail
  exact ⟨_, namedAll?_append hns hms, .next room hspells hspells'⟩

end Program.Spelled

/-- A leaf is spelled by what a terminal takes. -/
theorem Taken.Spelled.token {c : Setting} (himplements : c.program.Implements g start)
    {terminal kind : Nat} {immediate : Bool} {q : Nat} {s : State} {t : Taken}
    (ht : (runToken c terminal kind immediate q s).1.taken = some t) :
    t.Spelled g start c.program c.text (.step (.token terminal kind immediate)) q := by
  rintro - part hstands
  obtain ⟨hlowers⟩ := hstands
  obtain ⟨source, kind', htaken, hleaf⟩ := hlowers.standsFor himplements
  obtain ⟨m, htakes, hreads⟩ := himplements.token_takes hleaf c.text q
  rw [← plain_runToken c terminal kind immediate q s, Answer.plain, ht] at hreads
  cases hreads with
  | some hread =>
    refine .of_unwrapped ⟨_, hread.2, ?_⟩
    rw [hread.1]
    exact .of_takes htaken htakes

/-- What takes nothing spells a part that nothing spells. -/
theorem Taken.Spelled.of_stop {c : Setting} {task : Task} {q : Nat}
    (h : ∀ part, Stands g start c.program part task →
      g.Spells start c.text (g.isTrivia start · = true) part q q []) :
    Taken.Spelled g start c.program c.text task q { stop := q } :=
  fun _ part hstands => ⟨[], rfl, h part hstands⟩

/-- A call of a rule whose body is spelled. -/
theorem Taken.Spelled.called {c : Setting} (himplements : c.program.Implements g start)
    {rule : Nat} {renamed : Option Nat} {q : Nat} {a : Answer} {t : Taken}
    (ha : ∀ t, a.taken = some t → t.Spelled g start c.program c.text (.rule rule) q)
    (ht : (a.called c rule renamed false).taken = some t) :
    t.Spelled g start c.program c.text (.step (.call rule renamed)) q := by
  intro herrors part hstands
  obtain ⟨hlowers⟩ := hstands
  have hcall := hlowers.standsFor himplements
  obtain ⟨kind, hrefers, -⟩ := id hcall
  obtain ⟨u, hu, hclosed⟩ := Option.map_eq_some_iff.mp ht
  have hequal : u.errors = t.errors := by
    rw [← hclosed]
    split <;> rfl
  obtain ⟨ns, hns, hspells⟩ :=
    ha u hu (hequal.trans herrors) _ (.rule hrefers.inner.1 hrefers.inner.2)
  have hread : Option.Rel c.program.Reads a.taken (some ⟨u.stop, ns⟩) := by
    rw [hu]
    exact .some ⟨rfl, hns⟩
  obtain ⟨kind', hrefers', hreads⟩ := himplements.called_reads rfl hcall hread
  rw [ht] at hreads
  cases hreads with
  | some hreads =>
    refine .of_unwrapped ⟨_, hreads.2, ?_⟩
    rw [hreads.1]
    exact Grammar.Spells.enclosed hrefers' hspells

/-- A node around trees that are spelled. -/
theorem Taken.Spelled.wrapped {c : Setting} (himplements : c.program.Implements g start)
    {body : Step} {kind q : Nat} {a : Answer} {t : Taken}
    (ha : ∀ t, a.taken = some t → t.Spelled g start c.program c.text (.step body) q)
    (ht : (a.wrapped c kind).taken = some t) :
    t.Spelled g start c.program c.text (.step (.wrap body kind)) q := by
  intro herrors part hstands
  obtain ⟨hlowers⟩ := hstands
  obtain ⟨content, name, named, hr, hsymbol, hcompound, hcontent, hkind⟩ :=
    hlowers.standsFor himplements
  obtain ⟨u, hu, rfl⟩ := Option.map_eq_some_iff.mp ht
  obtain ⟨ns, hns, hspells⟩ := ha u hu herrors _ (.step hcontent)
  obtain ⟨hstop, htrees⟩ := himplements.close_reads rfl hkind (m := ⟨u.stop, ns⟩) ⟨rfl, hns⟩
  refine .of_unwrapped ⟨_, htrees, ?_⟩
  rw [hr]
  exact Grammar.Spells.closed (m := ⟨u.stop, ns⟩) hsymbol hcompound hspells

/-- What is spelled first and what is spelled behind it. -/
theorem Taken.Spelled.seqCons {c : Setting} {step : Step} {rest : List Step} {q : Nat}
    {t u : Taken} (ht : t.Spelled g start c.program c.text (.step step) q)
    (hu : u.Spelled g start c.program c.text (.seq rest) t.stop) :
    (t.andThen u).Spelled g start c.program c.text (.seq (step :: rest)) q := by
  intro herrors part hstands
  obtain ⟨htook, hothers⟩ := List.append_eq_nil_iff.mp herrors
  cases hstands with
  | seq members =>
    cases members with
    | cons head tail => exact .seqCons (ht htook _ (.step head)) (hu hothers _ (.seq tail))

/-- What an iteration takes and what the ones behind it take spell the repetition. -/
theorem Taken.Spelled.next {c : Setting} {step : Step} {least : Nat} {most : Option Nat}
    {count q : Nat} {t u : Taken} (room : most.any (· ≤ count) = false)
    (ht : t.Spelled g start c.program c.text (.step step) q)
    (hu : u.Spelled g start c.program c.text (.iterations step least most (count + 1)) t.stop) :
    (t.andThen u).Spelled g start c.program c.text (.iterations step least most count) q := by
  intro herrors part hstands
  obtain ⟨htook, hothers⟩ := List.append_eq_nil_iff.mp herrors
  cases hstands with
  | iterations content =>
    exact .next room (ht htook _ (.step content)) (hu hothers _ (.iterations content))

/-- The end of a repetition, of which there have been enough iterations. -/
theorem Taken.Spelled.endRepetition {c : Setting} {step : Step} {least : Nat} {most : Option Nat}
    {count q : Nat} {notes : Notes} {t : Taken}
    (ht : (endRepetition least count q notes).taken = some t) :
    t.Spelled g start c.program c.text (.iterations step least most count) q := by
  unfold Packrat.endRepetition at ht
  split at ht
  · cases ht
  · rename_i henough
    cases ht
    refine .of_stop fun part hstands => ?_
    cases hstands with
    | iterations => exact .done (by omega)

/-- A recovery without an error went on with what was found behind the trivia in the first
place. -/
theorem Setting.of_resumedTaken {c : Setting} {q : Nat} {expected : List Nat} {result : Search}
    (hfits : result.Fits c (c.trivia q).stop) (hresult : result ≠ .abandoned)
    (herrors : (c.resumedTaken q expected result).errors = []) :
    ∃ m, result = .found (c.trivia q).stop m ∧ m.index = 0 ∧
      c.resumedTaken q expected result =
        ⟨m.stop, (c.trivia q).leaves ++ m.trees, []⟩ := by
  cases result with
  | abandoned => exact absurd rfl hresult
  | stopped stop => simp [resumedTaken, Taken.andThen, takenError] at herrors
  | found position m =>
    obtain ⟨hle, -, -⟩ := hfits
    by_cases hskipped : ((c.trivia q).stop < position || 0 < m.index) = true
    · simp [resumedTaken, hskipped, Taken.andThen, takenError] at herrors
    · have hposition : position = (c.trivia q).stop := by
        simp only [Bool.or_eq_true, decide_eq_true_eq, not_or] at hskipped
        omega
      have hindex : m.index = 0 := by
        simp only [Bool.or_eq_true, decide_eq_true_eq, not_or] at hskipped
        omega
      refine ⟨m, by rw [hposition], hindex, ?_⟩
      simp [resumedTaken, hposition, hindex, Taken.andThen]

/-- To keep an answer that spells its rule leaves only such results in the table. -/
theorem Memo.Spelled.keep {c : Setting} {rule q : Nat} {a : Answer} {s : State}
    (hmemo : s.memo.Spelled g start c.program c.text)
    (ha : ∀ t, a.taken = some t → t.Spelled g start c.program c.text (.rule rule) q) :
    (Packrat.keep c rule q (a.entry q) s).memo.Spelled g start c.program c.text := by
  constructor
  · intro key e he
    rcases getElem?_keep_strict he with hold | ⟨rfl, rfl, -⟩
    · exact hmemo.strict key e hold
    · exact ha
  · intro key e he
    rcases getElem?_keep_recovering he with hold | ⟨rfl, rfl, -⟩
    · exact hmemo.recovering key e hold
    · exact ha

/-- A search that spells something has not been given up. -/
theorem Search.Spelled.ne_abandoned {c : Setting} {steps : List Step} {result : Search}
    (h : result.Spelled g start c.program c.text steps) : result ≠ .abandoned := by
  rintro rfl
  exact h

/-- What was found behind the trivia in the first place is spelled by the member there, and the
trivia with it. -/
theorem Taken.Spelled.resumed {c : Setting} (himplements : c.program.Implements g start)
    {step : Step} {rest : List Step} {q : Nat} {expected : List Nat} {m : Match}
    (hm : m.Spelled g start c.program c.text (step :: rest) 0 (c.trivia q).stop)
    (hindex : m.index = 0) :
    (c.resumedTaken q expected (.found (c.trivia q).stop m)).Spelled g start c.program c.text
      (.step step) q := by
  rintro - part ⟨hlowers⟩
  obtain ⟨place, found, hplace, hfound, hspelled⟩ := hm
  obtain rfl : place = 0 := by omega
  cases hfound
  simp only [Setting.resumedTaken, hindex, Nat.lt_irrefl, decide_false, Bool.or_self,
    Bool.false_eq_true, if_false]
  exact .behind_trivia himplements (hspelled _ hlowers)

/-- An iteration that was found without an error is spelled by the body. -/
theorem Taken.Spelled.foundIteration {c : Setting} (himplements : c.program.Implements g start)
    {body : Step} {q : Nat} {expected : List Nat} {result : Search} {t : Taken}
    (hfits : result.Fits c (c.trivia q).stop)
    (hresult : result.Spelled g start c.program c.text [body])
    (ht : c.resumedIteration? q expected result = some t) (herrors : t.errors = []) :
    t.Spelled g start c.program c.text (.step body) q := by
  cases result with
  | stopped => cases ht
  | abandoned => cases ht
  | found position m =>
    cases ht
    have hfits' : Search.Fits c (c.trivia q).stop (.found position { m with index := 0 }) := hfits
    obtain ⟨_, hfound, -, -⟩ := Setting.of_resumedTaken hfits' nofun herrors
    obtain ⟨place, step, -, hstep, hspelled⟩ := hresult
    obtain ⟨rfl, -⟩ : position = (c.trivia q).stop ∧ _ := Search.found.inj hfound
    cases place with
    | zero => exact .resumed himplements ⟨0, step, rfl, hstep, hspelled⟩ rfl
    | succ place => simp at hstep

/-- A run in a parse that goes on spells a match, unless it makes an error. -/
theorem Run.spelled {c : Setting} {d : Nat} {job : Job} {q : Nat} {s s' : State} {out : Outcome}
    (h : Run c d job q s out s') (hlive : s'.halted = none) (hready : job.Ready c q)
    (hfits : s.memo.Fits c.text c.points) (himplements : c.program.Implements g start)
    (hmemo : s.memo.Spelled g start c.program c.text) :
    out.Spelled g start c job q ∧ s'.memo.Spelled g start c.program c.text := by
  induction h with
  | refused tick => exact absurd hlive (State.of_tick_false tick).1
  | tooDeep tick => simp at hlive
  | ticked tick rest ih =>
    have hkept := (State.of_tick_true tick).2.2.1
    refine (ih hlive hready (hkept ▸ hfits) himplements (hkept ▸ hmemo)).imp_left fun ha => ?_
    rintro task ⟨⟩
    exact ha _ rfl
  | blank =>
    refine ⟨?_, hmemo⟩
    rintro task ⟨⟩ t ⟨⟩
    refine .of_stop fun part hstands => ?_
    obtain ⟨hlowers⟩ := hstands
    have hblank : _ = Rule.blank := hlowers.standsFor himplements
    exact .of_unwrapped (hblank ▸ .blank)
  | @token c d terminal kind immediate q s =>
    obtain ⟨e, he⟩ := runToken_state c terminal kind immediate q s
    refine ⟨?_, he ▸ hmemo⟩
    rintro task ⟨⟩ t ht
    exact .token himplements ht
  | call rest ih =>
    refine (ih hlive hready hfits himplements hmemo).imp_left fun ha => ?_
    rintro task ⟨⟩ t ht
    rw [State.isHalted_eq_false.mpr hlive] at ht
    exact .called himplements (ha _ rfl) ht
  | members rest ih =>
    refine (ih hlive hready hfits himplements hmemo).imp_left fun ha => ?_
    rintro task ⟨⟩ t ht herrors part ⟨hlowers⟩
    obtain ⟨rs, hrs, hmembers⟩ := hlowers.standsFor himplements
    obtain ⟨ns, hns, hspells⟩ := ha _ rfl t ht herrors _ (.seq hmembers)
    exact .of_unwrapped ⟨ns, hns, by rw [hrs]; exact .members hspells⟩
  | alternatives rest ih =>
    refine (ih hlive hready hfits himplements hmemo).imp_left fun ha => ?_
    rintro task ⟨⟩ t ht herrors part ⟨hlowers⟩
    obtain ⟨rs, hrs, hmembers⟩ := hlowers.standsFor himplements
    obtain ⟨ns, hns, hspells⟩ := ha _ rfl t ht herrors _ (.choice hmembers)
    exact .of_unwrapped ⟨ns, hns, by rw [hrs]; exact .alternatives hspells⟩
  | repetition rest ih =>
    refine (ih hlive hready hfits himplements hmemo).imp_left fun ha => ?_
    rintro task ⟨⟩ t ht herrors part ⟨hlowers⟩
    obtain ⟨content, hcontent, hlowers'⟩ := hlowers.standsFor himplements
    obtain ⟨ns, hns, hspells⟩ := ha _ rfl t ht herrors _ (.iterations hlowers')
    exact .of_unwrapped ⟨ns, hns, by rw [hcontent]; exact .repetition hspells⟩
  | wrap rest ih =>
    refine (ih hlive hready hfits himplements hmemo).imp_left fun ha => ?_
    rintro task ⟨⟩ t ht
    exact .wrapped himplements (ha _ rfl) ht
  | cancelled ask => exact absurd hlive (State.of_ask_false ask).1
  | @hit c d rule q s s₁ entry recovering ask known =>
    have hkept := (State.of_ask_true ask).2.2.1
    rw [← hkept] at hmemo
    refine ⟨?_, hmemo⟩
    rintro task ⟨⟩ t ht
    obtain ⟨-, ⟨-, -, hentry⟩ | ⟨-, hentry, -, -⟩⟩ := of_known? known
    · exact hmemo.recovering _ _ hentry t ht
    · exact hmemo.strict _ _ hentry t ht
  | @body c d rule q s s₁ a s₂ ask unknown rest ih =>
    have hkept := (State.of_ask_true ask).2.2.1
    obtain ⟨ha, hmemo₂⟩ :=
      ih (by simpa using hlive) hready (hkept ▸ hfits) himplements (hkept ▸ hmemo)
    have hrule : ∀ t, a.taken = some t → t.Spelled g start c.program c.text (.rule rule) q := by
      rintro t ht herrors part hstands
      cases hstands with
      | rule hi hinner => exact ha _ rfl t ht herrors _ (.step (himplements.body rule hi hinner))
    refine ⟨?_, hmemo₂.keep hrule⟩
    rintro task ⟨⟩
    exact hrule
  | @seqNil c d skip isFirst q s =>
    refine ⟨?_, hmemo⟩
    rintro task ⟨⟩ t ⟨⟩
    rw [List.drop_nil]
    refine .of_stop fun part hstands => ?_
    cases hstands with
    | seq members =>
      cases members
      exact .seqNil
  | seqSkip tail ih => exact ih hlive hready hfits himplements hmemo
  | seqTook head tail ihhead ihtail =>
    obtain ⟨hfirst, hfits₁⟩ := head.fits hready hfits
    obtain ⟨ha, hmemo₁⟩ := ihhead (tail.live hlive) hready hfits himplements hmemo
    refine (ihtail hlive (hfirst.isBoundary hready rfl) hfits₁ himplements hmemo₁).imp_left
      fun hrest => ?_
    rintro task ⟨⟩ t ht
    obtain ⟨u, hu, rfl⟩ := Option.map_eq_some_iff.mp ht
    exact .seqCons (ha _ rfl _ rfl) (hrest _ rfl u hu)
  | seqFailed head final ih =>
    refine ⟨?_, (ih hlive hready hfits himplements hmemo).2⟩
    rintro task ⟨⟩ t ⟨⟩
  | seqEnded head armed scan ended ihhead ihscan =>
    obtain ⟨-, hfits₁⟩ := head.fits hready hfits
    have hready₁ := Job.ready_search hready
    have hlive₁ := scan.live (by simpa using hlive)
    obtain ⟨hresult, -⟩ := scan.fits (hready₁ _) hfits₁
    obtain ⟨-, hmemo₁⟩ := ihhead hlive₁ hready hfits himplements hmemo
    obtain ⟨hspelled, hmemo₂⟩ :=
      ihscan (by simpa using hlive) (hready₁ _) hfits₁ himplements hmemo₁
    refine ⟨?_, by rwa [State.recordError_memo]⟩
    rintro task ⟨⟩ t ⟨⟩ herrors
    obtain ⟨m, rfl, -⟩ := Setting.of_resumedTaken hresult
      (Search.Spelled.ne_abandoned (hspelled _ _ rfl)) herrors
    cases ended
  | @seqResumed c d step rest q s notes s₁ failure result reach s₂ index a s' head armed scan
      resumed tail ihhead ihscan ihtail =>
    obtain ⟨-, hfits₁⟩ := head.fits hready hfits
    have hready₁ := Job.ready_search hready
    have hlive₂ : s₂.halted = none := by simpa using tail.live hlive
    have hlive₁ := scan.live hlive₂
    obtain ⟨hresult, hfits₂⟩ := scan.fits (hready₁ _) hfits₁
    obtain ⟨-, hmemo₁⟩ := ihhead hlive₁ hready hfits himplements hmemo
    obtain ⟨hspelled, hmemo₂⟩ := ihscan hlive₂ (hready₁ _) hfits₁ himplements hmemo₁
    have hready₂ := Setting.isBoundary_resumedTaken_stop failure.expected hready hresult
    refine (ihtail hlive hready₂ (by rwa [State.recordError_memo]) himplements
      (by rwa [State.recordError_memo])).imp_left fun hrest => ?_
    rintro task ⟨⟩ t ht herrors
    obtain ⟨u, hu, rfl⟩ := Option.map_eq_some_iff.mp ht
    obtain ⟨m, rfl, hindex, -⟩ := Setting.of_resumedTaken hresult
      (Search.Spelled.ne_abandoned (hspelled _ _ rfl)) (List.append_eq_nil_iff.mp herrors).1
    obtain rfl : index = 0 := by
      cases resumed
      exact hindex
    exact Taken.Spelled.seqCons (.resumed himplements (hspelled _ _ rfl) hindex) (hrest _ rfl u hu)
      herrors
  | choiceNil =>
    refine ⟨?_, hmemo⟩
    rintro task ⟨⟩ t ⟨⟩
  | choiceTook head ih =>
    refine (ih hlive hready hfits himplements hmemo).imp_left fun ha => ?_
    rintro task ⟨⟩ t ⟨⟩ herrors part hstands
    cases hstands with
    | choice members =>
      cases members with
      | cons first others =>
        obtain ⟨ns, hns, hspells⟩ := ha _ rfl _ rfl herrors _ (.step first)
        exact ⟨ns, hns, .choice List.mem_cons_self hspells⟩
  | choiceNext head tail ihhead ihtail =>
    obtain ⟨-, hfits₁⟩ := head.fits hready hfits
    obtain ⟨-, hmemo₁⟩ := ihhead (tail.live hlive) hready hfits himplements hmemo
    refine (ihtail hlive hready hfits₁ himplements hmemo₁).imp_left fun ha => ?_
    rintro task ⟨⟩ t ht herrors part hstands
    cases hstands with
    | choice members =>
      cases members with
      | cons first others =>
        obtain ⟨ns, hns, hspells⟩ := ha _ rfl t ht herrors _ (.choice others)
        exact ⟨ns, hns, Grammar.Spells.choice_cons hspells⟩
  | exhausted =>
    refine ⟨?_, hmemo⟩
    rintro task ⟨⟩ t ht
    exact .endRepetition ht
  | enough full =>
    refine ⟨?_, hmemo⟩
    rintro task ⟨⟩ t ht
    exact .endRepetition ht
  | idleIteration room head still ih =>
    refine (ih hlive hready hfits himplements hmemo).imp_left fun _ => ?_
    rintro task ⟨⟩ t ht
    exact .endRepetition ht
  | nextIteration room head moved tail ihhead ihtail =>
    obtain ⟨hfirst, hfits₁⟩ := head.fits hready hfits
    obtain ⟨ha, hmemo₁⟩ := ihhead (tail.live hlive) hready hfits himplements hmemo
    refine (ihtail hlive (hfirst.isBoundary hready rfl) hfits₁ himplements hmemo₁).imp_left
      fun hrest => ?_
    rintro task ⟨⟩ t ht
    obtain ⟨u, hu, rfl⟩ := Option.map_eq_some_iff.mp ht
    exact .next room (ha _ rfl _ rfl) (hrest _ rfl u hu)
  | lastIteration room head final ih =>
    refine (ih hlive hready hfits himplements hmemo).imp_left fun _ => ?_
    rintro task ⟨⟩ t ht
    exact .endRepetition ht
  | lostIteration room head started armed scan ended ihhead ihscan =>
    obtain ⟨-, hfits₁⟩ := head.fits hready hfits
    obtain ⟨-, hmemo₁⟩ := ihhead (scan.live hlive) hready hfits himplements hmemo
    refine (ihscan hlive (Job.ready_search hready _) hfits₁ himplements hmemo₁).imp_left
      fun _ => ?_
    rintro task ⟨⟩ t ht
    exact .endRepetition ht
  | @foundIteration c d body least most left count q s notes s₁ failure result reach s₂ t a s' room
      head started armed scan resumed tail ihhead ihscan ihtail =>
    obtain ⟨-, hfits₁⟩ := head.fits hready hfits
    have hready₁ := Job.ready_search hready
    have hlive₂ : s₂.halted = none := by simpa using tail.live hlive
    have hlive₁ := scan.live hlive₂
    obtain ⟨hresult, hfits₂⟩ := scan.fits (hready₁ _) hfits₁
    obtain ⟨-, hmemo₁⟩ := ihhead hlive₁ hready hfits himplements hmemo
    obtain ⟨hspelled, hmemo₂⟩ := ihscan hlive₂ (hready₁ _) hfits₁ himplements hmemo₁
    have hready₂ :=
      Setting.isBoundary_resumedIteration?_stop failure.expected hready hresult resumed
    refine (ihtail hlive hready₂ (by rwa [State.recordError_memo]) himplements
      (by rwa [State.recordError_memo])).imp_left fun hrest => ?_
    rintro task ⟨⟩ u hu herrors
    obtain ⟨v, hv, rfl⟩ := Option.map_eq_some_iff.mp hu
    refine Taken.Spelled.next room ?_ (hrest _ rfl v hv) herrors
    exact .foundIteration himplements hresult (hspelled _ _ rfl) resumed
      (List.append_eq_nil_iff.mp herrors).1
  | trialNil => exact ⟨by rintro _ _ _ ⟨⟩ - m ⟨⟩, hmemo⟩
  | @trialFound c d floor index step rest q s t notes s' head past ih =>
    obtain ⟨hfirst, -⟩ := head.fits hready hfits
    refine (ih hlive hready hfits himplements hmemo).imp_left fun ha => ?_
    rintro _ _ _ ⟨⟩ hstrict m ⟨⟩
    have herrors := (hfirst.quiet (Setting.quiet_of_strict hstrict) _ rfl).2
    exact ⟨0, step, rfl, rfl, fun r hlowers => ha _ rfl _ rfl herrors _ (.step hlowers)⟩
  | trialNext head short tail ihhead ihtail =>
    obtain ⟨-, hfits₁⟩ := head.fits hready hfits
    obtain ⟨-, hmemo₁⟩ := ihhead (tail.live hlive) hready hfits himplements hmemo
    refine (ihtail hlive hready hfits₁ himplements hmemo₁).imp_left fun hfound => ?_
    rintro _ _ _ ⟨⟩ hstrict m hm
    obtain ⟨place, r, hindex, hr, hspelled⟩ := hfound _ _ _ rfl hstrict m hm
    exact ⟨place + 1, r, by omega, hr, hspelled⟩
  | lookRefused tick => exact absurd hlive (State.of_tick_false tick).1
  | lookFound tick attempts ih =>
    have hkept := (State.of_tick_true tick).2.2.1
    obtain ⟨hfound, hmemo'⟩ := ih hlive hready (hkept ▸ hfits) himplements (hkept ▸ hmemo)
    refine ⟨?_, hmemo'⟩
    rintro _ ⟨⟩ r ⟨⟩
    exact hfound _ _ _ rfl rfl _ rfl
  | lookStopped tick attempts final ih =>
    have hkept := (State.of_tick_true tick).2.2.1
    refine ⟨?_, (ih hlive hready (hkept ▸ hfits) himplements (hkept ▸ hmemo)).2⟩
    rintro _ ⟨⟩ r ⟨⟩
    trivial
  | lookPassed tick attempts passed ih =>
    have hkept := (State.of_tick_true tick).2.2.1
    refine ⟨?_, (ih hlive hready (hkept ▸ hfits) himplements (hkept ▸ hmemo)).2⟩
    rintro _ ⟨⟩ r ⟨⟩
  | @searchEnd c d steps q s result reach s' here ih =>
    refine (ih hlive hready.1 hfits himplements hmemo).imp_left fun hresult => ?_
    rintro _ _ ⟨⟩
    cases result with
    | none => trivial
    | some r => exact hresult _ rfl r rfl
  | searchDone here ih =>
    refine (ih hlive hready.1 hfits himplements hmemo).imp_left fun hresult => ?_
    rintro _ _ ⟨⟩
    exact hresult _ rfl _ rfl
  | searchNext here tail ihhere ihtail =>
    obtain ⟨-, hfits₁⟩ := here.fits hready.1 hfits
    obtain ⟨-, hmemo₁⟩ := ihhere (tail.live hlive) hready.1 hfits himplements hmemo
    refine (ihtail hlive hready.next hfits₁ himplements hmemo₁).imp_left fun hresult => ?_
    rintro _ _ ⟨⟩
    exact hresult _ _ rfl

end Packrat
