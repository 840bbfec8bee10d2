import Packrat.Proofs.Parse.Idle
import Packrat.Proofs.Strict.Soundness

/-!
# Derivations that take nothing

What is derived without recovery and ends where it started is of something that may take nothing in
the grammar as it is, where no sequence may end early. So the strict results of a memo are idle in
this sense, even in rounds that recover.
-/

namespace Packrat

/-- Whether a task may succeed without taking anything. -/
def Task.Idles (g : Program) (idle : Nat → Prop) : Task → Prop
  | step op => g.Idles false idle op
  | rule i => idle i
  | seq members => g.IdlesThrough false idle members
  | choice members => g.IdlesAmong false idle members
  | iterations _ least _ count => least ≤ count

/-- A terminal that is derived without taking anything may be empty. -/
theorem Program.mayBeEmpty_of_tokenAnswer {g : Program} {text : Text} {terminal kind p : Nat}
    {immediate : Bool} {t : Taken}
    (ht : (g.tokenAnswer text terminal kind immediate p).taken = some t) (hstop : t.stop = p) :
    (g.terminal terminal).MayBeEmpty := by
  have htoken :=
    plain_runToken (g.plain text) terminal kind immediate p ⟨{}, none, none, none, none⟩
  have htaken := congrArg Answer.taken htoken
  exact mayBeEmpty_of_runToken (htaken.trans ht) hstop

/-- What is derived from a boundary and takes nothing may take nothing. -/
theorem Derives.idles {g : Program} {text : Text} {allowed : MemoKey → Prop} {task : Task} {p : Nat}
    {a : Answer} (h : Derives g text allowed task p a) (layers : g.Layering false)
    (hp : text.isBoundary p = true) {t : Taken} (ht : a.taken = some t) (hstop : t.stop = p) :
    task.Idles g layers.idle := by
  induction h generalizing t with
  | blank => exact trivial
  | token => exact Program.mayBeEmpty_of_tokenAnswer ht hstop
  | call rest ih =>
    obtain ⟨u, hu, hsame⟩ := Answer.stop_of_called ht
    exact ih hp hu (hsame.trans hstop)
  | members rest ih => exact ih hp ht hstop
  | alternatives rest ih => exact ih hp ht hstop
  | repetition rest ih => exact Nat.le_zero.mp (ih hp ht hstop)
  | wrap rest ih =>
    obtain ⟨u, hu, hsame⟩ := Answer.stop_of_wrapped ht
    exact ih hp hu (hsame.trans hstop)
  | rule known body ih => exact layers.idle_of_body _ (ih hp ht hstop)
  | seqNil => exact trivial
  | seqTook head tail ihhead ihtail =>
    obtain ⟨u, hu, hsame⟩ := Answer.stop_of_behind ht
    obtain ⟨hle, -, hboundary⟩ := head.stop_bounds hp
    have hle' := (tail.fits hboundary).le hu
    exact ⟨ihhead hp rfl (by omega), .inr (ihtail hboundary hu (by omega))⟩
  | seqFailed => cases ht
  | choiceNil => cases ht
  | choiceTook head ih => exact .inl (ih hp ht hstop)
  | choiceNext head tail ihhead ihtail => exact .inr (ihtail hp ht hstop)
  | enough => exact le_of_endRepetition ht
  | idleIteration => exact le_of_endRepetition ht
  | nextIteration room head moved tail ihhead ihtail =>
    obtain ⟨u, hu, hsame⟩ := Answer.stop_of_behind ht
    obtain ⟨hle, -, hboundary⟩ := head.stop_bounds hp
    have hle' := (tail.fits hboundary).le hu
    omega
  | lastIteration => exact le_of_endRepetition ht

/-- Strict results in which nothing is taken are those of rules that may take nothing. -/
theorem Memo.Valid.idles {g : Program} {text : Text} {m : Memo} (h : m.Valid g text)
    (layers : g.Layering false) (hfits : Results.Fit text m.strict) :
    m.Idles false layers.idle := by
  intro key e he t ht hstop
  rcases he with hstrict | ⟨hearly, -⟩
  · have hderives := h key e hstrict
    have hboundary := (hfits key e hstrict).boundary
    exact hderives.idles layers hboundary ht hstop
  · cases hearly

end Packrat
