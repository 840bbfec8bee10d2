import Packrat.Proofs.Cursor.Agreement
import Packrat.Proofs.Memoization
import Packrat.Proofs.Parse.Reached

/-!
# Failure is atomic

An operation that fails leaves the cursor, the trees and the errors exactly as it found them,
whatever it pushed before it failed. One that succeeds only appends: the cursor does not move back,
what was there is a prefix of what is there now, and the trees that were pushed spell the text that
the cursor moved over. This holds of every operation in every state of a parse, with and without
recovery, and in a parse that has stopped as well.
-/

namespace Packrat

namespace Tree

/-- The texts of trees in a row are those of their leaves. -/
theorem join_map_text (ts : List Tree) :
    String.join (ts.map text) = String.join (leavesAmong ts) := by
  induction ts with
  | nil => rfl
  | cons t ts ih =>
    have htail : String.join (t.text :: ts.map text) = t.text ++ String.join (ts.map text) := by
      rw [← List.singleton_append, String.join_append]
      simp [String.join]
    rw [List.map_cons, htail, ih, leavesAmong, String.join_append]
    rfl

end Tree

namespace Cursor

variable {among : Program → Prop} {g : Program} {c : Setting} {k k' : Cursor} {ok : Bool}

/-- Whether an operation may start at a cursor: in a state of a parse, at a boundary. -/
structure Ready (among : Program → Prop) (g : Program) (c : Setting) (k : Cursor) : Prop where
  program : c.program = g
  reached : Reached among g c.text c.points k.state
  boundary : c.text.isBoundary k.position = true

/-- What an operation at such a cursor comes to. -/
theorem Ready.run (hk : Ready among g c k) (depth : Nat) (op : Step) :
    ∃ a s, Run c depth (.step op) k.position k.state (.answer a) s ∧ a.Fits c k.position ∧
      eval depth c op k = k.resume (a, s) := by
  obtain ⟨r, hr⟩ : ∃ r, r = evaluate depth c op k.position k.state := ⟨_, rfl⟩
  have hrun : Run c depth (.step op) k.position k.state (.answer r.1) r.2 :=
    run_iff.mpr (runJob_step_eq.mpr hr.symm)
  refine ⟨r.1, r.2, hrun, (hrun.fits hk.boundary hk.reached.fits).1, ?_⟩
  rw [eval_eq, ← hr]

/-- Where an operation ends, another one may start. -/
theorem Ready.eval (hk : Ready among g c k) {depth : Nat} {op : Step}
    (h : eval depth c op k = (ok, k')) : Ready among g c k' := by
  obtain ⟨a, s, hrun, hfits, heq⟩ := hk.run depth op
  have hk' : k' = k.after a s := congrArg Prod.snd (h.symm.trans heq)
  subst hk'
  refine ⟨hk.program, hk.reached.run hk.program rfl hrun hk.boundary, ?_⟩
  rcases a with ⟨_ | t, notes⟩
  · exact hk.boundary
  · exact hfits.isBoundary hk.boundary rfl

/-- Operations that fail change neither the cursor nor the trees nor the errors. Operations that
succeed append trees that spell the text from where the cursor was to where it is, and errors. -/
theorem eval_atomic (hk : Ready among g c k) (depth : Nat) (op : Step) :
    (∀ k', Cursor.eval depth c op k = (false, k') →
      k'.position = k.position ∧ k'.trees = k.trees ∧ k'.errors = k.errors) ∧
    (∀ k', Cursor.eval depth c op k = (true, k') →
      k.position ≤ k'.position ∧ k.trees <+: k'.trees ∧ k.errors <+: k'.errors ∧
        String.join ((k'.trees.drop k.trees.length).map Tree.text) =
          c.text.slice k.position k'.position) ∧
    Cursor.eval depth c op k = k.resume (evaluate depth c op k.position k.state) := by
  obtain ⟨a, s, -, hfits, heq⟩ := hk.run depth op
  refine ⟨fun k' h => ?_, fun k' h => ?_, eval_eq depth c op k⟩
  · rw [heq] at h
    obtain ⟨hok, rfl⟩ := Prod.mk.inj h
    rcases a with ⟨_ | t, notes⟩
    · exact ⟨rfl, List.append_nil _, List.append_nil _⟩
    · cases hok
  · rw [heq] at h
    obtain ⟨hok, rfl⟩ := Prod.mk.inj h
    rcases a with ⟨_ | t, notes⟩
    · cases hok
    · have htiles := hfits.tiles t rfl
      refine ⟨Tree.TilesAll.le _ htiles, List.prefix_append _ _, List.prefix_append _ _, ?_⟩
      have hpushed : (k.after ⟨some t, notes⟩ s).trees.drop k.trees.length = t.trees :=
        List.drop_left
      rw [hpushed, Tree.join_map_text]
      exact Tree.TilesAll.join_leaves hk.boundary _ htiles

/-- A cursor behind the first letter of a text. -/
def behindLetter : Cursor where
  position := 1
  trees := [.leaf 3 "a"]
  errors := []
  far := none
  frontier := none
  examined := 1
  state := ⟨{}, none, none, none, none⟩

/-- Two letters in a row are looked for where there is only one more, and then that one. -/
theorem eval_atomic_letters :
    (∃ k, Cursor.eval 3 (Program.letters.plain (.ofString "aab"))
        (.seq [.token 0 3 false, .token 0 3 false]) behindLetter = (false, k) ∧
      k.position = 1 ∧ k.trees = [.leaf 3 "a"] ∧ k.errors = []) ∧
    ∃ k, Cursor.eval 3 (Program.letters.plain (.ofString "aab"))
        (.token 0 3 false) behindLetter = (true, k) ∧
      1 ≤ k.position ∧ [.leaf 3 "a"] <+: k.trees ∧ [] <+: k.errors ∧
        String.join ((k.trees.drop 1).map Tree.text) =
          (Text.ofString "aab").slice 1 k.position := by
  have hready : Ready (fun _ => True) Program.letters (Program.letters.plain (.ofString "aab"))
      behindLetter := ⟨rfl, .fresh _ _ _ _, by decide⟩
  constructor
  · obtain ⟨hfailed, -, -⟩ := eval_atomic hready 3 (.seq [.token 0 3 false, .token 0 3 false])
    have hfalse : (Cursor.eval 3 (Program.letters.plain (.ofString "aab"))
        (.seq [.token 0 3 false, .token 0 3 false]) behindLetter).1 = false := by decide +kernel
    exact ⟨_, Prod.ext hfalse rfl, hfailed _ (Prod.ext hfalse rfl)⟩
  · obtain ⟨-, htook, -⟩ := eval_atomic hready 3 (.token 0 3 false)
    have htrue : (Cursor.eval 3 (Program.letters.plain (.ofString "aab"))
        (.token 0 3 false) behindLetter).1 = true := by decide +kernel
    exact ⟨_, Prod.ext htrue rfl, htook _ (Prod.ext htrue rfl)⟩

end Cursor

end Packrat
