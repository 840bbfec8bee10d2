import Packrat.Proofs.Parse.Coverage

/-!
# Answers without error points

Trivia, nodes and stops depend on the program and the text of a setting alone. Error points tell
which failures count for the frontier; `Answer.plain` is an answer as it is where there are none,
with the frontier at the furthest failure. It is the answer itself where no error point lies in
the text that was looked at.
-/

namespace Packrat

/-- The setting of a text without error points. -/
def Program.plain (g : Program) (text : Text) : Setting where
  program := g
  text := text
  memoize := false
  points := []
  recovering := false

/-- The plain setting of a program is one of this program. -/
@[simp] theorem Program.plain_program (g : Program) (text : Text) :
    (g.plain text).program = g := rfl

/-- The plain setting on a text is one on this text. -/
@[simp] theorem Program.plain_text (g : Program) (text : Text) : (g.plain text).text = text := rfl

namespace Setting

section

variable {c d : Setting} (hprogram : d.program = c.program) (htext : d.text = c.text)

include hprogram htext

/-- Which extra matches depends on the program and the text alone. -/
theorem firstExtra_congr (p : Nat) (extras : List (Nat × Nat)) :
    d.firstExtra p extras = c.firstExtra p extras := by
  induction extras with
  | nil => rfl
  | cons extra rest ih => simp only [firstExtra, hprogram, htext, ih]

/-- Trivia depends on the program and the text alone. -/
theorem trivia_congr (p : Nat) : d.trivia p = c.trivia p := by
  have hpieces : ∀ count p, d.extraPieces count p = c.extraPieces count p := by
    intro count
    induction count with
    | zero => exact fun _ => rfl
    | succ count ih =>
      intro p
      simp only [extraPieces, firstExtra_congr hprogram htext, hprogram, ih]
  have hleaf : d.leaf = c.leaf := by
    funext piece
    simp only [leaf, htext]
  simp only [trivia, hpieces, htext, hleaf]

/-- Where a search may not go on depends on the program and the text alone, in parses that go
on. -/
theorem stopsAt_congr {s s' : State} (hs : s.halted = none) (hs' : s'.halted = none) (p : Nat) :
    d.stopsAt p s' = c.stopsAt p s := by
  have hmatches : ∀ ts, d.matchesAny p ts = c.matchesAny p ts := by
    intro ts
    induction ts with
    | nil => rfl
    | cons t ts ih => simp only [matchesAny, hprogram, htext, ih]
  simp only [stopsAt, htext, hprogram, hmatches, State.isHalted, hs, hs']

end

variable (c : Setting) (p : Nat)

/-- Trivia are the same without error points. -/
@[simp] theorem trivia_plain : (c.program.plain c.text).trivia p = c.trivia p :=
  trivia_congr (c := c) (d := c.program.plain c.text) rfl rfl p

end Setting

/-- Notes as they are without error points. -/
def Notes.plain (n : Notes) : Notes := ⟨n.far, n.far.map (·.position), n.reach⟩

/-- An answer as it is without error points. -/
def Answer.plain (a : Answer) : Answer := ⟨a.taken, a.notes.plain⟩

/-- What a kept result stands for without error points. -/
def Entry.plain (e : Entry) : Answer := ⟨e.taken, ⟨e.far, e.far.map (·.position), e.reach⟩⟩

section

variable (a : Answer) (n m : Notes) (p : Nat)

/-- The furthest failure of two stands at the greater of their positions. -/
theorem position_furthest (f g : Option Failure) :
    (furthest f g).map (·.position) = greater (f.map (·.position)) (g.map (·.position)) := by
  cases f with
  | none => rfl
  | some f =>
    cases g with
    | none => rfl
    | some g =>
      simp only [furthest, greater, Option.map_some, Option.some.injEq]
      unfold Failure.join
      split
      · omega
      · split
        · omega
        · simp only
          omega

/-- Joined notes are plain where both are. -/
theorem plain_join : (n.join m).plain = n.plain.join m.plain := by
  simp only [Notes.plain, Notes.join, position_furthest]

/-- An answer behind what was taken is plain where the answer and the notes are. -/
theorem plain_behind (t : Taken) : (Answer.behind t n a).plain = .behind t n.plain a.plain := by
  simp only [Answer.plain, Answer.behind, plain_join]

/-- An answer to which notes are added is plain where the answer and the notes are. -/
theorem plain_noting : (Answer.noting n a).plain = .noting n.plain a.plain := by
  simp only [Answer.plain, Answer.noting, plain_join]

/-- The end of a repetition is plain where its notes are. -/
theorem plain_endRepetition (least count : Nat) :
    (endRepetition least count p n).plain = endRepetition least count p n.plain := rfl

/-- What a call makes of an answer does not depend on error points. -/
theorem plain_called (c : Setting) (rule : Nat) (renamed : Option Nat) (halted : Bool) :
    (a.called c rule renamed halted).plain =
      a.plain.called (c.program.plain c.text) rule renamed halted := rfl

/-- What a name for a part makes of an answer does not depend on error points. -/
theorem plain_wrapped (c : Setting) (kind : Nat) :
    (a.wrapped c kind).plain = a.plain.wrapped (c.program.plain c.text) kind := rfl

/-- Without error points, a result that is used again gives the answer that it gives alone. -/
theorem plain_answer (c : Setting) (e : Entry) (recovering : Bool) :
    (e.answer c recovering).plain = e.plain := rfl

/-- A result that is kept is plain where the answer of the rule is. -/
theorem plain_entry : (a.entry p).plain = a.plain.fromRule p := rfl

end

/-- The answer of a terminal without error points: what it takes with the trivia before it, or a
failure where it was tried. -/
def Program.tokenAnswer (g : Program) (text : Text) (terminal kind : Nat) (immediate : Bool)
    (p : Nat) : Answer :=
  let c := g.plain text
  let trivia := if immediate then ⟨[], p, 0⟩ else c.trivia p
  let scan := (g.terminal terminal).scanAt text trivia.stop
  let reach := max trivia.reach (trivia.stop + scan.reach)
  match scan.length with
  | some n =>
    let leaf := if n = 0 then [] else [c.leaf ⟨kind, trivia.stop, trivia.stop + n⟩]
    ⟨some { stop := trivia.stop + n, trees := trivia.leaves ++ leaf }, .seen reach⟩
  | none => ⟨none, ⟨some ⟨trivia.stop, [kind]⟩, some trivia.stop, reach⟩⟩

/-- Error points only tell whether the failure of a terminal counts for the frontier. -/
theorem plain_runToken (c : Setting) (terminal kind : Nat) (immediate : Bool) (p : Nat)
    (s : State) : (runToken c terminal kind immediate p s).1.plain =
      c.program.tokenAnswer c.text terminal kind immediate p := by
  obtain ⟨trivia, htrivia⟩ : ∃ trivia, trivia =
      if immediate then (⟨[], p, 0⟩ : Trivia) else c.trivia p := ⟨_, rfl⟩
  simp only [runToken, Program.tokenAnswer, Setting.trivia_plain, ← htrivia]
  cases ((c.program.terminal terminal).scanAt c.text trivia.stop).length <;> rfl

namespace Answer

/-- Whether an answer is as it is without error points. -/
def Exact (a : Answer) : Prop := a.plain = a

namespace Exact

variable {c : Setting} {a : Answer} {p : Nat}

/-- An answer is as it is without error points when its frontier is its furthest failure. -/
theorem iff_frontier : a.Exact ↔ a.notes.frontier = a.notes.far.map (·.position) := by
  rcases a with ⟨taken, far, frontier, reach⟩
  simp only [Exact, Answer.plain, Notes.plain, Answer.mk.injEq, Notes.mk.injEq, true_and,
    and_true]
  exact eq_comm

/-- Whether an answer is so depends on its failure and its frontier alone. -/
theorem map {b : Answer} (h : a.Exact) (hfar : b.notes.far = a.notes.far)
    (hfrontier : b.notes.frontier = a.notes.frontier) : b.Exact := by
  rw [iff_frontier] at h ⊢
  rw [hfar, hfrontier, h]

/-- An answer behind what was taken is so if the notes in front of it are. -/
theorem behind {t : Taken} {taken : Option Taken} {notes : Notes}
    (hfirst : Exact ⟨taken, notes⟩) (hrest : a.Exact) : (Answer.behind t notes a).Exact := by
  rw [iff_frontier] at *
  simp only [Answer.behind, Notes.join_frontier, Notes.join_far, position_furthest, hrest] at *
  rw [hfirst]

/-- An answer to which notes are added is so if the notes are. -/
theorem noting {taken : Option Taken} {notes : Notes} (hfirst : Exact ⟨taken, notes⟩)
    (hrest : a.Exact) : (Answer.noting notes a).Exact := by
  rw [iff_frontier] at *
  simp only [Answer.noting, Notes.join_frontier, Notes.join_far, position_furthest, hrest] at *
  rw [hfirst]

end Exact

end Answer

/-- A kept result is used as it was found where no error point lies. -/
theorem Entry.exact_answer {c : Setting} {entry : Entry} {p : Nat} (h : entry.Fits c.text p)
    (hclear : anyBetween c.points p entry.reach = false) : (entry.answer c false).Exact := by
  rw [Answer.Exact.iff_frontier]
  cases hfar : entry.far with
  | none => simp [Entry.answer, hfar]
  | some f =>
    have hf := h.far f hfar
    have hpoint : f.position ∉ c.points := fun hmem =>
      Setting.anyBetween_eq_false.mp hclear _ hmem hf.1 hf.2
    simp [Entry.answer, hfar, Setting.isPoint, hpoint]

/-- A token that looks at no error point has the answer that it has without any. -/
theorem exact_runToken {c : Setting} {terminal kind : Nat} {immediate : Bool} {p : Nat}
    {s : State} (hclear : anyBetween c.points p
      (runToken c terminal kind immediate p s).1.notes.reach = false) :
    (runToken c terminal kind immediate p s).1.Exact := by
  have hfar := (runToken_fits c terminal kind immediate (p := p) s).far
  rw [Answer.Exact.iff_frontier]
  obtain ⟨trivia, htrivia⟩ : ∃ trivia, trivia =
      if immediate then (⟨[], p, 0⟩ : Trivia) else c.trivia p := ⟨_, rfl⟩
  simp only [runToken, ← htrivia] at hfar hclear ⊢
  cases hlength : ((c.program.terminal terminal).scanAt c.text trivia.stop).length with
  | some n => rfl
  | none =>
    simp only [hlength] at hfar hclear ⊢
    obtain ⟨hle, hlt⟩ := hfar _ rfl
    have hpoint : trivia.stop ∉ c.points := fun hmem =>
      Setting.anyBetween_eq_false.mp hclear _ hmem hle hlt
    simp [Setting.isPoint, hpoint]

end Packrat
