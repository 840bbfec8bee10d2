import Packrat.Proofs.Program.Compiled
import Packrat.Proofs.Strict.Derivation
import Packrat.Proofs.Text.Edit

/-!
# Derivations at other places

What is derived at a place of a text is derived wherever another text looks alike, by
every program with the same rules and extras, as long as nothing was looked at that is not there.
Only positions change. The end of what was looked at changes with them, except that it stays zero
where nothing was looked at at all.
-/

namespace Packrat

/-- Whether all terminals of a task are among some, those of the rules that it calls aside. -/
def Task.Tokens (among : Nat → Prop) : Task → Prop
  | .step op => op.Tokens among
  | .rule _ => True
  | .seq members => Op.TokensAll among members
  | .choice members => Op.TokensAll among members
  | .iterations body _ _ _ => body.Tokens among

/-- Programs that are alike close nodes alike. -/
theorem Program.Alike.close {g h : Program} (alike : g.Alike h) (old new : Text) (kind : Nat)
    (trees : List Tree) : (h.plain new).close kind trees = (g.plain old).close kind trees := by
  have htrivia : (h.plain new).isTrivia = (g.plain old).isTrivia := by
    funext t
    cases t with
    | leaf => simp only [Setting.isTrivia, Program.plain_program, Program.isTrivia, alike.extras]
    | node => rfl
  simp only [Setting.close, htrivia]

/-- A piece at other positions. -/
def Piece.move (f : Nat → Nat) (p : Piece) : Piece := ⟨p.kind, f p.start, f p.stop⟩

/-- Pieces that touch still do so at other positions. -/
theorem Piece.push_map_move (f : Nat → Nat) (p : Piece) (ps : List Piece) :
    (p.move f).push (ps.map (Piece.move f)) = (p.push ps).map (Piece.move f) := by
  cases ps with
  | nil => rfl
  | cons q rest =>
    by_cases hkind : p.kind = q.kind <;> simp [Piece.push, Piece.move, hkind]

/-- All pieces between two tokens can be moved before or after those that touch are made one. -/
theorem Piece.foldr_push_map_move (f : Nat → Nat) (ps : List Piece) :
    (ps.map (Piece.move f)).foldr Piece.push [] = (ps.foldr Piece.push []).map (Piece.move f) := by
  induction ps with
  | nil => rfl
  | cons p ps ih => simp only [List.map_cons, List.foldr_cons, ih, Piece.push_map_move]

/-- Whether the end of what was looked at is another one's, moved, as seen from every position from
`low` on. -/
def MovedReach (f : Nat → Nat) (low reach reach' : Nat) : Prop :=
  ∀ q, low ≤ q → max (f q) reach' = f (max q reach)

section

variable {f : Nat → Nat} {low high : Nat} {old new : Text}

/-- Where nothing was looked at, nothing is looked at elsewhere. -/
theorem MovedReach.zero (f : Nat → Nat) (low : Nat) : MovedReach f low 0 0 := by
  intro q _
  simp

/-- What was looked at in two parts is moved if it is in both. -/
theorem MovedReach.max {r s r' s' : Nat} (hr : MovedReach f low r r') (hs : MovedReach f low s s') :
    MovedReach f low (max r s) (max r' s') := by
  intro q hq
  rw [← Nat.max_assoc, hr q hq, hs _ (Nat.le_trans hq (Nat.le_max_left _ _)), Nat.max_assoc]

/-- What was looked at a number of bytes from a position is moved with the position. -/
theorem Text.LooksLike.movedReach (h : old.LooksLike new f low high) {p : Nat} (hp : low ≤ p)
    (n : Nat) : MovedReach f low (p + n) (f p + n) := by
  intro q hq
  rw [← h.moves p n hp]
  exact (h.move_max hq (by omega)).symm

end

section

variable {g h : Program} {f : Nat → Nat} {low high p : Nat} {old new : Text}

/-- The first extra that matches is the same where the texts look alike. -/
theorem firstExtra_carry (looks : old.LooksLike new f low high) (hlow : low ≤ p)
    (hp : old.isBoundary p = true) {extras : List (Nat × Nat)}
    (hextras : ∀ extra ∈ extras, h.terminal extra.1 = g.terminal extra.1)
    (hreach : ((g.plain old).firstExtra p extras).2 ≤ high) :
    ((h.plain new).firstExtra (f p) extras).1 =
        ((g.plain old).firstExtra p extras).1.map (Piece.move f) ∧
      MovedReach f low ((g.plain old).firstExtra p extras).2
        ((h.plain new).firstExtra (f p) extras).2 := by
  induction extras with
  | nil => exact ⟨rfl, .zero f low⟩
  | cons extra rest ih =>
    have hterminal := hextras extra (List.mem_cons_self ..)
    have hrest := fun e he => hextras e (List.mem_cons_of_mem _ he)
    obtain ⟨scan, hscan⟩ : ∃ scan, scan = (g.terminal extra.1).scanAt old p := ⟨_, rfl⟩
    have hsame : p + scan.reach ≤ high → (h.terminal extra.1).scanAt new (f p) = scan := by
      rw [hterminal, hscan]
      exact looks.scanAt hlow hp
    simp only [Setting.firstExtra, Program.plain_program, Program.plain_text, ← hscan] at hreach ⊢
    have hstep : MovedReach f low (p + scan.reach) (f p + scan.reach) :=
      looks.movedReach hlow scan.reach
    cases hlength : scan.length with
    | none =>
      simp only [hlength] at hreach ⊢
      rw [hsame (by omega)]
      simp only [hlength]
      obtain ⟨hfound, hmoved⟩ := ih hrest (by omega)
      exact ⟨hfound, hstep.max hmoved⟩
    | some n =>
      cases n with
      | zero =>
        simp only [hlength] at hreach ⊢
        rw [hsame (by omega)]
        simp only [hlength]
        obtain ⟨hfound, hmoved⟩ := ih hrest (by omega)
        exact ⟨hfound, hstep.max hmoved⟩
      | succ n =>
        simp only [hlength] at hreach ⊢
        rw [hsame hreach]
        simp only [hlength]
        refine ⟨?_, hstep⟩
        simp only [Option.map_some, Piece.move, looks.moves p (n + 1) hlow]

/-- The pieces that extras match are the same where the texts look alike, however many more
could have been matched. -/
theorem extraPieces_carry (alike : g.Alike h) (looks : old.LooksLike new f low high)
    {count count' : Nat} (hlow : low ≤ p) (hp : old.isBoundary p = true)
    (hcount : old.size + 1 - p ≤ count) (hcount' : new.size + 1 - f p ≤ count')
    (hreach : ((g.plain old).extraPieces count p).2 ≤ high) (hhigh : p ≤ high) :
    ((h.plain new).extraPieces count' (f p)).1 =
        ((g.plain old).extraPieces count p).1.map (Piece.move f) ∧
      MovedReach f low ((g.plain old).extraPieces count p).2
        ((h.plain new).extraPieces count' (f p)).2 := by
  induction count generalizing count' p with
  | zero =>
    have hle := Text.le_size_of_isBoundary hp
    omega
  | succ count ih =>
    have hle' := Text.le_size_of_isBoundary (looks.isBoundary hlow hhigh hp)
    obtain ⟨count', rfl⟩ : ∃ n, count' = n + 1 := ⟨count' - 1, by omega⟩
    rcases hfirst : (g.plain old).firstExtra p g.extras with ⟨_ | piece, reach⟩
    · simp only [Setting.extraPieces, Program.plain_program, alike.extras, hfirst] at hreach ⊢
      obtain ⟨hfound, hmoved⟩ :=
        firstExtra_carry looks hlow hp alike.terminals (by rwa [hfirst])
      rw [hfirst] at hfound hmoved
      rcases hfirst' : (h.plain new).firstExtra (f p) g.extras with ⟨found', reach'⟩
      rw [hfirst'] at hfound hmoved
      simp only [Option.map_none] at hfound
      subst hfound
      exact ⟨rfl, hmoved⟩
    · have hpiece : ((g.plain old).firstExtra p g.extras).1 = some piece := by rw [hfirst]
      obtain ⟨hstart, hlt, -, hstop, hstop_le⟩ := (g.plain old).firstExtra_eq_some hpiece
      rw [hfirst] at hstop_le
      simp only [Setting.extraPieces, Program.plain_program, alike.extras, hfirst] at hreach ⊢
      simp only at hstop_le
      obtain ⟨hfound, hmoved⟩ :=
        firstExtra_carry looks hlow hp alike.terminals (by rw [hfirst]; simp only; omega)
      rw [hfirst] at hfound hmoved
      rcases hfirst' : (h.plain new).firstExtra (f p) g.extras with ⟨found', reach'⟩
      rw [hfirst'] at hfound hmoved
      simp only [Option.map_some] at hfound
      subst hfound
      have hmove := looks.move_eq hlow (Nat.le_of_lt hlt)
      obtain ⟨hrest, hmoved'⟩ := ih (p := piece.stop) (by omega) hstop (by omega)
        (show new.size + 1 - f piece.stop ≤ count' by omega) (by omega) (by omega)
      simp only [Piece.move, List.map_cons] at hrest ⊢
      rw [hrest]
      exact ⟨rfl, hmoved.max hmoved'⟩

/-- Pieces are the leaves of the same text where the texts look alike. -/
theorem map_leaf_carry (looks : old.LooksLike new f low high) {ps : List Piece} {stop : Nat}
    (h' : Piece.Covers old ps p stop) (hlow : low ≤ p) (hhigh : stop ≤ high) :
    (ps.map (Piece.move f)).map (h.plain new).leaf = ps.map (g.plain old).leaf := by
  induction ps generalizing p with
  | nil => rfl
  | cons piece ps ih =>
    obtain ⟨rfl, hlt, hstart, hstop, hps⟩ := h'
    have hle := Tree.TilesAll.le _ ((g.plain old).tilesAll_map_leaf hps)
    rw [List.map_cons, List.map_cons, List.map_cons, ih hps (by omega)]
    simp only [Setting.leaf, Program.plain_text, Piece.move,
      looks.slice hlow (Nat.le_of_lt hlt) (by omega) hstart hstop]

/-- Trivia is the same where the texts look alike. -/
theorem trivia_carry (alike : g.Alike h) (looks : old.LooksLike new f low high) (hlow : low ≤ p)
    (hp : old.isBoundary p = true) (hreach : ((g.plain old).trivia p).reach ≤ high)
    (hhigh : p ≤ high) :
    ((h.plain new).trivia (f p)).leaves = ((g.plain old).trivia p).leaves ∧
      ((h.plain new).trivia (f p)).stop = f ((g.plain old).trivia p).stop ∧
      MovedReach f low ((g.plain old).trivia p).reach ((h.plain new).trivia (f p)).reach := by
  obtain ⟨hpieces, hmoved⟩ :=
    extraPieces_carry alike looks hlow hp (Nat.le_refl _) (Nat.le_refl _) hreach hhigh
  obtain ⟨stop, hcovers, hbound⟩ := (g.plain old).extraPieces_covers (old.size + 1 - p) p
  simp only [Setting.trivia, Program.plain_text] at hreach ⊢
  refine ⟨?_, ?_, hmoved⟩
  · rw [hpieces, Piece.foldr_push_map_move]
    exact map_leaf_carry looks hcovers.foldr_push hlow (by omega)
  · rw [hpieces, List.getLast?_map]
    cases ((g.plain old).extraPieces (old.size + 1 - p) p).1.getLast? <;> rfl

end

/-- A failure at another position. -/
def Failure.move (f : Nat → Nat) (x : Failure) : Failure := ⟨f x.position, x.expected⟩

/-- What was taken, with its end at another position. -/
def Taken.move (f : Nat → Nat) (t : Taken) : Taken := { t with stop := f t.stop }

/-- Whether an answer is another one at other positions, frontiers aside. -/
structure Answer.Moved (f : Nat → Nat) (low : Nat) (a b : Answer) : Prop where
  taken : b.taken = a.taken.map (Taken.move f)
  far : b.notes.far = a.notes.far.map (Failure.move f)
  reach : MovedReach f low a.notes.reach b.notes.reach

namespace Answer.Moved

variable {f : Nat → Nat} {low high p : Nat} {old new : Text} {a b : Answer} {notes notes' : Notes}

/-- The furthest failure is the same one where the texts look alike. -/
theorem furthest_move (looks : old.LooksLike new f low high) {x y : Option Failure}
    (hx : ∀ g, x = some g → low ≤ g.position) (hy : ∀ g, y = some g → low ≤ g.position) :
    furthest (x.map (Failure.move f)) (y.map (Failure.move f)) =
      (furthest x y).map (Failure.move f) := by
  cases x with
  | none => rfl
  | some x =>
    cases y with
    | none => rfl
    | some y =>
      have hxy := looks.move_lt_move (hx x rfl) (hy y rfl)
      have hyx := looks.move_lt_move (hy y rfl) (hx x rfl)
      simp only [Option.map_some, furthest, Failure.join, Failure.move, hxy, hyx, Option.some.injEq]
      split
      · rfl
      · split <;> rfl

/-- An operation that is not run comes to the same elsewhere. -/
theorem idle (f : Nat → Nat) (low p : Nat) : (Answer.idle p).Moved f low (.idle (f p)) :=
  ⟨rfl, rfl, .zero f low⟩

/-- An answer that is another one, moved, takes the same. -/
theorem exists_notes {t : Taken} (h : Answer.Moved f low ⟨some t, notes⟩ b) :
    ∃ notes', b = ⟨some (t.move f), notes'⟩ :=
  ⟨b.notes, by rw [← show b.taken = some (t.move f) from h.taken]⟩

/-- Elsewhere, too, nothing is taken where nothing was. -/
theorem exists_notes_of_none (h : Answer.Moved f low ⟨none, notes⟩ b) :
    ∃ notes', b = ⟨none, notes'⟩ :=
  ⟨b.notes, by rw [← show b.taken = none from h.taken]⟩

/-- An answer behind what was taken is moved if the answer and the notes in front of it are. -/
theorem behind (looks : old.LooksLike new f low high) {t : Taken} {taken taken' : Option Taken}
    (hfirst : Answer.Moved f low ⟨taken, notes⟩ ⟨taken', notes'⟩) (hrest : a.Moved f low b)
    (hx : ∀ g, notes.far = some g → low ≤ g.position)
    (hy : ∀ g, a.notes.far = some g → low ≤ g.position) :
    (Answer.behind t notes a).Moved f low (.behind (t.move f) notes' b) := by
  refine ⟨?_, ?_, hfirst.reach.max hrest.reach⟩
  · simp only [Answer.behind, hrest.taken, Option.map_map]
    rfl
  · simp only [Answer.behind, Notes.join_far, hrest.far, show notes'.far = _ from hfirst.far,
      furthest_move looks hx hy]

/-- An answer to which notes are added is moved if the answer and the notes are. -/
theorem noting (looks : old.LooksLike new f low high) {taken taken' : Option Taken}
    (hfirst : Answer.Moved f low ⟨taken, notes⟩ ⟨taken', notes'⟩) (hrest : a.Moved f low b)
    (hx : ∀ g, notes.far = some g → low ≤ g.position)
    (hy : ∀ g, a.notes.far = some g → low ≤ g.position) :
    (Answer.noting notes a).Moved f low (.noting notes' b) := by
  refine ⟨hrest.taken, ?_, hfirst.reach.max hrest.reach⟩
  simp only [Answer.noting, Notes.join_far, hrest.far, show notes'.far = _ from hfirst.far,
    furthest_move looks hx hy]

/-- A repetition ends in the same way elsewhere. -/
theorem endRepetition {taken taken' : Option Taken} (least count p : Nat)
    (h : Answer.Moved f low ⟨taken, notes⟩ ⟨taken', notes'⟩) :
    (endRepetition least count p notes).Moved f low (endRepetition least count (f p) notes') := by
  refine ⟨?_, h.far, h.reach⟩
  unfold Packrat.endRepetition
  split <;> rfl

/-- What a rule tells is moved if its answer is. -/
theorem fromRule (looks : old.LooksLike new f low high) (hlow : low ≤ p) (h : a.Moved f low b) :
    (a.fromRule p).Moved f low (b.fromRule (f p)) := by
  refine ⟨h.taken, h.far, fun q hq => ?_⟩
  have hle : low ≤ max p a.notes.reach := Nat.le_trans hlow (Nat.le_max_left _ _)
  simp only [Answer.fromRule]
  rw [h.reach p hlow, looks.move_max hq hle]

section

variable {g h : Program} (alike : g.Alike h)

include alike

/-- A call makes the same node elsewhere. -/
theorem called (rule : Nat) (renamed : Option Nat) (hmoved : a.Moved f low b) :
    (a.called (g.plain old) rule renamed false).Moved f low
      (b.called (h.plain new) rule renamed false) := by
  refine ⟨?_, hmoved.far, hmoved.reach⟩
  have hclose := alike.close old new (renamed.getD (g.rule rule).kind)
  simp only [Answer.called, hmoved.taken, Option.map_map, Program.plain_program, alike.rule,
    Bool.false_and, Bool.false_or]
  congr 1
  funext t
  cases (g.rule rule).hidden && renamed.isNone <;> simp [Taken.move, hclose]

/-- A name for a part makes the same node elsewhere. -/
theorem wrapped (kind : Nat) (hmoved : a.Moved f low b) :
    (a.wrapped (g.plain old) kind).Moved f low (b.wrapped (h.plain new) kind) := by
  refine ⟨?_, hmoved.far, hmoved.reach⟩
  simp only [Answer.wrapped, hmoved.taken, Option.map_map]
  congr 1
  funext t
  simp only [Function.comp_apply, Taken.move, alike.close old new]

end

end Answer.Moved

section

variable {g h : Program} {f : Nat → Nat} {low high p : Nat} {old new : Text}

/-- A terminal takes the same, or fails alike, where the texts look alike. -/
theorem tokenAnswer_carry (alike : g.Alike h) (looks : old.LooksLike new f low high)
    {terminal kind : Nat} {immediate : Bool} (hterminal : h.terminal terminal = g.terminal terminal)
    (hlow : low ≤ p) (hp : old.isBoundary p = true) (hhigh : p ≤ high)
    (hreach : (g.tokenAnswer old terminal kind immediate p).notes.reach ≤ high) :
    (g.tokenAnswer old terminal kind immediate p).Moved f low
      (h.tokenAnswer new terminal kind immediate (f p)) := by
  obtain ⟨trivia, htrivia⟩ : ∃ trivia, trivia =
      if immediate then (⟨[], p, 0⟩ : Trivia) else (g.plain old).trivia p := ⟨_, rfl⟩
  obtain ⟨trivia', htrivia'⟩ : ∃ trivia, trivia =
      if immediate then (⟨[], f p, 0⟩ : Trivia) else (h.plain new).trivia (f p) := ⟨_, rfl⟩
  obtain ⟨scan, hscan⟩ : ∃ scan, scan = (g.terminal terminal).scanAt old trivia.stop := ⟨_, rfl⟩
  have hbounds : p ≤ trivia.stop ∧ trivia.stop ≤ max p trivia.reach ∧
      old.isBoundary trivia.stop = true := by
    rw [htrivia]
    split
    · exact ⟨Nat.le_refl _, Nat.le_max_left _ _, hp⟩
    · exact ⟨(g.plain old).le_trivia_stop p, (g.plain old).trivia_stop_le p,
        (g.plain old).isBoundary_trivia_stop hp⟩
  have hsame : trivia.reach ≤ high → trivia'.leaves = trivia.leaves ∧
      trivia'.stop = f trivia.stop ∧ MovedReach f low trivia.reach trivia'.reach := by
    intro htriviaReach
    rw [htrivia] at htriviaReach ⊢
    rw [htrivia']
    split
    · exact ⟨rfl, rfl, .zero f low⟩
    · rename_i hnot
      rw [if_neg hnot] at htriviaReach
      exact trivia_carry alike looks hlow hp htriviaReach hhigh
  obtain ⟨hle, hstop, hboundary⟩ := hbounds
  have hanswer : (g.tokenAnswer old terminal kind immediate p).notes.reach =
      max trivia.reach (trivia.stop + scan.reach) := by
    simp only [Program.tokenAnswer, ← htrivia, ← hscan]
    cases scan.length <;> rfl
  rw [hanswer] at hreach
  obtain ⟨hleaves, hstop', hmoved⟩ := hsame (by omega)
  have hscan' : (h.terminal terminal).scanAt new (f trivia.stop) = scan := by
    rw [hterminal, hscan]
    exact looks.scanAt (by omega) hboundary (by rw [← hscan]; omega)
  have hreached := hmoved.max (looks.movedReach (Nat.le_trans hlow hle) scan.reach)
  simp only [Program.tokenAnswer, ← htrivia, ← htrivia', hstop', hscan', hleaves, ← hscan]
  cases hlength : scan.length with
  | none => exact ⟨rfl, rfl, hreached⟩
  | some n =>
    refine ⟨?_, rfl, hreached⟩
    simp only [Option.map_some, Taken.move, looks.moves _ n (Nat.le_trans hlow hle)]
    by_cases hn : n = 0
    · simp only [hn, if_true]
    · have hlen := hlength
      rw [hscan] at hlen
      obtain ⟨-, hend⟩ := Terminal.isBoundary_of_scanAt_length hlen
      have hlong := Terminal.length_le_reach_scanAt hlen
      rw [← hscan] at hlong
      have hslice := looks.slice (Nat.le_trans hlow hle) (Nat.le_add_right _ n) (by omega)
        hboundary hend
      rw [looks.moves _ n (Nat.le_trans hlow hle)] at hslice
      simp only [hn, if_false, Setting.leaf, Program.plain_text, hslice]

/-- What is derived at a place of a text is derived wherever another text looks alike, as long as
nothing was looked at that is not there. -/
theorem Derives.carry {allowed allowed' : MemoKey → Prop} {task : Task} {a : Answer}
    (alike : g.Alike h) (looks : old.LooksLike new f low high)
    (hallowed : ∀ rule q b, Derives g old allowed (.rule rule) q b → low ≤ q →
      b.notes.reach ≤ high → allowed' (rule, f q))
    (hderives : Derives g old allowed task p a) (hp : old.isBoundary p = true) (hlow : low ≤ p)
    (hhigh : p ≤ high) (hreach : a.notes.reach ≤ high)
    (htokens : task.Tokens fun t => h.terminal t = g.terminal t) :
    ∃ b, Derives h new allowed' task (f p) b ∧ a.Moved f low b := by
  have hfar : ∀ {task p a}, Derives g old allowed task p a → old.isBoundary p = true → low ≤ p →
      ∀ x, a.notes.far = some x → low ≤ x.position := fun hderives hp hlow x hx =>
    Nat.le_trans hlow ((hderives.fits hp).far x hx).1
  induction hderives with
  | blank => exact ⟨_, .blank, .idle f low _⟩
  | token => exact ⟨_, .token, tokenAnswer_carry alike looks htokens hlow hp hhigh hreach⟩
  | call _ ih =>
    obtain ⟨b, hb, hmoved⟩ := ih hp hlow hhigh hreach trivial
    exact ⟨_, .call hb, hmoved.called alike _ _⟩
  | members _ ih =>
    obtain ⟨b, hb, hmoved⟩ := ih hp hlow hhigh hreach htokens
    exact ⟨b, .members hb, hmoved⟩
  | alternatives _ ih =>
    obtain ⟨b, hb, hmoved⟩ := ih hp hlow hhigh hreach htokens
    exact ⟨b, .alternatives hb, hmoved⟩
  | repetition _ ih =>
    obtain ⟨b, hb, hmoved⟩ := ih hp hlow hhigh hreach htokens
    exact ⟨b, .repetition hb, hmoved⟩
  | wrap _ ih =>
    obtain ⟨b, hb, hmoved⟩ := ih hp hlow hhigh hreach htokens
    exact ⟨_, .wrap hb, hmoved.wrapped alike _⟩
  | @rule rule p a known body ih =>
    have hbody : a.notes.reach ≤ high := Nat.le_trans (Nat.le_max_right _ _) hreach
    obtain ⟨b, hb, hmoved⟩ := ih hp hlow hhigh hbody (alike.bodies rule)
    have hkey := hallowed rule p _ (.rule known body) hlow hreach
    exact ⟨_, .rule hkey (alike.rule rule ▸ hb), hmoved.fromRule looks hlow⟩
  | seqNil => exact ⟨_, .seqNil, .idle f low _⟩
  | seqTook head tail ihhead ihtail =>
    obtain ⟨hle, hstop, hboundary⟩ := head.stop_bounds hp
    have hhead := Nat.le_trans (Nat.le_max_left _ _) hreach
    have htail := Nat.le_trans (Nat.le_max_right _ _) hreach
    obtain ⟨b, hb, hmoved⟩ := ihhead hp hlow hhigh hhead htokens.1
    obtain ⟨notes', rfl⟩ := hmoved.exists_notes
    obtain ⟨b', hb', hmoved'⟩ := ihtail hboundary (by omega) (by omega) htail htokens.2
    exact ⟨_, .seqTook hb hb', hmoved.behind looks hmoved' (hfar head hp hlow)
      (hfar tail hboundary (by omega))⟩
  | seqFailed _ ih =>
    obtain ⟨b, hb, hmoved⟩ := ih hp hlow hhigh hreach htokens.1
    obtain ⟨notes', rfl⟩ := hmoved.exists_notes_of_none
    exact ⟨_, .seqFailed hb, hmoved⟩
  | choiceNil => exact ⟨_, .choiceNil, rfl, rfl, .zero f low⟩
  | choiceTook _ ih =>
    obtain ⟨b, hb, hmoved⟩ := ih hp hlow hhigh hreach htokens.1
    obtain ⟨notes', rfl⟩ := hmoved.exists_notes
    exact ⟨_, .choiceTook hb, hmoved⟩
  | choiceNext head tail ihhead ihtail =>
    have hhead := Nat.le_trans (Nat.le_max_left _ _) hreach
    have htail := Nat.le_trans (Nat.le_max_right _ _) hreach
    obtain ⟨b, hb, hmoved⟩ := ihhead hp hlow hhigh hhead htokens.1
    obtain ⟨notes', rfl⟩ := hmoved.exists_notes_of_none
    obtain ⟨b', hb', hmoved'⟩ := ihtail hp hlow hhigh htail htokens.2
    exact ⟨_, .choiceNext hb hb', hmoved.noting looks hmoved' (hfar head hp hlow)
      (hfar tail hp hlow)⟩
  | @enough _ least _ count p full =>
    have hnone : Answer.Moved f low ⟨none, {}⟩ ⟨none, {}⟩ := ⟨rfl, rfl, .zero f low⟩
    exact ⟨_, .enough full, hnone.endRepetition least count p⟩
  | @idleIteration _ least _ count p _ _ room _ still ih =>
    obtain ⟨b, hb, hmoved⟩ := ih hp hlow hhigh hreach htokens
    obtain ⟨notes', rfl⟩ := hmoved.exists_notes
    exact ⟨_, .idleIteration room hb (congrArg f still), hmoved.endRepetition least count p⟩
  | nextIteration room head moved tail ihhead ihtail =>
    obtain ⟨hle, hstop, hboundary⟩ := head.stop_bounds hp
    have hhead := Nat.le_trans (Nat.le_max_left _ _) hreach
    have htail := Nat.le_trans (Nat.le_max_right _ _) hreach
    obtain ⟨b, hb, hmoved⟩ := ihhead hp hlow hhigh hhead htokens
    obtain ⟨notes', rfl⟩ := hmoved.exists_notes
    obtain ⟨b', hb', hmoved'⟩ := ihtail hboundary (by omega) (by omega) htail htokens
    have hmoves := mt (looks.move_inj (by omega) hlow).mp moved
    exact ⟨_, .nextIteration room hb hmoves hb', hmoved.behind looks hmoved'
      (hfar head hp hlow) (hfar tail hboundary (by omega))⟩
  | @lastIteration _ least _ count p _ room _ ih =>
    obtain ⟨b, hb, hmoved⟩ := ih hp hlow hhigh hreach htokens
    obtain ⟨notes', rfl⟩ := hmoved.exists_notes_of_none
    exact ⟨_, .lastIteration room hb, hmoved.endRepetition least count p⟩

end

end Packrat
