import Packrat.Program.Lexical
import Packrat.Proofs.Regex.Escapes

/-!
# Reading in a group

An expression that can stand in a group is read there as it is on its own, whatever follows the
group, and whatever names other groups have. What stands in it is told part by part: bounds of
repetitions and what opens groups first, then branches.
-/

namespace Packrat.Regex

variable {n : Nat} {mode : ReadMode} {branches parts : List Written} {cs rest : List Char}
  {c : Char}

section Bounds

variable {b : Bool}

/-- The digits of a number are all that come next, blanks between them being passed. -/
theorem digitsOf_eq (n : Nat) (cs : List Char) :
    readDecimal.digitsOf b n cs = readWhile b (·.isDigit) n cs := by
  induction n generalizing cs with
  | zero => cases cs <;> rfl
  | succ n ih =>
    cases cs with
    | nil => rfl
    | cons c cs => rw [readDecimal.digitsOf, readWhile, ih]

/-- A number in front of something else is the same when more follows. -/
theorem readDecimal_append {cs t : List Char} (h : (readDecimal b cs).2 ≠ []) :
    readDecimal b (cs ++ t) = ((readDecimal b cs).1, (readDecimal b cs).2 ++ t) := by
  unfold readDecimal at h ⊢
  simp only [digitsOf_eq] at h ⊢
  have hrest : (readWhile b (·.isDigit) ((cs.dropWhile isBlank).length + 1)
      (cs.dropWhile isBlank)).2 ≠ [] := fun hnil => by simp [hnil] at h
  have hcs : cs.dropWhile isBlank ≠ [] := fun hnil => by simp [hnil, readWhile] at hrest
  have hdrop : (cs ++ t).dropWhile isBlank = cs.dropWhile isBlank ++ t := by
    rw [List.dropWhile_append, if_neg (by simpa using hcs)]
  rw [hdrop, readWhile_append (n := (cs.dropWhile isBlank).length + 1) (Nat.le_succ _)
    (Nat.le_succ _) hrest]
  simp only [List.dropWhile_append, List.isEmpty_eq_false_iff.mpr h, Bool.false_eq_true, if_false]

/-- The bounds end with a brace, so nothing behind them is looked at. -/
theorem readBounds_append {cs t r : List Char} {bounds : Nat × Option Nat}
    (h : readBounds b cs = some (bounds, r)) : readBounds b (cs ++ t) = some (bounds, r ++ t) := by
  unfold readBounds at h ⊢
  cases hread : readDecimal b (skip b cs) with
  | mk least rest =>
  rw [hread] at h
  cases least with
  | none => cases h
  | some least =>
  have hcs : skip b cs ≠ [] := fun hnil => by
    rw [hnil] at hread
    cases hread
  have hrest : rest ≠ [] := fun hnil => by
    rw [hnil] at h
    cases h
  rw [skip_append hcs, readDecimal_append (by rw [hread]; exact hrest), hread]
  simp only [Option.bind_eq_bind, Option.bind_some] at h ⊢
  split at h
  · cases h
    rfl
  · rename_i rest
    simp only [List.cons_append]
    split at h
    · rename_i rest' hskip
      cases h
      rw [skip_append (by rw [hskip]; simp), hskip, List.cons_append]
      rfl
    · rename_i hclose
      split at h
      · rename_i most rest' hmost
        cases hskip : skip b rest with
        | nil =>
          rw [hskip] at hmost
          cases hmost
        | cons c s =>
          have hc : c ≠ '\x7d' := fun hc => hclose s (by rw [hskip, hc])
          rw [hskip] at hmost
          have happend := @readDecimal_append b (c :: s) t (by rw [hmost]; simp)
          rw [hmost, List.cons_append, List.cons_append] at happend
          rw [skip_append (by rw [hskip]; simp), hskip, List.cons_append]
          simp only [List.cons.injEq, hc, false_and, imp_false, not_false_eq_true, implies_true,
            happend]
          split at h
          · cases h
            simp [*]
          · cases h
      · cases h
  · cases h

/-- The bounds of a repetition are read the same in front of a parenthesis. -/
theorem framed_readBounds {p : Nat × Option Nat → Prop} : Framed p (readBounds b) where
  nil a r h := by cases b <;> cases h
  keeps cs a r h := .inl fun t => readBounds_append h

end Bounds

section Opening

/-- Flags are read up to what ends them, whatever follows. -/
theorem readFlags_append {cs t r : List Char} {seen items : List FlagItem}
    (h : readFlags cs seen = some (items, r)) :
    readFlags (cs ++ t) seen = some (items, r ++ t) ∧ r ≠ [] := by
  induction cs generalizing seen with
  | nil => cases h
  | cons c cs ih =>
    rw [readFlags] at h
    rw [List.cons_append, readFlags]
    split at h
    · rename_i hend
      rw [if_pos hend]
      split at h
      · cases h
      · rename_i hdash
        cases h
        exact ⟨by rw [if_neg hdash]; rfl, by simp⟩
    · rename_i hend
      rw [if_neg hend]
      simp only at h ⊢
      split at h
      · rename_i hdash
        simp only [if_pos hdash, Option.bind_eq_bind, Option.bind_some] at h ⊢
        split at h
        · cases h
        · rename_i hnew
          simpa only [if_neg hnew] using ih h
      · rename_i hdash
        simp only [if_neg hdash] at h ⊢
        cases hflag : flag? c with
        | none =>
          rw [hflag] at h
          cases h
        | some flag =>
          simp only [hflag, Option.map_some, Option.bind_eq_bind, Option.bind_some] at h ⊢
          split at h
          · cases h
          · rename_i hnew
            simpa only [if_neg hnew] using ih h

/-- The name of a group is read up to its bracket, whatever follows. -/
theorem readName_append {cs t r name : List Char} (h : readName cs = some (name, r)) :
    readName (cs ++ t) = some (name, r ++ t) := by
  unfold readName at h ⊢
  split at h
  · rename_i first more rest htake hdrop
    have hlength := congrArg List.length
      (List.takeWhile_append_dropWhile (p := (· != '>')) (l := cs))
    rw [hdrop, List.length_append, List.length_cons] at hlength
    rw [List.takeWhile_append, List.dropWhile_append, if_neg (by omega), hdrop, htake]
    simp only [List.isEmpty_cons, Bool.false_eq_true, if_false, List.cons_append]
    split at h
    · rename_i hname
      cases h
      rw [if_pos hname]
    · cases h
  · cases h

/-- Flags do not begin with the letter that introduces a name. -/
theorem readFlags_cons_ne {c : Char} {cs : List Char} {x : List FlagItem × List Char}
    (h : readFlags (c :: cs) [] = some x) : c ≠ 'P' := by
  rintro rfl
  cases h

/-- What opens a group is read the same in front of a parenthesis. -/
theorem framed_readOpening {p : Opening → Prop} : Framed p readOpening where
  nil := by rintro _ _ ⟨⟩; rfl
  keeps cs a r h := by
    refine .inl fun t => ?_
    unfold readOpening at h
    split at h
    case h_1 | h_2 | h_3 | h_4 => cases h
    case h_5 rest =>
      obtain ⟨⟨name, s⟩, hname, hx⟩ := Option.bind_eq_some_iff.mp h
      cases hx
      simp only [List.cons_append, readOpening, readName_append hname]
      rfl
    case h_6 rest heq hnot =>
      obtain ⟨⟨name, s⟩, hname, hx⟩ := Option.bind_eq_some_iff.mp h
      cases hx
      cases rest with
      | nil => cases hname
      | cons c rest =>
        have happend := readName_append (t := ')' :: t) hname
        have hc : c ≠ '=' := fun hc => heq rest (by rw [hc])
        have hc' : c ≠ '!' := fun hc => hnot rest (by rw [hc])
        simp only [List.cons_append] at happend ⊢
        simp [readOpening, hc, hc', happend]
    case h_7 rest heq hnot _ _ _ hname =>
      obtain ⟨⟨items, s⟩, hflags, hx⟩ := Option.bind_eq_some_iff.mp h
      cases rest with
      | nil => cases hflags
      | cons c rest =>
        obtain ⟨happend, hs⟩ := readFlags_append (t := ')' :: t) hflags
        have hc : c ≠ '=' := fun hc => heq rest (by rw [hc])
        have hc' : c ≠ '!' := fun hc => hnot rest (by rw [hc])
        have hc'' : c ≠ '<' := fun hc => hname rest (by rw [hc])
        have hP := readFlags_cons_ne hflags
        simp only [List.cons_append] at happend ⊢
        cases s with
        | nil => exact absurd rfl hs
        | cons d s =>
          by_cases hd : d = ')'
          · subst hd
            simp only [List.cons_append] at happend hx
            split at hx
            · cases hx
            · rename_i hitems
              cases hx
              rw [List.isEmpty_iff] at hitems
              simp [readOpening, hc, hc', hc'', hP, happend, hitems]
          · simp only at hx
            cases hx
            simp only [List.cons_append] at happend
            simp [readOpening, hc, hc', hc'', hP, happend]
    case h_8 _ _ _ _ _ _ hmark =>
      cases h
      cases cs with
      | nil => rfl
      | cons c cs =>
        have hc : c ≠ '?' := fun hc => hmark cs (by rw [hc])
        simp [readOpening, hc]

end Opening

/-- Reads on behind a group, of which `group` makes a part. -/
def readClosed (n : Nat) (mode : ReadMode) (branches parts : List Written)
    (group : Written → Written) (inner : Written × ReadMode × List Char) :
    Option (Written × ReadMode × List Char) :=
  match inner.2.2 with
  | ')' :: rest =>
    readBranches n ⟨mode.blankless, inner.2.1.names⟩ rest branches (group inner.1 :: parts)
  | _ => none

/-- Reads on behind what a parenthesis opens. -/
def readOpened (n : Nat) (mode : ReadMode) (branches parts : List Written) (opening : Opening)
    (rest : List Char) : Option (Written × ReadMode × List Char) :=
  match opening with
  | .flags items =>
    let blankless := (flagSetting? .ignoreWhitespace true items).getD mode.blankless
    readBranches n { mode with blankless } rest branches (.flags items :: parts)
  | .group items =>
    let blankless := (flagSetting? .ignoreWhitespace true items).getD mode.blankless
    readBranches n { mode with blankless } rest [] [] >>=
      readClosed n mode branches parts (.group items)
  | .capture name =>
    if name.any mode.names.contains then none
    else
      readBranches n { mode with names := name.toList ++ mode.names } rest [] [] >>=
        readClosed n mode branches parts .capture

/-- Reads on with a character that counts. -/
def readMarked (n : Nat) (mode : ReadMode) (branches parts : List Written) (c : Char)
    (rest : List Char) : Option (Written × ReadMode × List Char) :=
  match c with
  | '|' => readBranches n mode rest (.ofParts parts.reverse :: branches) []
  | '(' => readOpening (skip mode.blankless rest) >>= fun x =>
    readOpened n mode branches parts x.1 x.2
  | '[' => readBracketed mode.blankless rest >>= fun x =>
    readBranches n mode x.2 branches (x.1 :: parts)
  | '?' => repeatLast 0 (some 1) parts >>= readBranches n mode (dropLazy rest) branches
  | '*' => repeatLast 0 none parts >>= readBranches n mode (dropLazy rest) branches
  | '+' => repeatLast 1 none parts >>= readBranches n mode (dropLazy rest) branches
  | '\x7b' => readBounds mode.blankless rest >>= fun x => repeatLast x.1.1 x.1.2 parts >>=
    readBranches n mode (dropLazy (skip mode.blankless x.2)) branches
  | '\\' => readEscape mode.blankless rest >>= fun x =>
    readBranches n mode x.2 branches (x.1.toWritten :: parts)
  | '.' => readBranches n mode rest branches (.dot :: parts)
  | '^' => readBranches n mode rest branches (.assertion .lineStart :: parts)
  | '$' => readBranches n mode rest branches (.assertion .lineEnd :: parts)
  | c => readBranches n mode rest branches (.literal ⟨c, false⟩ :: parts)

/-- Where nothing comes next, the branches are put together. -/
theorem readBranches_nil (h : skip mode.blankless cs = []) :
    readBranches (n + 1) mode cs branches parts =
      some (readBranches.close branches parts, mode, []) := by
  rw [readBranches, h]

/-- In front of a closing parenthesis, the branches are put together and the parenthesis is left. -/
theorem readBranches_close (h : skip mode.blankless cs = ')' :: rest) :
    readBranches (n + 1) mode cs branches parts =
      some (readBranches.close branches parts, mode, ')' :: rest) := by
  rw [readBranches, h]
  rfl

/-- Another character is read as what it marks. -/
theorem readBranches_cons (h : skip mode.blankless cs = c :: rest) (hc : c ≠ ')') :
    readBranches (n + 1) mode cs branches parts = readMarked n mode branches parts c rest := by
  rw [readBranches, h]
  split
  case h_1 heq => cases heq
  case h_2 heq => exact absurd (List.cons.inj heq).1 hc
  case h_4 heq =>
    obtain ⟨rfl, rfl⟩ := List.cons.inj heq
    refine congrArg (Option.bind (readOpening _)) (funext fun ⟨opening, rest'⟩ => ?_)
    cases opening with
    | flags => rfl
    | group => rfl
    | capture name =>
      simp only [readOpened]
      split
      · rfl
      · rfl
  case h_14 heq =>
    obtain ⟨rfl, rfl⟩ := List.cons.inj heq
    simp_all [readMarked]
  all_goals
    rename_i heq
    obtain ⟨rfl, rfl⟩ := List.cons.inj heq
    rfl

section Building

/-- Whether some flags switch on the mode that ignores blanks. -/
def ignoresBlanks (items : List FlagItem) : Bool :=
  flagSetting? .ignoreWhitespace true items == some true

mutual

/-- Whether the mode that ignores blanks is switched on somewhere in an expression. -/
def Written.isVerbose : Written → Bool
  | .flags items => ignoresBlanks items
  | .repetition body _ _ => body.isVerbose
  | .group items body => ignoresBlanks items || body.isVerbose
  | .capture body => body.isVerbose
  | .alternation branches => anyVerbose branches
  | .concat parts => anyVerbose parts
  | _ => false

/-- The same for a list. -/
def anyVerbose : List Written → Bool
  | [] => false
  | part :: parts => part.isVerbose || anyVerbose parts

end

/-- Whether an expression has no expressions in it. -/
def Written.isSimple : Written → Bool
  | .repetition _ _ _ => false
  | .group _ _ => false
  | .capture _ => false
  | .alternation _ => false
  | .concat _ => false
  | _ => true

/-- How an expression is built from its finished branches and the parts of the current one, last one
first. -/
inductive Builds : (branches parts : List Written) → Written → Prop where
  | close (branches parts : List Written) :
      Builds branches parts (readBranches.close branches parts)
  | bar {branches parts : List Written} {w}
      (rest : Builds (.ofParts parts.reverse :: branches) [] w) : Builds branches parts w
  | simple {branches parts : List Written} {part w} (simple : part.isSimple = true)
      (rest : Builds branches (part :: parts) w) : Builds branches parts w
  | group {branches parts : List Written} {items inner w} (inside : Builds [] [] inner)
      (rest : Builds branches (.group items inner :: parts) w) : Builds branches parts w
  | capture {branches parts : List Written} {inner w} (inside : Builds [] [] inner)
      (rest : Builds branches (.capture inner :: parts) w) : Builds branches parts w
  | repetition {branches parts : List Written} {part least most w}
      (bounds : ∀ m, most = some m → least ≤ m)
      (rest : Builds branches (.repetition part least most :: parts) w) :
      Builds branches (part :: parts) w

/-- The bounds that are read are in order. -/
theorem bounds_of_readBounds {b : Bool} {bounds : Nat × Option Nat}
    (h : readBounds b cs = some (bounds, rest)) : ∀ m, bounds.2 = some m → bounds.1 ≤ m := by
  unfold readBounds at h
  obtain ⟨least, -, h⟩ := Option.bind_eq_some_iff.mp h
  rintro m hm
  split at h
  · cases h
    cases hm
    exact Nat.le_refl _
  · split at h
    · cases h
      cases hm
    · split at h
      · split at h
        · cases h
          cases hm
          assumption
        · cases h
      · cases h
  · cases h

/-- An expression is built on from a repetition of its last part. -/
theorem Builds.repeatLast {least : Nat} {most : Option Nat} {w : Written}
    {k : List Written → Option (Written × ReadMode × List Char)}
    {out : Written × ReadMode × List Char} (bounds : ∀ m, most = some m → least ≤ m)
    (hk : ∀ parts, k parts = some out → Builds branches parts w)
    (h : (Regex.repeatLast least most parts >>= k) = some out) : Builds branches parts w := by
  obtain ⟨parts', hparts, h⟩ := Option.bind_eq_some_iff.mp h
  unfold Regex.repeatLast at hparts
  split at hparts
  · split at hparts
    · cases hparts
      exact .repetition bounds (hk _ h)
    · cases hparts
  · cases hparts

/-- What is read behind a group is built of the group, and so of what stood in front of it. -/
theorem Builds.closed {group : Written → Written} {inner out : Written × ReadMode × List Char}
    (hgroup : ∀ {w}, Builds branches (group inner.1 :: parts) w → Builds branches parts w)
    (ih : ∀ mode cs parts out, readBranches n mode cs branches parts = some out →
      Builds branches parts out.1)
    (h : readClosed n mode branches parts group inner = some out) :
    Builds branches parts out.1 := by
  unfold readClosed at h
  split at h
  · exact hgroup (ih _ _ _ _ h)
  · cases h

/-- What is read is built of what was read before. -/
theorem builds_of_readBranches {out : Written × ReadMode × List Char}
    (h : readBranches n mode cs branches parts = some out) : Builds branches parts out.1 := by
  induction n generalizing mode cs branches parts out with
  | zero => cases h
  | succ n ih =>
    cases hskip : skip mode.blankless cs with
    | nil =>
      rw [readBranches_nil hskip] at h
      cases h
      exact .close _ _
    | cons c rest =>
      by_cases hc : c = ')'
      · subst hc
        rw [readBranches_close hskip] at h
        cases h
        exact .close _ _
      · rw [readBranches_cons hskip hc] at h
        unfold readMarked at h
        split at h
        case h_1 => exact .bar (ih h)
        case h_2 =>
          obtain ⟨⟨opening, rest'⟩, -, h⟩ := Option.bind_eq_some_iff.mp h
          unfold readOpened at h
          cases opening with
          | flags items => exact .simple rfl (ih h)
          | group items =>
            obtain ⟨inner, hinner, h⟩ := Option.bind_eq_some_iff.mp h
            exact .closed (.group (ih hinner)) (fun _ _ _ _ => ih) h
          | capture name =>
            dsimp only at h
            split at h
            · cases h
            · obtain ⟨inner, hinner, h⟩ := Option.bind_eq_some_iff.mp h
              exact .closed (.capture (ih hinner)) (fun _ _ _ _ => ih) h
        case h_3 =>
          obtain ⟨⟨item, rest'⟩, hitem, h⟩ := Option.bind_eq_some_iff.mp h
          obtain ⟨⟨negated, first, inside⟩, -, hitem⟩ := Option.bind_eq_some_iff.mp hitem
          obtain ⟨⟨set, behind⟩, -, hitem⟩ := Option.bind_eq_some_iff.mp hitem
          cases hitem
          exact .simple rfl (ih h)
        case h_4 => exact .repeatLast (by simp) (fun _ => ih) h
        case h_5 => exact .repeatLast (by simp) (fun _ => ih) h
        case h_6 => exact .repeatLast (by simp) (fun _ => ih) h
        case h_7 =>
          obtain ⟨⟨bounds, rest'⟩, hbounds, h⟩ := Option.bind_eq_some_iff.mp h
          exact .repeatLast (bounds_of_readBounds hbounds) (fun _ => ih) h
        case h_8 =>
          obtain ⟨⟨escape, rest'⟩, -, h⟩ := Option.bind_eq_some_iff.mp h
          refine .simple ?_ (ih h)
          cases escape <;> rfl
        all_goals exact .simple rfl (ih h)

/-- Some expressions switch on that blanks are ignored when one of them does. -/
theorem anyVerbose_eq_any (parts : List Written) : anyVerbose parts = parts.any (·.isVerbose) := by
  induction parts with
  | nil => rfl
  | cons part parts ih => rw [anyVerbose, ih, List.any_cons]

/-- An expression of parts ignores blanks somewhere when a part does. -/
theorem isVerbose_ofParts (parts : List Written) :
    (Written.ofParts parts).isVerbose = parts.any (·.isVerbose) := by
  match parts with
  | [] => rfl
  | [part] => simp [Written.ofParts]
  | a :: b :: parts => rw [← anyVerbose_eq_any]; rfl

/-- An expression of branches ignores blanks somewhere when a branch does. -/
theorem isVerbose_ofBranches (branches : List Written) :
    (Written.ofBranches branches).isVerbose = branches.any (·.isVerbose) := by
  match branches with
  | [] => rfl
  | [branch] => simp [Written.ofBranches]
  | a :: b :: branches => rw [← anyVerbose_eq_any]; rfl

/-- What ignores blanks somewhere still does when it is built into an expression. -/
theorem Builds.isVerbose {w : Written} (h : Builds branches parts w)
    (hverbose : branches.any (·.isVerbose) = true ∨ parts.any (·.isVerbose) = true) :
    w.isVerbose = true := by
  induction h with
  | close =>
    rw [readBranches.close, isVerbose_ofBranches, List.any_reverse, List.any_cons,
      isVerbose_ofParts, List.any_reverse, Bool.or_eq_true]
    exact hverbose.symm
  | bar _ ih =>
    refine ih (.inl ?_)
    rw [List.any_cons, isVerbose_ofParts, List.any_reverse, Bool.or_eq_true]
    exact hverbose.symm
  | simple _ _ ih =>
    refine ih (hverbose.imp_right fun hparts => ?_)
    rw [List.any_cons, hparts, Bool.or_true]
  | group _ _ _ ih | capture _ _ _ ih =>
    refine ih (hverbose.imp_right fun hparts => ?_)
    rw [List.any_cons, hparts, Bool.or_true]
  | repetition _ _ ih => exact ih hverbose

end Building

section Framing

/-- What is read with a comment: there are comments where blanks are ignored, so this is switched on
in the expression unless it was before. -/
def Commented (blankless : Bool) (x : Written × ReadMode) : Prop :=
  blankless = true ∨ x.1.isVerbose = true

/-- What comes behind the end of a group is read the same in front of a parenthesis. -/
theorem framed_readClosed {group : Written → Written} {inner : Written} {after : ReadMode}
    (ih : ∀ mode branches parts,
      Framed (Commented mode.blankless) (paired fun cs => readBranches n mode cs branches parts)) :
    Framed (Commented mode.blankless)
      (paired fun cs => readClosed n mode branches parts group (inner, after, cs)) :=
  .paired_close (f := fun rest => readBranches n ⟨mode.blankless, after.names⟩ rest branches
    (group inner :: parts)) (ih ⟨mode.blankless, after.names⟩ _ _)

/-- What a group was opened for is read the same in front of a parenthesis. -/
theorem framed_readOpened {opening : Opening}
    (ih : ∀ mode branches parts,
      Framed (Commented mode.blankless) (paired fun cs => readBranches n mode cs branches parts)) :
    Framed (Commented mode.blankless)
      (paired fun cs => readOpened n mode branches parts opening cs) := by
  cases opening with
  | flags items =>
    refine (ih _ _ _).mono fun cs x r h hcommented => ?_
    rcases hcommented with hblank | hverbose
    · cases hsetting : flagSetting? .ignoreWhitespace true items with
      | none => exact .inl (by rwa [hsetting] at hblank)
      | some on =>
        -- the flags that switched the mode on are among the parts
        obtain rfl : on = true := by rwa [hsetting] at hblank
        obtain ⟨⟨w, mode', left⟩, hout, heq⟩ := Option.map_eq_some_iff.mp h
        cases heq
        refine .inr ((builds_of_readBranches hout).isVerbose (.inr ?_))
        simp [Written.isVerbose, ignoresBlanks, hsetting]
    · exact .inr hverbose
  | group items =>
    exact .paired_bind₂ (ih _ _ _) (fun _ _ => framed_readClosed ih) fun _ _ _ _ _ h => nomatch h
  | capture name =>
    exact .paired_guard <| .paired_bind₂ (ih _ _ _) (fun _ _ => framed_readClosed ih)
      fun _ _ _ _ _ h => nomatch h

/-- What a character marks is read the same in front of a parenthesis. -/
theorem framed_readMarked (c : Char)
    (ih : ∀ mode branches parts,
      Framed (Commented mode.blankless) (paired fun cs => readBranches n mode cs branches parts)) :
    Framed (Commented mode.blankless) (paired fun cs => readMarked n mode branches parts c cs) := by
  unfold readMarked
  split
  · exact ih _ _ _
  · refine .skip (.paired_bind (framed_readOpening (p := fun _ => False))
      (fun _ => framed_readOpened ih) fun _ _ _ h => h.elim) fun _ => .inl
  · exact .paired_bind framed_readBracketed (fun item => ih mode branches (item :: parts))
      fun _ _ _ h _ => .inl h
  · exact .paired_lift _ fun parts => framed_dropLazy (ih mode branches parts)
  · exact .paired_lift _ fun parts => framed_dropLazy (ih mode branches parts)
  · exact .paired_lift _ fun parts => framed_dropLazy (ih mode branches parts)
  · refine .paired_bind (framed_readBounds (p := fun _ => False)) (fun bounds => ?_)
      fun _ _ _ h => h.elim
    exact .paired_lift (repeatLast bounds.1 bounds.2 parts) fun parts =>
      .skip (framed_dropLazy (ih mode branches parts)) fun _ => .inl
  · exact .paired_bind framed_readEscape
      (fun escape => ih mode branches (escape.toWritten :: parts)) fun _ _ _ h _ => .inl h
  all_goals exact ih _ _ _

/-- The branches of an expression are read the same in front of a closing parenthesis. -/
theorem framed_readBranches (n : Nat) (mode : ReadMode) (branches parts : List Written) :
    Framed (Commented mode.blankless)
      (paired fun cs => readBranches n mode cs branches parts) := by
  induction n generalizing mode branches parts with
  | zero => exact .none
  | succ n ih =>
    refine framed_skip_close mode.blankless (readBranches.close branches parts, mode)
      (fun c => paired (readMarked n mode branches parts c)) (fun cs h => ?_) (fun cs rest h => ?_)
      (fun cs c rest h hc => ?_) (fun _ => .inl) fun c => framed_readMarked c ih
    · rw [paired, readBranches_nil h]
      rfl
    · rw [paired, readBranches_close h]
      rfl
    · rw [paired, readBranches_cons h hc]
      rfl

end Framing

section Agreement

/-- Whether two readings come to the same expression and the same rest, if both succeed. -/
def Agree (o o' : Option (Written × ReadMode × List Char)) : Prop :=
  ∀ x y, o = some x → o' = some y → x.1 = y.1 ∧ x.2.2 = y.2.2

variable {m : Nat} {blankless : Bool} {names names' : List (List Char)}

/-- Readings that go on from the same agree when they agree from there. -/
theorem Agree.bind {α : Type} (o : Option α) {k k' : α → Option (Written × ReadMode × List Char)}
    (h : ∀ a, Agree (k a) (k' a)) : Agree (o >>= k) (o >>= k') := by
  cases o with
  | none => exact nofun
  | some a => exact h a

/-- The readings of a group agree if those of what stands in it do. -/
theorem Agree.closed {group : Written → Written} {o o' : Option (Written × ReadMode × List Char)}
    (h : Agree o o')
    (ih : ∀ names names' cs branches parts,
      Agree (readBranches n ⟨blankless, names⟩ cs branches parts)
        (readBranches m ⟨blankless, names'⟩ cs branches parts)) :
    Agree (o >>= readClosed n ⟨blankless, names⟩ branches parts group)
      (o' >>= readClosed m ⟨blankless, names'⟩ branches parts group) := by
  intro x y hx hy
  obtain ⟨⟨written, after, rest⟩, ho, hx⟩ := Option.bind_eq_some_iff.mp hx
  obtain ⟨⟨written', after', rest'⟩, ho', hy⟩ := Option.bind_eq_some_iff.mp hy
  obtain ⟨rfl, rfl⟩ : written = written' ∧ rest = rest' := h _ _ ho ho'
  simp only [readClosed] at hx hy
  split at hx
  · exact ih _ _ _ _ _ x y hx hy
  · cases hx

/-- How many levels there are and which names other groups have makes no difference to what is
read. -/
theorem agree_readBranches (n m : Nat) (blankless : Bool) (names names' : List (List Char))
    (cs : List Char) (branches parts : List Written) :
    Agree (readBranches n ⟨blankless, names⟩ cs branches parts)
      (readBranches m ⟨blankless, names'⟩ cs branches parts) := by
  induction n generalizing m blankless names names' cs branches parts with
  | zero => exact nofun
  | succ n ih =>
    cases m with
    | zero => exact fun _ _ _ h => nomatch h
    | succ m =>
    cases hskip : skip blankless cs with
    | nil =>
      rw [readBranches_nil hskip, readBranches_nil hskip]
      rintro _ _ ⟨⟩ ⟨⟩
      exact ⟨rfl, rfl⟩
    | cons c rest =>
      by_cases hc : c = ')'
      · subst hc
        rw [readBranches_close hskip, readBranches_close hskip]
        rintro _ _ ⟨⟩ ⟨⟩
        exact ⟨rfl, rfl⟩
      · rw [readBranches_cons hskip hc, readBranches_cons hskip hc]
        replace ih := ih m
        unfold readMarked
        split
        case h_2 =>
          refine .bind _ fun x => ?_
          unfold readOpened
          split
          · exact ih _ _ _ _ _ _
          · exact .closed (ih _ _ _ _ _ _) (ih _)
          · dsimp only
            split
            · exact nofun
            · split
              · exact fun _ _ _ h => nomatch h
              · exact .closed (ih _ _ _ _ _ _) (ih _)
        all_goals first
          | exact ih _ _ _ _ _ _
          | exact .bind _ fun _ => ih _ _ _ _ _ _
          | exact .bind _ fun _ => .bind _ fun _ => ih _ _ _ _ _ _

end Agreement

section Groups

variable {names : List (List Char)} {out : Written × ReadMode × List Char}

/-- A group that is read has an end, and reading goes on behind it. -/
theorem of_readBranches_group {items : List FlagItem}
    (hopening : ∀ x ∈ readOpening rest, x = (.group items, cs))
    (hblank : flagSetting? .ignoreWhitespace true items = none)
    (h : readBranches n ⟨false, names⟩ ('(' :: rest) branches parts = some out) :
    ∃ m inner after behind,
      readBranches m ⟨false, names⟩ cs [] [] = some (inner, after, ')' :: behind) ∧
      readBranches m ⟨false, after.names⟩ behind branches (.group items inner :: parts) =
        some out := by
  cases n with
  | zero => cases h
  | succ n =>
    rw [readBranches_cons rfl (show '(' ≠ ')' by decide)] at h
    obtain ⟨opened, hopened, h⟩ := Option.bind_eq_some_iff.mp h
    obtain rfl := hopening opened hopened
    simp only [readOpened, hblank, Option.getD_none] at h
    obtain ⟨⟨inner, after, left⟩, hinner, h⟩ := Option.bind_eq_some_iff.mp h
    simp only [readClosed] at h
    split at h
    · exact ⟨n, inner, after, _, hinner, h⟩
    · cases h

/-- Whether an expression is read in a group as it is on its own, whatever stands behind the
group. -/
def StandsInGroup (source : String) : Prop :=
  ∀ written, Written.read? source = some written → ∀ t, ∃ n mode,
    readBranches n ⟨false, []⟩ (source.toList ++ ')' :: t) [] [] = some (written, mode, ')' :: t)

/-- An expression is read in front of a closing parenthesis as it is on its own, unless a comment
takes the parenthesis. -/
theorem keeps_of_read? {source : String} {written : Written}
    (h : Written.read? source = some written) : ∃ n mode,
      Keeps (Commented false) (paired fun cs => readBranches n ⟨false, []⟩ cs [] []) source.toList
        (written, mode) [] := by
  obtain ⟨⟨w, mode, left⟩, hread, h⟩ := Option.bind_eq_some_iff.mp h
  simp only at h
  split at h
  case isFalse => cases h
  case isTrue hleft =>
    obtain rfl := List.isEmpty_iff.mp (Bool.and_eq_true_iff.mp hleft).1
    cases h
    have hpaired : paired (fun cs => readBranches (source.toList.length + 1) ⟨false, []⟩ cs [] [])
        source.toList = some ((written, mode), []) := by
      rw [paired, hread]
      rfl
    exact ⟨_, mode, (framed_readBranches _ _ _ _).keeps _ _ _ hpaired⟩

/-- An expression in which blanks are not ignored anywhere can stand in a group. -/
theorem standsInGroup_of_not_isVerbose {source : String}
    (hplain : ∀ written, Written.read? source = some written → written.isVerbose = false) :
    StandsInGroup source := by
  intro written h t
  obtain ⟨n, mode, hopen | ⟨hcommented, -⟩⟩ := keeps_of_read? h
  · obtain ⟨⟨w, mode', left⟩, hx, heq⟩ := Option.map_eq_some_iff.mp (hopen t)
    cases heq
    exact ⟨n, mode', hx⟩
  · rcases hcommented with hblank | hverbose
    · cases hblank
    · rw [hplain written h] at hverbose
      cases hverbose

/-- So can an expression of which the group around it can be read. -/
theorem standsInGroup_of_regexGroup {source : String}
    (hgroup : (Written.read? (regexGroup source)).isSome = true) : StandsInGroup source := by
  intro written h t
  obtain ⟨n, mode, hopen | ⟨-, -, htaken⟩⟩ := keeps_of_read? h
  · obtain ⟨⟨w, mode', left⟩, hx, heq⟩ := Option.map_eq_some_iff.mp (hopen t)
    cases heq
    exact ⟨n, mode', hx⟩
  · -- a comment that takes the parenthesis leaves the group without an end
    obtain ⟨⟨w, mode', left⟩, hx, heq⟩ := Option.map_eq_some_iff.mp htaken
    cases heq
    obtain ⟨whole, hwhole⟩ := Option.isSome_iff_exists.mp hgroup
    obtain ⟨out, hout, -⟩ := Option.bind_eq_some_iff.mp hwhole
    have hopening : ∀ x ∈ readOpening ('?' :: ':' :: (source.toList ++ [')'])),
        x = (.group [], source.toList ++ [')']) := by rintro _ ⟨⟩; rfl
    have hchars : (regexGroup source).toList =
        '(' :: '?' :: ':' :: (source.toList ++ [')']) := by
      simp [regexGroup]
    rw [hchars] at hout
    obtain ⟨m, inner, after, behind, hinner, -⟩ := of_readBranches_group hopening rfl hout
    cases (agree_readBranches _ _ _ _ _ _ _ _ _ _ hx hinner).2

end Groups

end Packrat.Regex
