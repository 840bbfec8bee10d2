import Packrat.Proofs.Regex.Framing

/-!
# Escapes and classes

Escapes and character classes are read the same in front of a closing parenthesis. Names of classes
and of word looks have no parenthesis in them, so they end before it.
-/

namespace Packrat.Regex

variable {α β : Type} {b : Bool} {p : α → Prop}

/-- A given number of hexadecimal digits is read the same in front of a parenthesis. -/
theorem framed_readHexDigits (n : Nat) : FramedIn b (readHexDigits b n) := by
  induction n with
  | zero => exact .pure []
  | succ n ih =>
    refine .uncons rfl fun c => Framed.keeps ?_
    simp only [readHexDigits]
    exact .guard (ih.skip.bind fun digits => .pure (c :: digits))

/-- Digits in braces are read the same: the brace ends them before the parenthesis. -/
theorem framed_readBraced (n : Nat) : FramedIn b (readBraced b n) := by
  induction n with
  | zero => exact .none
  | succ n ih =>
    refine framed_skip_uncons b ?g (fun cs h => ?_) (fun cs c rest h => ?_) fun c => Framed.keeps ?_
    rotate_left
    · rw [readBraced, h]
    · rw [readBraced, h]
    · by_cases hc : c = '}'
      · subst hc
        exact .pure []
      · simp only
        exact ih.bind fun inner => .pure (c :: inner)

/-- More levels than are needed change nothing. -/
theorem readBraced_mono {n m : Nat} (hle : n ≤ m) {cs : List Char} {x : List Char × List Char}
    (h : readBraced b n cs = some x) : readBraced b m cs = some x := by
  induction n generalizing m cs x with
  | zero => cases h
  | succ n ih =>
    cases m with
    | zero => cases hle
    | succ m =>
    simp only [readBraced] at h ⊢
    split at h
    · cases h
    · exact h
    · rename_i c rest hne hskip
      obtain ⟨⟨inner, r⟩, hinner, hx⟩ := Option.bind_eq_some_iff.mp h
      exact Option.bind_eq_some_iff.mpr ⟨_, ih (by omega) hinner, hx⟩

/-- The same when there is room for as many digits as there are characters. -/
theorem framed_braced : FramedIn b fun cs => readBraced b (cs.length + 1) cs :=
  .length framed_readBraced fun _ _ hle _ _ => readBraced_mono hle

/-- The same when the first digit has been looked at. -/
theorem framed_readHexDigits_cons (n : Nat) (c : Char) :
    FramedIn b fun cs => readHexDigits b (n + 1) (c :: cs) := by
  simp only [readHexDigits]
  exact .guard ((framed_readHexDigits n).skip.bind fun digits => .pure (c :: digits))

/-- A character given by its number is read the same in front of a parenthesis. -/
theorem framed_readHex (letter : Char) : FramedIn b (readHex b letter) := by
  obtain ⟨n, hn⟩ : ∃ n, (if (letter == 'x') = true then 2
      else if (letter == 'u') = true then 4 else 8) = n + 1 := by
    split <;> [exact ⟨1, rfl⟩; split <;> [exact ⟨3, rfl⟩; exact ⟨7, rfl⟩]]
  refine framed_skip_uncons b ?g (fun cs h => ?_) (fun cs c rest h => ?_) fun c => Framed.keeps ?_
  rotate_left
  · simp only [readHex, h, hn]
    rfl
  · rw [readHex, h]
  · by_cases hc : c = '{'
    · subst hc
      simp only
      refine framed_braced.bind fun digits => ?_
      dsimp only
      split
      · exact .none
      · exact .lift _ fun c => FramedIn.skip (.pure (⟨c, false⟩ : Literal))
    · simp only [List.cons.injEq, hc, false_and, imp_false, not_false_eq_true, implies_true, hn]
      refine (framed_readHexDigits_cons n c).bind fun digits => ?_
      dsimp only
      exact .lift _ fun c => .pure (⟨c, letter == 'x'⟩ : Literal)

/-- The name of a class of characters, of one letter or in braces, is read the same. -/
theorem framed_readProperty : FramedIn b (readProperty b) := by
  refine framed_skip_uncons b ?g (fun cs h => ?_) (fun cs c rest h => ?_) fun c => Framed.keeps ?_
  rotate_left
  · simp only [readProperty, h]
  · rw [readProperty, h]
  · by_cases hc : c = '{'
    · subst hc
      exact framed_braced.bind fun inner => .pure (propertyQuery inner)
    · simp only
      split
      · exact .none
      · exact FramedIn.skip (.pure _)

/-- The name of a word look is all that is made of its characters. -/
theorem readLookName_eq (n : Nat) (cs : List Char) :
    readLookName b n cs = readWhile b isLookNameChar n cs := by
  induction n generalizing cs with
  | zero => rw [readLookName, readWhile_zero]
  | succ n ih =>
    cases cs with
    | nil => rfl
    | cons c cs => rw [readLookName, readWhile, ih]

/-- A word look that is read in braces is read the same in front of a parenthesis. -/
theorem keeps_readWordLook {cs r : List Char} {a : WordLook} {p : WordLook → Prop}
    (h : readWordLook b cs = some (a, r)) : Keeps p (readWordLook b) cs a r := by
  refine .inl fun t => ?_
  unfold readWordLook at h
  split at h
  · rename_i inner
    rw [List.cons_append, readWordLook]
    simp only [readLookName_eq] at h ⊢
    split at h
    · cases h
    · rename_i c rest hskip
      rw [skip_append (by simp [hskip]), hskip, List.cons_append]
      dsimp only
      split at h
      · rename_i hname
        rw [if_pos hname]
        split at h
        · rename_i name rest' hread
          have happend := readWhile_append (b := b) (t := ')' :: t)
            (m := (rest ++ ')' :: t).length + 1) (Nat.le_refl (c :: rest).length) (by simp)
            (by rw [List.length_cons, hread]; simp)
          rw [List.length_cons, hread, List.cons_append] at happend
          rw [happend]
          obtain ⟨kind, hkind, hx⟩ := Option.bind_eq_some_iff.mp h
          cases hx
          exact Option.bind_eq_some_iff.mpr ⟨_, hkind, rfl⟩
        · cases h
      · rename_i hname
        rw [if_neg hname]
        cases h
        rfl
  · cases h
    rename_i hbrace
    cases cs with
    | nil => rfl
    | cons c cs =>
      rw [List.cons_append, readWordLook]
      intro inner hinner
      cases hinner
      exact hbrace _ rfl

/-- Reading a word look that may be there comes to the same in front of a parenthesis. -/
theorem framed_readWordLook : FramedIn b (readWordLook b) where
  nil := by rintro _ _ ⟨⟩; rfl
  keeps _ _ _ h := keeps_readWordLook h

/-- What stands behind a backslash is read the same in front of a parenthesis. -/
theorem framed_readEscape : FramedIn b (readEscape b) := by
  refine .uncons rfl fun c => Framed.keeps ?_
  simp only [readEscape]
  split
  case h_1 | h_2 | h_3 => exact (framed_readHex _).bind fun l => .pure (Escape.literal l)
  case h_4 | h_5 => exact framed_readProperty.bind fun query => .pure (Escape.property _ query)
  case h_20 => exact framed_readWordLook.bind fun kind => .pure (Escape.assertion (.word kind))
  case h_24 => exact .guard (.pure (Escape.literal ⟨c, false⟩))
  all_goals exact .pure _

section Sets

/-- There is no ASCII class with a parenthesis in its name. -/
theorem asciiClass?_eq_none {name : List Char} (h : ')' ∈ name) : asciiClass? name = none := by
  unfold asciiClass?
  split
  case h_15 => rfl
  all_goals
    rename_i hname
    have := congrArg String.toList hname
    rw [String.toList_ofList] at this
    simp [this] at h

/-- A named class is read with its mark, or not at all: no name has a parenthesis. -/
theorem readAsciiClass_append (cs t : List Char) : readAsciiClass (cs ++ ')' :: t) =
    (readAsciiClass cs).map fun x => (x.1, x.2 ++ ')' :: t) := by
  cases cs with
  | nil => rfl
  | cons c inner =>
    by_cases hc : c = ':'
    · subst hc
      have hneg : ((inner ++ ')' :: t).head? == some '^') = (inner.head? == some '^') := by
        cases inner <;> rfl
      have hdrop : (if (inner.head? == some '^') = true then (inner ++ ')' :: t).drop 1
          else inner ++ ')' :: t) =
          (if (inner.head? == some '^') = true then inner.drop 1 else inner) ++ ')' :: t := by
        cases inner with
        | nil => rfl
        | cons d inner => split <;> rfl
      simp only [List.cons_append, readAsciiClass, hneg, hdrop]
      generalize (if (inner.head? == some '^') = true then inner.drop 1 else inner) = cs
      cases hrest : cs.dropWhile (· != ':') with
      | nil =>
        rw [List.takeWhile_append_of_pos (List.dropWhile_eq_nil_iff.mp hrest)]
        have hnone : asciiClass? (cs ++ (')' :: t).takeWhile (· != ':')) = none :=
          asciiClass?_eq_none (by simp)
        rw [hnone]
        split <;> rfl
      | cons d rest =>
        have htake : (cs ++ ')' :: t).takeWhile (· != ':') = cs.takeWhile (· != ':') := by
          have hlength := congrArg List.length
            (List.takeWhile_append_dropWhile (p := (· != ':')) (l := cs))
          rw [hrest, List.length_append, List.length_cons] at hlength
          rw [List.takeWhile_append, if_neg (by omega)]
        have hdropWhile : (cs ++ ')' :: t).dropWhile (· != ':') = d :: rest ++ ')' :: t := by
          rw [List.dropWhile_append, hrest]
          rfl
        rw [htake, hdropWhile]
        by_cases hd : d = ':'
        · subst hd
          cases rest with
          | nil => rfl
          | cons e rest =>
            by_cases he : e = ']'
            · subst he
              simp [Function.comp_def]
            · simp [he]
        · simp [hd]
    · simp [readAsciiClass, hc]

/-- A character or an escape in a class is read the same in front of a parenthesis. -/
theorem framed_readSetPrimitive : FramedIn b (readSetPrimitive b) := by
  refine .uncons rfl fun c => Framed.keeps ?_
  by_cases hc : c = '\\'
  · subst hc
    exact framed_readEscape
  · simp only [readSetPrimitive]
    exact .pure _

/-- The dashes that open a class are read as characters, as many as there are. -/
theorem dashes_eq (n : Nat) (cs : List Char) : readSetOpening.dashes b n cs =
    ((readWhile b (· == '-') n cs).1.map fun _ => .literal ⟨'-', false⟩,
      (readWhile b (· == '-') n cs).2) := by
  induction n generalizing cs with
  | zero => cases cs <;> rfl
  | succ n ih =>
    cases cs with
    | nil => rfl
    | cons c cs =>
      by_cases hc : c = '-'
      · subst hc
        rw [readSetOpening.dashes, ih]
        rfl
      · simp [readSetOpening.dashes, readWhile, hc]

/-- Dashes in front of something else are the same when more follows. -/
theorem dashes_append {cs t : List Char} (h : (readSetOpening.dashes b cs.length cs).2 ≠ []) :
    readSetOpening.dashes b (cs ++ t).length (cs ++ t) =
      ((readSetOpening.dashes b cs.length cs).1,
        (readSetOpening.dashes b cs.length cs).2 ++ t) := by
  simp only [dashes_eq] at h ⊢
  rw [readWhile_append (Nat.le_refl _) (Nat.le_refl _) h]

/-- What opens a class behind its caret: dashes, and a bracket if there are none. -/
def openSet (b negated : Bool) (cs : List Char) : Option ((Bool × List SetItem) × List Char) :=
  let (items, cs) := readSetOpening.dashes b cs.length cs
  match items, cs with
  | _, [] => none
  | [], ']' :: rest => some ((negated, [.literal ⟨']', false⟩]), skip b rest)
  | items, cs => some ((negated, items), cs)

/-- What opens a class. -/
def openClass (b : Bool) : List Char → Option ((Bool × List SetItem) × List Char)
  | '^' :: rest => openSet b true (skip b rest)
  | rest => openSet b false rest

/-- What does not begin with a caret opens a class that is not negated. -/
theorem openClass_of_ne {cs : List Char} (h : ∀ rest, cs = '^' :: rest → False) :
    openClass b cs = openSet b false cs := by
  unfold openClass
  split
  · exact absurd rfl (h _)
  · rfl

/-- To read what opens a class is to pass blanks, a caret if there is one, and the dashes. -/
theorem readSetOpening_eq (cs : List Char) :
    paired (readSetOpening b) cs = openClass b (skip b cs) := by
  have hrest : ∀ negated cs, Option.map
      (fun x : Bool × List SetItem × List Char => ((x.1, x.2.1), x.2.2))
      (match readSetOpening.dashes b cs.length cs with
        | (items, cs) => match items, cs with
          | _, [] => none
          | [], ']' :: rest => some (negated, [.literal ⟨']', false⟩], skip b rest)
          | items, cs => some (negated, items, cs)) = openSet b negated cs := by
    intro negated cs
    unfold openSet
    obtain ⟨items, s⟩ := readSetOpening.dashes b cs.length cs
    dsimp only
    split <;> rfl
  unfold paired readSetOpening
  generalize skip b cs = cs
  split
  rename_i negated cs' hsplit
  split at hsplit
  · cases hsplit
    exact hrest true _
  · rename_i hcaret
    cases hsplit
    rw [openClass_of_ne hcaret]
    exact hrest false _

/-- What opens a class behind its caret is read the same in front of a parenthesis. -/
theorem framed_openSet (negated : Bool) : FramedIn b (openSet b negated) where
  nil := by rintro _ _ ⟨⟩
  keeps cs a r h := by
    have happend := fun t => @dashes_append b cs (')' :: t)
    unfold openSet at h
    cases hread : readSetOpening.dashes b cs.length cs with
    | mk items s =>
      rw [hread] at h happend
      dsimp only at h happend
      split at h
      · cases h
      · rename_i rest
        cases h
        have hopen : ∀ t, openSet b negated (cs ++ ')' :: t) =
            some ((negated, [.literal ⟨']', false⟩]), skip b (rest ++ ')' :: t)) := fun t => by
          unfold openSet
          rw [happend t (by simp)]
          rfl
        refine ((framed_skip (b := b)).keeps rest () _ rfl).imp (fun h t => ?_) ?_
        · rw [hopen t, (Prod.mk.inj (Option.some.inj (h t))).2]
        · rintro ⟨hb, hnil, htaken⟩
          exact ⟨hb, hnil, by rw [hopen [], (Prod.mk.inj (Option.some.inj htaken)).2]⟩
      · rename_i s' hnil hopen
        cases h
        refine .inl fun t => ?_
        unfold openSet
        rw [happend t hnil]
        cases r with
        | nil => exact absurd rfl hnil
        | cons c r =>
          cases items with
          | nil =>
            have hc : c ≠ ']' := fun hc => hopen r rfl (by rw [hc])
            simp [hc]
          | cons item items => simp

/-- The same with the caret. -/
theorem framed_openClass : FramedIn b (openClass b) where
  nil := by rintro _ _ ⟨⟩
  keeps cs a r h := by
    unfold openClass at h
    split at h
    · rename_i rest
      exact (framed_openSet true).skip.keeps rest a r h
    · rename_i hcaret
      have hsame : ∀ t, openClass b (cs ++ ')' :: t) = openSet b false (cs ++ ')' :: t) := by
        refine fun t => openClass_of_ne fun rest hrest => ?_
        cases cs with
        | nil => cases hrest
        | cons c cs =>
          obtain ⟨rfl, -⟩ := List.cons.inj hrest
          exact hcaret _ rfl
      refine ((framed_openSet false).keeps cs a r h).imp (fun hopen t => ?_)
        (And.imp_right (And.imp_right fun htaken => ?_))
      · rw [hsame, hopen]
      · rw [hsame, htaken]

/-- What opens a class is read the same in front of a parenthesis, blanks included. -/
theorem framed_readSetOpening : FramedIn b (paired (readSetOpening b)) := by
  rw [funext readSetOpening_eq]
  exact framed_openClass.skip

/-- The next character that is no blank is the same when more follows. -/
theorem peekPast_append {cs t : List Char} {c : Char} (h : peekPast b cs = some c) :
    peekPast b (cs ++ t) = some c := by
  cases b with
  | false =>
    simp only [peekPast, Bool.false_eq_true, if_false] at h ⊢
    rw [List.head?_append, h, Option.some_or]
  | true =>
    simp only [peekPast, if_true, List.dropWhile_append] at h ⊢
    cases hdrop : cs.dropWhile isBlank with
    | nil => simp [hdrop] at h
    | cons d rest =>
      simp only [hdrop, List.isEmpty_cons, Bool.false_eq_true, if_false, List.cons_append] at h ⊢
      by_cases hd : d = '#'
      · subst hd
        simp only [List.dropWhile_append] at h ⊢
        cases hrest : rest.dropWhile isBlank with
        | nil => simp [hrest] at h
        | cons e rest => simpa [hrest] using h
      · simpa [hd] using h

/-- Of blanks alone nothing is left. -/
theorem dropBlanks_of_blank {cs : List Char} (h : ∀ c ∈ cs, isBlank c = true) (inComment : Bool) :
    dropBlanks inComment cs = [] := by
  induction cs generalizing inComment with
  | nil => cases inComment <;> rfl
  | cons c cs ih =>
    rw [List.forall_mem_cons] at h
    cases inComment with
    | true => exact ih h.2 _
    | false => simp only [dropBlanks, h.1, if_true, ih h.2]

/-- Blanks that are dropped at once would have been dropped one by one. -/
theorem dropBlanks_dropWhile (cs : List Char) :
    dropBlanks false (cs.dropWhile isBlank) = dropBlanks false cs := by
  induction cs with
  | nil => rfl
  | cons c cs ih =>
    rw [List.dropWhile_cons]
    split
    · rename_i hblank
      rw [ih, dropBlanks, if_pos hblank]
    · rfl

/-- Where no character comes next, nothing is left behind the blanks. -/
theorem skip_eq_nil_of_peekPast {cs : List Char} (h : peekPast b cs = none) : skip b cs = [] := by
  cases b with
  | false => exact List.head?_eq_none_iff.mp h
  | true =>
    simp only [peekPast, if_true] at h
    simp only [skip, if_true]
    rw [← dropBlanks_dropWhile]
    cases hdrop : cs.dropWhile isBlank with
    | nil => rfl
    | cons d rest =>
      rw [hdrop] at h
      by_cases hd : d = '#'
      · subst hd
        have hblank : ∀ c ∈ rest, isBlank c = true :=
          List.dropWhile_eq_nil_iff.mp (List.head?_eq_none_iff.mp h)
        have hsign : isBlank '#' = false := isBlank_eq_false (by decide) (by decide)
        simp [dropBlanks, hsign, dropBlanks_of_blank hblank]
      · simp [hd] at h

/-- What stands behind the first character of a range, or behind an item that is none. -/
def rangeEnd (b : Bool) (first : Escape) (cs : List Char) : Option (SetItem × List Char) :=
  match skip b cs with
  | [] => none
  | '-' :: more => do
    let next := peekPast b more
    if next == some ']' || next == some '-' then
      return (← first.toSetItem?, '-' :: more)
    let (last, rest) ← readSetPrimitive b (skip b more)
    match first, last with
    | .literal first, .literal last =>
      if first.char ≤ last.char then some (.range first last, rest) else none
    | _, _ => none
  | rest => do return (← first.toSetItem?, rest)

/-- What stands behind the first character of a range is read the same in front of a parenthesis. -/
theorem framed_rangeEnd (first : Escape) : FramedIn b (rangeEnd b first) where
  nil a r h := by cases b <;> cases h
  keeps cs a r h := by
    unfold rangeEnd at h
    split at h
    · cases h
    · rename_i more hskip
      have hskip' : ∀ t, skip b (cs ++ t) = '-' :: (more ++ t) := fun t => by
        rw [skip_append (by rw [hskip]; simp), hskip, List.cons_append]
      cases hpeek : peekPast b more with
      | none => simp [hpeek, skip_eq_nil_of_peekPast hpeek, readSetPrimitive] at h
      | some c =>
        have hpeek' : ∀ t, peekPast b (more ++ t) = some c := fun t => peekPast_append hpeek
        unfold rangeEnd Keeps
        simp only [hskip', hpeek', hpeek] at h ⊢
        split at h
        · rename_i hnext
          obtain ⟨item, hitem, hx⟩ := Option.bind_eq_some_iff.mp h
          cases hx
          simp only [if_pos hnext, hitem]
          exact .inl fun t => rfl
        · rename_i hnext
          simp only [if_neg hnext]
          refine ((framed_readSetPrimitive.skip (b := b)).bind fun last => ?_).keeps more a r h
          dsimp only
          split
          · exact .guard (.pure _)
          · exact .none
    · rename_i hnil hdash
      obtain ⟨item, hitem, hx⟩ := Option.bind_eq_some_iff.mp h
      cases hx
      refine .inl fun t => ?_
      unfold rangeEnd
      rw [skip_append hnil]
      split
      · rename_i heq
        simp at heq
      · rename_i more heq
        cases hskip : skip b cs with
        | nil => exact absurd hskip hnil
        | cons d rest =>
          rw [hskip] at heq
          obtain ⟨rfl, -⟩ := List.cons.inj heq
          exact absurd hskip (hdash rest)
      · rw [hitem]
        rfl

/-- An item or a range of a class is read the same in front of a parenthesis. -/
theorem framed_readSetRange : FramedIn b (readSetRange b) :=
  framed_readSetPrimitive.bind framed_rangeEnd

/-- The operation on sets that is written at a place does not depend on what follows. -/
theorem readSetOp_append (cs t : List Char) : readSetOp (cs ++ ')' :: t) =
    (readSetOp cs).map fun x => (x.1, x.2 ++ ')' :: t) := by
  match cs with
  | [] => rfl
  | [c] => simp [readSetOp]
  | c :: d :: cs =>
    unfold readSetOp
    split <;> simp_all

/-- A class that is read with some fuel is read with more. -/
theorem readSet_mono {n m : Nat} (hle : n ≤ m) {cs : List Char} {items : List SetItem}
    {left : Option (SetOp × SetExpr)} {x : SetExpr × List Char}
    (h : readSet b n cs items left = some x) : readSet b m cs items left = some x := by
  induction n generalizing m cs items left x with
  | zero => cases h
  | succ n ih =>
    cases m with
    | zero => cases hle
    | succ m =>
      have hle : n ≤ m := Nat.le_of_succ_le_succ hle
      simp only [readSet] at h ⊢
      split at h
      · cases h
      · split at h
        · exact ih hle h
        · obtain ⟨⟨negated, first, r⟩, hopening, h⟩ := Option.bind_eq_some_iff.mp h
          obtain ⟨⟨inner, r'⟩, hinner, h⟩ := Option.bind_eq_some_iff.mp h
          rw [hopening]
          exact Option.bind_eq_some_iff.mpr ⟨_, rfl,
            Option.bind_eq_some_iff.mpr ⟨_, ih hle hinner, ih hle h⟩⟩
      · exact h
      · split at h
        · exact ih hle h
        · obtain ⟨⟨item, r⟩, hitem, h⟩ := Option.bind_eq_some_iff.mp h
          exact Option.bind_eq_some_iff.mpr ⟨_, hitem, ih hle h⟩

/-- A named class, or else something that stands in its place. -/
theorem framed_readAsciiClass_or {f : SetItem → List Char → Option (α × List Char)}
    {g : List Char → Option (α × List Char)} (hf : ∀ item, Framed p (f item))
    (hg : Framed p g) : Framed p fun cs => match readAsciiClass cs with
      | some (item, rest) => f item rest
      | none => g cs where
  nil := hg.nil
  keeps cs a r h := by
    unfold Keeps
    simp only [readAsciiClass_append]
    cases hclass : readAsciiClass cs with
    | none =>
      rw [hclass] at h
      exact hg.keeps cs a r h
    | some x =>
      rw [hclass] at h
      exact (hf x.1).keeps x.2 a r h

/-- An operation on sets, or else something that stands in its place. -/
theorem framed_readSetOp_or {f : SetOp → List Char → Option (α × List Char)}
    {g : List Char → Option (α × List Char)} (hf : ∀ op, Framed p (f op))
    (hg : Framed p g) : Framed p fun cs => match readSetOp cs with
      | some (op, rest) => f op rest
      | none => g cs where
  nil := hg.nil
  keeps cs a r h := by
    unfold Keeps
    simp only [readSetOp_append]
    cases hop : readSetOp cs with
    | none =>
      rw [hop] at h
      exact hg.keeps cs a r h
    | some x =>
      rw [hop] at h
      exact (hf x.1).keeps x.2 a r h

/-- Items of a class, up to its closing bracket, are read the same in front of a parenthesis. -/
theorem framed_readSet (n : Nat) (items : List SetItem) (left : Option (SetOp × SetExpr)) :
    FramedIn b fun cs => readSet b n cs items left := by
  induction n generalizing items left with
  | zero => exact .none
  | succ n ih =>
    refine framed_skip_uncons b ?g (fun cs h => ?_) (fun cs c rest h => ?_) fun c => ?_
    rotate_left
    · rw [readSet, h]
    · rw [readSet, h]
    · by_cases hopen : c = '['
      · subst hopen
        refine (framed_readAsciiClass_or (fun item => ih (item :: items) left) ?_).keeps
        exact framed_readSetOpening.bind₂ fun negated first =>
          (ih first.reverse none).bind fun inner => ih (.nested negated inner :: items) left
      · by_cases hclose : c = ']'
        · subst hclose
          exact (Framed.pure _).keeps
        · simp only [List.cons.injEq, hopen, hclose, false_and, imp_false, not_false_eq_true,
            implies_true]
          exact fun cs => (framed_readSetOp_or (fun op => ih [] _)
            (framed_readSetRange.bind fun item => ih (item :: items) left)).keeps (c :: cs)

/-- A class in brackets is read the same in front of a parenthesis. -/
theorem framed_readBracketed : FramedIn b (readBracketed b) := by
  refine Framed.length (f := fun n cs => readSetOpening b cs >>= fun x =>
    readSet b n x.2.2 x.2.1.reverse none >>= fun y => some (Written.bracketed x.1 y.1, y.2))
    (fun n => ?_) fun n m hle cs x h => ?_
  · refine framed_readSetOpening.bind₂ fun negated first => ?_
    dsimp only
    exact (framed_readSet n first.reverse none).bind fun set =>
      .pure (Written.bracketed negated set)
  · obtain ⟨opening, hopening, h⟩ := Option.bind_eq_some_iff.mp h
    obtain ⟨set, hset, h⟩ := Option.bind_eq_some_iff.mp h
    exact Option.bind_eq_some_iff.mpr ⟨_, hopening,
      Option.bind_eq_some_iff.mpr ⟨_, readSet_mono hle hset, h⟩⟩

end Sets

end Packrat.Regex
