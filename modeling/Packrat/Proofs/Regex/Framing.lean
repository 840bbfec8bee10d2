import Mathlib.Data.List.TakeWhile
import Packrat.Proofs.Unicode.CharSet

/-!
# Readers and what follows

What a reader reads of some characters does not depend on what follows them: with a closing
parenthesis and more behind the characters it reads the same and leaves the parenthesis. The only
exception is a comment that nothing ends, which takes the parenthesis with it; there are comments in
the mode that ignores blanks only.
-/

namespace Packrat.Regex

variable {α β : Type} {b : Bool} {p : α → Prop} {q : β → Prop}

/-- Whether a reader does the same with some characters when a closing parenthesis and more follow
them, unless a comment at the end takes the parenthesis. What is read with a comment is among `p`.
-/
def Keeps (p : α → Prop) (f : List Char → Option (α × List Char)) (cs : List Char) (a : α)
    (r : List Char) : Prop :=
  (∀ t, f (cs ++ ')' :: t) = some (a, r ++ ')' :: t)) ∨
    p a ∧ r = [] ∧ f (cs ++ [')']) = some (a, [])

/-- Whether a reader does so with all characters of which it reads something. -/
structure Framed (p : α → Prop) (f : List Char → Option (α × List Char)) : Prop where
  nil : ∀ a r, f [] = some (a, r) → r = []
  keeps : ∀ cs a r, f cs = some (a, r) → Keeps p f cs a r

/-- Whether a reader in a mode does so: there are comments only where blanks are ignored. -/
abbrev FramedIn (b : Bool) (f : List Char → Option (α × List Char)) : Prop :=
  Framed (fun _ => b = true) f

namespace Framed

variable {f : List Char → Option (α × List Char)} {k : α × List Char → Option (β × List Char)}

/-- A reader that reads nothing and makes something reads the same before a parenthesis. -/
theorem pure (a : α) : Framed p fun cs => some (a, cs) where
  nil := by rintro _ _ ⟨⟩; rfl
  keeps := by rintro cs _ _ ⟨⟩; exact .inl fun t => rfl

/-- A reader that reads nothing at all has nothing to keep to. -/
theorem none : Framed p fun _ => (.none : Option (α × List Char)) where
  nil := by rintro _ _ ⟨⟩
  keeps := by rintro _ _ _ ⟨⟩

/-- What is read tells how it may have been read. -/
theorem mono {p' : α → Prop} (hf : Framed p f)
    (hp : ∀ cs a r, f cs = some (a, r) → p a → p' a) : Framed p' f where
  nil := hf.nil
  keeps cs a r h := (hf.keeps cs a r h).imp_right (And.imp_left (hp cs a r h))

/-- One reader after another. -/
theorem bind (hf : Framed p f) (hk : ∀ a, Framed q fun r => k (a, r))
    (hpq : ∀ a b r, p a → k (a, []) = some (b, r) → q b) : Framed q fun cs => f cs >>= k where
  nil b r h := by
    obtain ⟨⟨a, s⟩, ha, hb⟩ := Option.bind_eq_some_iff.mp h
    obtain rfl := hf.nil a s ha
    exact (hk a).nil b r hb
  keeps cs b r h := by
    obtain ⟨⟨a, s⟩, ha, hb⟩ := Option.bind_eq_some_iff.mp h
    rcases hf.keeps cs a s ha with hopen | ⟨hp, rfl, htaken⟩
    · rcases (hk a).keeps s b r hb with hopen' | ⟨hq, rfl, htaken'⟩
      · exact .inl fun t => Option.bind_eq_some_iff.mpr ⟨_, hopen t, hopen' t⟩
      · exact .inr ⟨hq, rfl, Option.bind_eq_some_iff.mpr ⟨_, hopen [], htaken'⟩⟩
    · -- behind a comment that takes the parenthesis there is nothing left to read
      obtain rfl := (hk a).nil b r hb
      exact .inr ⟨hpq a b _ hp hb, rfl, Option.bind_eq_some_iff.mpr ⟨_, htaken, hb⟩⟩

/-- A reader of at least one character. -/
theorem uncons (hnil : f [] = .none)
    (hcons : ∀ c cs a r, f (c :: cs) = some (a, r) → Keeps p (fun cs => f (c :: cs)) cs a r) :
    Framed p f where
  nil a r h := by rw [hnil] at h; cases h
  keeps cs a r h := by
    cases cs with
    | nil => rw [hnil] at h; cases h
    | cons c cs => exact hcons c cs a r h

/-- A value that does not depend on what is read, if there is one. -/
theorem lift {γ : Type} (o : Option γ) {k : γ → List Char → Option (α × List Char)}
    (hk : ∀ c, Framed p (k c)) : Framed p fun cs => o >>= fun c => k c cs := by
  cases o with
  | none => exact .none
  | some c => exact hk c

/-- A reader that is used under a condition reads the same before a parenthesis. -/
theorem guard {test : Prop} [Decidable test] (hf : Framed p f) :
    Framed p fun cs => if test then f cs else .none := by
  split
  · exact hf
  · exact .none

end Framed

/-- One reader after another in the same mode. -/
theorem FramedIn.bind {f : List Char → Option (α × List Char)}
    {k : α × List Char → Option (β × List Char)} (hf : FramedIn b f)
    (hk : ∀ a, FramedIn b fun r => k (a, r)) : FramedIn b fun cs => f cs >>= k :=
  Framed.bind hf hk fun _ _ _ h _ => h

section Skipping

/-- Blanks in front of something else are dropped the same when more follows. -/
theorem dropBlanks_append {inComment : Bool} {cs t : List Char}
    (h : dropBlanks inComment cs ≠ []) :
    dropBlanks inComment (cs ++ t) = dropBlanks inComment cs ++ t := by
  induction cs generalizing inComment with
  | nil => cases inComment <;> simp [dropBlanks] at h
  | cons c cs ih =>
    cases inComment with
    | true => exact ih h
    | false =>
      rw [dropBlanks] at h ⊢
      rw [List.cons_append, dropBlanks]
      split
      · rename_i hblank
        rw [if_pos hblank] at h
        exact ih h
      · rename_i hblank
        rw [if_neg hblank] at h
        split
        · rename_i hsign
          rw [if_pos hsign] at h
          exact ih h
        · rfl

/-- Blanks in front of something else are passed the same when more follows. -/
theorem skip_append {cs t : List Char} (h : skip b cs ≠ []) :
    skip b (cs ++ t) = skip b cs ++ t := by
  cases b with
  | false => rfl
  | true => exact dropBlanks_append h

/-- Blanks at the end leave a parenthesis behind them, unless they end in a comment, which takes
it. -/
theorem dropBlanks_close {inComment : Bool} {cs : List Char} (h : dropBlanks inComment cs = []) :
    (∀ t, dropBlanks inComment (cs ++ ')' :: t) = ')' :: t) ∨
      dropBlanks inComment (cs ++ [')']) = [] := by
  induction cs generalizing inComment with
  | nil =>
    cases inComment with
    | true => exact .inr rfl
    | false =>
      have hblank : isBlank ')' = false := isBlank_eq_false (by decide) (by decide)
      exact .inl fun t => by simp [dropBlanks, hblank]
  | cons c cs ih =>
    cases inComment with
    | true => exact ih h
    | false =>
      simp only [dropBlanks, List.cons_append] at h ⊢
      split at h
      · rename_i hblank
        simp only [if_pos hblank]
        exact ih h
      · rename_i hblank
        split at h
        · rename_i hsign
          simp only [if_neg hblank, if_pos hsign]
          exact ih h
        · cases h

/-- Blanks and comments are skipped up to the parenthesis, or a comment takes it. -/
theorem framed_skip : FramedIn b fun cs => some ((), skip b cs) where
  nil := by
    rintro _ _ ⟨⟩
    cases b <;> rfl
  keeps := by
    rintro cs _ _ ⟨⟩
    by_cases hnil : Regex.skip b cs = []
    · cases b with
      | false =>
        obtain rfl : cs = [] := hnil
        exact .inl fun t => rfl
      | true =>
        rw [hnil]
        exact (dropBlanks_close hnil).imp (fun h t => congrArg (fun r => some ((), r)) (h t))
          fun h => ⟨rfl, rfl, congrArg (fun r => some ((), r)) h⟩
    · exact .inl fun t => congrArg (fun r => some ((), r)) (skip_append hnil)

/-- A reader may pass blanks first, where what is read with a comment is allowed for. -/
theorem Framed.skip {f : List Char → Option (α × List Char)} (hf : Framed p f)
    (hb : ∀ a, b = true → p a) : Framed p fun cs => f (skip b cs) :=
  Framed.bind framed_skip (k := fun x => f x.2) (fun _ => hf) fun _ a _ h _ => hb a h

/-- A reader in a mode may pass blanks first, as there are comments only where blanks are
ignored. -/
theorem FramedIn.skip {f : List Char → Option (α × List Char)} (hf : FramedIn b f) :
    FramedIn b fun cs => f (Regex.skip b cs) :=
  Framed.skip hf fun _ => id

/-- No characters are added when blanks are dropped. -/
theorem length_dropBlanks_le (inComment : Bool) (cs : List Char) :
    (dropBlanks inComment cs).length ≤ cs.length := by
  induction cs generalizing inComment with
  | nil => cases inComment <;> simp [dropBlanks]
  | cons c cs ih =>
    cases inComment with
    | true => exact Nat.le_succ_of_le (ih _)
    | false =>
      rw [dropBlanks]
      split
      · exact Nat.le_succ_of_le (ih _)
      · split
        · exact Nat.le_succ_of_le (ih _)
        · exact Nat.le_refl _

/-- No characters are added when blanks are passed. -/
theorem length_skip_le (cs : List Char) : (skip b cs).length ≤ cs.length := by
  unfold skip
  split
  · exact length_dropBlanks_le _ _
  · exact Nat.le_refl _

/-- The characters at the front that pass a test, and what stands behind them. Blanks and comments
may stand behind each of them. -/
def readWhile (b : Bool) (p : Char → Bool) : Nat → List Char → List Char × List Char
  | n + 1, c :: cs =>
    if p c then
      let (passed, rest) := readWhile b p n (Regex.skip b cs)
      (c :: passed, rest)
    else ([], c :: cs)
  | _, cs => ([], cs)

/-- Without fuel, nothing is read. -/
theorem readWhile_zero (p : Char → Bool) (cs : List Char) : readWhile b p 0 cs = ([], cs) := by
  cases cs <;> rfl

/-- If something stands behind them, they do not depend on what follows. More levels than there are
characters change nothing. -/
theorem readWhile_append {p : Char → Bool} {n m : Nat} {cs t : List Char} (hn : cs.length ≤ n)
    (hm : (cs ++ t).length ≤ m) (h : (readWhile b p n cs).2 ≠ []) :
    readWhile b p m (cs ++ t) = ((readWhile b p n cs).1, (readWhile b p n cs).2 ++ t) := by
  induction n generalizing m cs with
  | zero =>
    obtain rfl := List.length_eq_zero_iff.mp (Nat.le_zero.mp hn)
    exact absurd rfl h
  | succ n ih =>
    cases cs with
    | nil => exact absurd rfl h
    | cons c cs =>
      cases m with
      | zero => simp at hm
      | succ m =>
        rw [List.cons_append, readWhile, readWhile]
        rw [readWhile] at h
        split
        · rename_i hpass
          rw [if_pos hpass] at h
          have hskip : skip b cs ≠ [] := fun hnil => by
            rw [hnil] at h
            cases n <;> exact h rfl
          have hlen := length_skip_le (b := b) cs
          simp only [List.length_cons] at hn
          simp only [List.length_append, List.length_cons] at hm
          rw [skip_append hskip, ih (by omega) (by rw [List.length_append]; omega) h]
        · rfl

end Skipping

/-- A reader of a first character and what stands behind it, with its answer where nothing does. -/
def onFirst (ending : Option (α × List Char)) (g : Char → List Char → Option (α × List Char)) :
    List Char → Option (α × List Char)
  | [] => ending
  | c :: rest => g c rest

/-- A reader that looks at the first character that counts. -/
theorem eq_onFirst_skip {f : List Char → Option (α × List Char)} {ending : Option (α × List Char)}
    {g : Char → List Char → Option (α × List Char)} (hnil : ∀ cs, skip b cs = [] → f cs = ending)
    (hcons : ∀ cs c rest, skip b cs = c :: rest → f cs = g c rest) :
    f = fun cs => onFirst ending g (skip b cs) := by
  funext cs
  cases h : skip b cs with
  | nil => exact hnil cs h
  | cons c rest => exact hcons cs c rest h

/-- A reader that needs a character that counts. -/
theorem framed_skip_uncons (b : Bool) {f : List Char → Option (α × List Char)}
    (g : Char → List Char → Option (α × List Char)) (hnil : ∀ cs, skip b cs = [] → f cs = .none)
    (hcons : ∀ cs c rest, skip b cs = c :: rest → f cs = g c rest)
    (hg : ∀ c cs a r, g c cs = some (a, r) → Keeps (fun _ => b = true) (g c) cs a r) :
    FramedIn b f := by
  have hfirst : FramedIn b (onFirst .none g) := .uncons rfl hg
  rw [eq_onFirst_skip hnil hcons]
  exact hfirst.skip

/-- Readers that take as many levels as there are characters, if more of them change nothing. -/
theorem Framed.length {f : Nat → List Char → Option (α × List Char)} (hf : ∀ n, Framed p (f n))
    (hmono : ∀ n m, n ≤ m → ∀ cs x, f n cs = some x → f m cs = some x) :
    Framed p fun cs => f (cs.length + 1) cs where
  nil := (hf _).nil
  keeps cs a r h := ((hf _).keeps cs a r h).imp
    (fun hopen t => hmono _ _ (by simp) _ _ (hopen t))
    (And.imp_right (And.imp_right fun htaken => hmono _ _ (by simp) _ _ htaken))

/-- The mark of a lazy repetition, if it stands there. -/
theorem framed_dropLazy {f : List Char → Option (α × List Char)} (hf : Framed p f) :
    Framed p fun cs => f (dropLazy cs) := by
  have hdrop : Framed (fun _ => False) fun cs => some ((), dropLazy cs) := by
    refine ⟨by rintro _ _ ⟨⟩; rfl, ?_⟩
    rintro cs _ _ ⟨⟩
    refine .inl fun t => ?_
    cases cs with
    | nil => rfl
    | cons c cs =>
      by_cases hc : c = '?'
      · subst hc
        rfl
      · simp [dropLazy, hc]
  exact hdrop.bind (k := fun x => f x.2) (fun _ => hf) fun _ _ _ h _ => h.elim

/-- A reader with two of the values that it hands on put in one. -/
def paired (f : List Char → Option (α × β × List Char)) (cs : List Char) :
    Option ((α × β) × List Char) :=
  (f cs).map fun x => ((x.1, x.2.1), x.2.2)

section Pairs

variable {γ δ : Type} {p' : α × β → Prop} {q' : γ → Prop}

/-- One reader after another that hands on two values. -/
theorem Framed.bind₂ {f : List Char → Option (α × β × List Char)}
    {k : α × β × List Char → Option (γ × List Char)} (hf : Framed p' (paired f))
    (hk : ∀ x y, Framed q' fun r => k (x, y, r))
    (hpq : ∀ x y c r, p' (x, y) → k (x, y, []) = some (c, r) → q' c) :
    Framed q' fun cs => f cs >>= k := by
  have heq : (fun cs => f cs >>= k) = fun cs => paired f cs >>= fun x => k (x.1.1, x.1.2, x.2) := by
    funext cs
    cases h : f cs <;> simp [paired, h]
  rw [heq]
  exact hf.bind (fun x => hk x.1 x.2) fun x => hpq x.1 x.2

/-- One reader after another that hands on two values, both in a mode. -/
theorem FramedIn.bind₂ {f : List Char → Option (α × β × List Char)}
    {k : α × β × List Char → Option (γ × List Char)} (hf : FramedIn b (paired f))
    (hk : ∀ x y, FramedIn b fun r => k (x, y, r)) : FramedIn b fun cs => f cs >>= k :=
  Framed.bind₂ hf hk fun _ _ _ _ h _ => h

/-- A pair is made at the end of what is read, whatever was read first. -/
theorem paired_bind_eq {f : List Char → Option γ} {k : γ → Option (α × β × List Char)} :
    (paired fun cs => f cs >>= k) =
      fun cs => f cs >>= fun x => (k x).map fun y => ((y.1, y.2.1), y.2.2) :=
  funext fun cs => by cases h : f cs <;> simp [paired, h]

namespace Framed

/-- A reader that makes two values may come after another one. -/
theorem paired_bind {f : List Char → Option (γ × List Char)}
    {k : γ × List Char → Option (α × β × List Char)} (hf : Framed q' f)
    (hk : ∀ a, Framed p' (paired fun r => k (a, r)))
    (hpq : ∀ c x r, q' c → paired (fun r => k (c, r)) [] = some (x, r) → p' x) :
    Framed p' (paired fun cs => f cs >>= k) := by
  rw [paired_bind_eq]
  exact hf.bind hk hpq

/-- A reader that makes two values may come after another such one. -/
theorem paired_bind₂ {f : List Char → Option (γ × δ × List Char)}
    {k : γ × δ × List Char → Option (α × β × List Char)} {p'' : γ × δ → Prop}
    (hf : Framed p'' (paired f)) (hk : ∀ x y, Framed p' (paired fun r => k (x, y, r)))
    (hpq : ∀ x y z r, p'' (x, y) → paired (fun r => k (x, y, r)) [] = some (z, r) → p' z) :
    Framed p' (paired fun cs => f cs >>= k) := by
  rw [paired_bind_eq]
  exact hf.bind₂ hk hpq

/-- A reader that makes two values may go on from a value that is there without reading. -/
theorem paired_lift (o : Option γ) {k : γ → List Char → Option (α × β × List Char)}
    (hk : ∀ c, Framed p' (paired (k c))) :
    Framed p' (paired fun cs => o >>= fun c => k c cs) := by
  cases o with
  | none => exact .none
  | some c => exact hk c

/-- A reader that makes two values may be used under a condition. -/
theorem paired_guard {test : Prop} [Decidable test] {f : List Char → Option (α × β × List Char)}
    (hf : Framed p' (paired f)) :
    Framed p' (paired fun cs => if test then .none else f cs) := by
  split
  · exact .none
  · exact hf

/-- What stands behind a closing parenthesis. -/
theorem paired_close {f : List Char → Option (α × β × List Char)} (hf : Framed p' (paired f)) :
    Framed p' (paired fun cs => match cs with
      | ')' :: rest => f rest
      | _ => .none) := by
  refine .uncons rfl fun c => Framed.keeps ?_
  by_cases hc : c = ')'
  · subst hc
    exact hf
  · simp only [paired, List.cons.injEq, hc, false_and, imp_false, not_false_eq_true, implies_true]
    exact .none

end Framed

end Pairs

/-- A reader that leaves a closing parenthesis and the end, and looks at the first other character
that counts. -/
theorem framed_skip_close (b : Bool) {f : List Char → Option (α × List Char)} (a : α)
    (g : Char → List Char → Option (α × List Char))
    (hnil : ∀ cs, skip b cs = [] → f cs = some (a, []))
    (hclose : ∀ cs rest, skip b cs = ')' :: rest → f cs = some (a, ')' :: rest))
    (hcons : ∀ cs c rest, skip b cs = c :: rest → c ≠ ')' → f cs = g c rest)
    (hb : ∀ a, b = true → p a) (hg : ∀ c, Framed p (g c)) : Framed p f := by
  have hfirst : Framed p (onFirst (some (a, []))
      fun c rest => if c = ')' then some (a, c :: rest) else g c rest) := by
    refine ⟨by rintro _ _ ⟨⟩; rfl, fun cs a' r h => ?_⟩
    cases cs with
    | nil =>
      cases h
      exact .inl fun t => by simp [onFirst]
    | cons c cs =>
      by_cases hc : c = ')'
      · subst hc
        simp only [onFirst, if_true, Option.some.injEq, Prod.mk.injEq] at h
        obtain ⟨rfl, rfl⟩ := h
        exact .inl fun t => by simp [onFirst]
      · simp only [onFirst, if_neg hc] at h
        have hkeeps := (hg c).keeps cs a' r h
        simpa only [Keeps, onFirst, List.cons_append, if_neg hc] using hkeeps
  rw [eq_onFirst_skip hnil fun cs c rest h => ?_]
  · exact hfirst.skip hb
  · by_cases hc : c = ')'
    · subst hc
      simpa using hclose cs rest h
    · simpa [hc] using hcons cs c rest h hc

end Packrat.Regex
