import Packrat.Proofs.Except
import Packrat.Proofs.Regex.Branches
import Packrat.Proofs.Regex.Empty

/-!
# Sources put together

The source of a token is put together of the sources of its parts, so it is read part by part. Each
part is read apart from what follows it, as expressions that are told by the part alone: a literal
as its characters, a group as one expression, and a pattern under flags of its own as what it is
read as on its own.
-/

namespace Packrat.Regex

variable {n : Nat} {names : List (List Char)} {branches parts : List Written} {cs t : List Char}
  {out : Written × ReadMode × List Char}

section Marks

/-- Digits are read up to the first character that is none. -/
theorem digitsOf_digits {digits rest : List Char} {c : Char}
    (hdigits : ∀ d ∈ digits, d.isDigit = true) (hc : c.isDigit = false) (hn : digits.length < n) :
    readDecimal.digitsOf false n (digits ++ c :: rest) = (digits, c :: rest) := by
  induction digits generalizing n with
  | nil =>
    obtain ⟨n, rfl⟩ := Nat.exists_eq_succ_of_ne_zero (Nat.ne_of_gt hn)
    simp [readDecimal.digitsOf, hc]
  | cons d digits ih =>
    obtain ⟨n, rfl⟩ := Nat.exists_eq_succ_of_ne_zero (Nat.ne_of_gt (Nat.zero_lt_of_lt hn))
    obtain ⟨hd, hdigits⟩ := List.forall_mem_cons.mp hdigits
    have hrest := ih hdigits (Nat.lt_of_succ_lt_succ hn)
    simp only [List.cons_append, readDecimal.digitsOf, hd, if_true, skip, Bool.false_eq_true,
      if_false, hrest]

/-- A number is read as it is written. -/
theorem readDecimal_toDigits (k : UInt32) {c : Char} (rest : List Char) (hc : c.isDigit = false)
    (hblank : isBlank c = false) :
    readDecimal false (Nat.toDigits 10 k.toNat ++ c :: rest) = (some k.toNat, c :: rest) := by
  have hdigits : ∀ d ∈ Nat.toDigits 10 k.toNat, d.isDigit = true := fun d hd =>
    Nat.isDigit_of_mem_toDigits (by decide) (by decide) hd
  obtain ⟨d, ds, hcons⟩ := List.exists_cons_of_ne_nil (Nat.toDigits_ne_nil (n := k.toNat) (b := 10))
  have hstart : (Nat.toDigits 10 k.toNat ++ c :: rest).dropWhile isBlank =
      Nat.toDigits 10 k.toNat ++ c :: rest := by
    have hd : isBlank d = false := by
      have hdigit := hdigits d (by rw [hcons]; exact List.mem_cons_self)
      simp only [Char.isDigit, Bool.and_eq_true, decide_eq_true_eq] at hdigit
      have hlow := UInt32.le_iff_toNat_le.mp hdigit.1
      have hhigh := UInt32.le_iff_toNat_le.mp hdigit.2
      exact isBlank_eq_false (Nat.le_trans (by decide) hlow) (Nat.lt_of_le_of_lt hhigh (by decide))
    rw [hcons, List.cons_append, List.dropWhile_cons_of_neg (by simp [hd])]
  have hvalue := Nat.ofDigitChars_ten_toDigits (n := k.toNat)
  rw [Nat.ofDigitChars_eq_foldl] at hvalue
  have hsize : ¬ UInt32.size ≤ k.toNat := Nat.not_le.mpr k.toNat_lt
  unfold readDecimal
  have hread : readDecimal.digitsOf false ((Nat.toDigits 10 k.toNat ++ c :: rest).length + 1)
      (Nat.toDigits 10 k.toNat ++ c :: rest) = (Nat.toDigits 10 k.toNat, c :: rest) :=
    digitsOf_digits hdigits hc (by simp only [List.length_append]; omega)
  simp only [hstart, hread, hvalue]
  simp [hsize, hcons, hblank]

/-- The bounds of a repetition without a limit are read back. -/
theorem readBounds_atLeast (least : UInt32) (t : List Char) :
    readBounds false (Nat.toDigits 10 least.toNat ++ ',' :: '\x7d' :: t) =
      some ((least.toNat, none), t) := by
  have hcomma : isBlank ',' = false := isBlank_eq_false (by decide) (by decide)
  have hleast := readDecimal_toDigits least ('\x7d' :: t) (c := ',') (by decide) hcomma
  simp [readBounds, skip, hleast]

/-- The bounds of a repetition with a limit are read back, if the limit is not below the least
number; otherwise the source has no meaning. -/
theorem readBounds_between (least most : UInt32) (t : List Char) :
    readBounds false (Nat.toDigits 10 least.toNat ++ ',' :: Nat.toDigits 10 most.toNat ++
        '\x7d' :: t) =
      if least.toNat ≤ most.toNat then some ((least.toNat, some most.toNat), t) else none := by
  have hcomma : isBlank ',' = false := isBlank_eq_false (by decide) (by decide)
  have hbrace : isBlank '\x7d' = false := isBlank_eq_false (by decide) (by decide)
  have hleast := readDecimal_toDigits least (Nat.toDigits 10 most.toNat ++ '\x7d' :: t)
    (c := ',') (by decide) hcomma
  have hmost := readDecimal_toDigits most t (c := '\x7d') (by decide) hbrace
  obtain ⟨d, ds, hcons⟩ := List.exists_cons_of_ne_nil
    (Nat.toDigits_ne_nil (n := most.toNat) (b := 10))
  have hd : d ≠ '\x7d' := by
    rintro rfl
    have hdigit := Nat.isDigit_of_mem_toDigits (b := 10) (c := '\x7d') (n := most.toNat)
      (by decide) (by decide) (by rw [hcons]; exact List.mem_cons_self)
    cases hdigit
  rw [hcons] at hmost hleast ⊢
  simp only [List.append_assoc, List.cons_append] at hmost hleast ⊢
  simp [readBounds, skip, hleast, hmost, hd]

/-- What is read on behind the bounds of a repetition repeats the part in front of it. -/
theorem of_repeatLast {least : Nat} {most : Option Nat} {part : Written}
    (h : (repeatLast least most (part :: parts) >>= readBranches n ⟨false, names⟩ t branches) =
      some out) :
    readBranches n ⟨false, names⟩ t branches (.repetition part least most :: parts) = some out := by
  simp only [repeatLast] at h
  split at h
  · exact h
  · cases h

/-- A repetition is lazy only where a question mark follows. -/
theorem dropLazy_of_head? (ht : t.head? ≠ some '?') : dropLazy t = t := by
  cases t with
  | nil => rfl
  | cons c t =>
    have hc : c ≠ '?' := fun hc => ht (by rw [hc]; rfl)
    simp [dropLazy, hc]

/-- A mark of a repetition that is read has its bounds in order and repeats the part before it. -/
theorem of_readBranches_mark {min : UInt32} {max : Option UInt32} {part : Written}
    (ht : t.head? ≠ some '?')
    (h : readBranches (n + 1) ⟨false, names⟩ ((repetitionMark min max).toList ++ t) branches
      (part :: parts) = some out) :
    (∀ m ∈ max, min ≤ m) ∧ readBranches n ⟨false, names⟩ t branches
      (.repetition part min.toNat (max.map (·.toNat)) :: parts) = some out := by
  have hmarked {c : Char} (hc : c ≠ ')') {cs : List Char} :
      readBranches (n + 1) ⟨false, names⟩ (c :: cs) branches (part :: parts) =
        readMarked n ⟨false, names⟩ branches (part :: parts) c cs := readBranches_cons rfl hc
  have hlazy := dropLazy_of_head? ht
  have hbounds {bounds : Nat × Option Nat} {cs : List Char}
      (hread : readBounds false cs = some (bounds, t))
      (h : readBranches (n + 1) ⟨false, names⟩ ('\x7b' :: cs) branches (part :: parts) = some out) :
      readBranches n ⟨false, names⟩ t branches (.repetition part bounds.1 bounds.2 :: parts) =
        some out := by
    simp only [hmarked (c := '\x7b') (by decide), readMarked, hread, Option.bind_eq_bind,
      Option.bind_some, skip, Bool.false_eq_true, if_false, hlazy] at h
    exact of_repeatLast h
  cases max with
  | none =>
    refine ⟨by simp, ?_⟩
    simp only [repetitionMark] at h
    split at h
    · rename_i hzero
      subst hzero
      simp only [String.reduceToList, List.singleton_append, hmarked (c := '*') (by decide),
        readMarked, hlazy] at h
      exact of_repeatLast h
    · split at h
      · rename_i hone
        subst hone
        simp only [String.reduceToList, List.singleton_append, hmarked (c := '+') (by decide),
          readMarked, hlazy] at h
        exact of_repeatLast h
      · simp only [String.toList_append, String.reduceToList, List.append_assoc,
          List.cons_append, List.nil_append, Nat.toString_eq_repr, Nat.toList_repr] at h
        exact hbounds (readBounds_atLeast min t) h
  | some max =>
    simp only [repetitionMark] at h
    split at h
    · rename_i hbetween
      obtain ⟨rfl, rfl⟩ := hbetween
      simp only [String.reduceToList, List.singleton_append, hmarked (c := '?') (by decide),
        readMarked, hlazy] at h
      exact ⟨by simp, of_repeatLast h⟩
    · simp only [String.toList_append, String.reduceToList, List.append_assoc,
        List.cons_append, List.nil_append, Nat.toString_eq_repr, Nat.toList_repr] at h
      have hread := readBounds_between min max t
      simp only [List.append_assoc, List.cons_append] at hread
      split at hread
      · rename_i hle
        exact ⟨by simpa [UInt32.le_iff_toNat_le] using hle, hbounds hread h⟩
      · simp [hmarked (c := '\x7b') (by decide), readMarked, hread] at h

end Marks

/-- Whether parts that are read under the standard flags leave them as they are and mean these
expressions, if they mean any. -/
def MeanAs (rs : List Regex) (parts : List Written) : Prop :=
  ∀ rs' flags, meanings? .standard parts = some (rs', flags) → rs' = rs ∧ flags = .standard

/-- Whether characters are read apart from what follows them, as parts that mean these expressions,
and only where `p` holds. -/
def ReadsAs (p : Prop) (rs : List Regex) (cs : List Char) : Prop :=
  ∀ t, t.head? ≠ some '?' → ∀ n names branches parts out,
    readBranches n ⟨false, names⟩ (cs ++ t) branches parts = some out →
    p ∧ ∃ read m names', MeanAs rs read ∧
      readBranches m ⟨false, names'⟩ t branches (read.reverse ++ parts) = some out

section Parts

variable {p q : Prop} {rs rs₁ rs₂ : List Regex} {r : Regex} {as bs : List Written}
  {ds : List Char} {c : Char}

/-- No parts mean no expressions. -/
theorem MeanAs.nil : MeanAs [] [] := by
  rintro _ _ ⟨⟩
  exact ⟨rfl, rfl⟩

/-- Parts after parts mean expressions after expressions, as the flags stay what they are. -/
theorem MeanAs.append (ha : MeanAs rs₁ as) (hb : MeanAs rs₂ bs) :
    MeanAs (rs₁ ++ rs₂) (as ++ bs) := by
  intro rs flags hrs
  obtain ⟨xs, between, ys, hxs, hys, rfl⟩ := of_meanings?_append hrs
  obtain ⟨rfl, rfl⟩ := ha xs between hxs
  obtain ⟨rfl, rfl⟩ := hb ys flags hys
  exact ⟨rfl, rfl⟩

/-- A single part means a single expression and leaves the flags as they are. -/
theorem meanAs_singleton {part : Written} : MeanAs [r] [part] ↔
    ∀ r' flags, part.meaning? .standard = some (r', flags) → r' = r ∧ flags = .standard := by
  have hmeaning : ∀ rs flags, meanings? .standard [part] = some (rs, flags) ↔
      ∃ r, part.meaning? .standard = some (r, flags) ∧ [r] = rs := by
    intro rs flags
    simp only [meanings?]
    cases part.meaning? .standard with
    | none => simp
    | some x => simp [Prod.ext_iff, and_comm]
  constructor
  · intro h r' flags hr
    obtain ⟨heq, hflags⟩ := h [r'] flags ((hmeaning _ _).mpr ⟨r', hr, rfl⟩)
    exact ⟨List.singleton_inj.mp heq, hflags⟩
  · intro h rs flags hrs
    obtain ⟨r', hr, rfl⟩ := (hmeaning _ _).mp hrs
    obtain ⟨rfl, rfl⟩ := h r' flags hr
    exact ⟨rfl, rfl⟩

/-- A literal matches its character. -/
theorem meanAs_literal (c : Char) : MeanAs [.chars (.singleton c)] [.literal ⟨c, false⟩] := by
  refine meanAs_singleton.mpr fun r flags hr => ?_
  obtain ⟨r, hliteral, heq⟩ := Option.map_eq_some_iff.mp hr
  cases heq
  cases hliteral
  exact ⟨rfl, rfl⟩

/-- A repeated part means the expression repeated as often. -/
theorem MeanAs.repetition {part : Written} (least : Nat) (most : Option Nat)
    (h : MeanAs [r] [part]) :
    MeanAs [r.repeated least most] [.repetition part least most] := by
  refine meanAs_singleton.mpr fun r' flags hr => ?_
  obtain ⟨⟨body, flags'⟩, hbody, heq⟩ := Option.bind_eq_some_iff.mp hr
  cases heq
  obtain ⟨rfl, rfl⟩ := meanAs_singleton.mp h body flags hbody
  exact ⟨rfl, rfl⟩

/-- A group is read under the flags that are switched for it, and behind it they are as before. -/
theorem meanAs_group {items : List FlagItem} {inner : Written}
    (h : ∀ r' flags, inner.meaning? (Flags.standard.switch items) = some (r', flags) → r' = r) :
    MeanAs [r] [.group items inner] := by
  refine meanAs_singleton.mpr fun r' flags hr => ?_
  obtain ⟨⟨body, flags'⟩, hbody, heq⟩ := Option.bind_eq_some_iff.mp hr
  cases heq
  exact ⟨h r' flags' hbody, rfl⟩

/-- Parts in a group mean the sequence of their expressions. -/
theorem MeanAs.ofParts (h : MeanAs rs as) : MeanAs [sequence rs] [.ofParts as] := by
  refine meanAs_singleton.mpr fun r flags hr => ?_
  rw [meaning?_ofParts] at hr
  obtain ⟨⟨rs', flags'⟩, hrs, heq⟩ := Option.map_eq_some_iff.mp hr
  cases heq
  obtain ⟨rfl, rfl⟩ := h rs' _ hrs
  exact ⟨rfl, rfl⟩

/-- Branches in a group mean the choice between their expressions. -/
theorem MeanAs.ofBranches (h : MeanAs rs as) (hne : as ≠ []) :
    MeanAs [alternation rs] [.ofBranches as] := by
  refine meanAs_singleton.mpr fun r flags hr => ?_
  obtain ⟨rs', hrs, rfl⟩ := meaning?_ofBranches hne hr
  obtain ⟨rfl, rfl⟩ := h rs' flags hrs
  exact ⟨rfl, rfl⟩

/-- What is read only where something holds is read only where what follows from it holds. -/
theorem ReadsAs.mono (h : ReadsAs p rs cs) (himp : p → q) : ReadsAs q rs cs :=
  fun t ht n names branches parts out hout => (h t ht n names branches parts out hout).imp_left himp

/-- No characters are read as no expressions. -/
theorem ReadsAs.nil : ReadsAs True [] [] :=
  fun _ _ n names _ _ _ hout => ⟨trivial, [], n, names, .nil, hout⟩

/-- Characters that are read one after the other are read as expressions one after the other. -/
theorem ReadsAs.append (hc : ReadsAs p rs₁ cs) (hd : ReadsAs q rs₂ ds)
    (hhead : ds.head? ≠ some '?') : ReadsAs (p ∧ q) (rs₁ ++ rs₂) (cs ++ ds) := by
  intro t ht n names branches parts out hout
  rw [List.append_assoc] at hout
  have hnext : (ds ++ t).head? ≠ some '?' := by
    cases ds with
    | nil => exact ht
    | cons d ds => exact hhead
  obtain ⟨hp, as, m, names₁, has, hout⟩ := hc _ hnext n names branches parts out hout
  obtain ⟨hq, bs, k, names₂, hbs, hout⟩ := hd t ht m names₁ branches _ out hout
  refine ⟨⟨hp, hq⟩, as ++ bs, k, names₂, has.append hbs, ?_⟩
  rwa [List.reverse_append, List.append_assoc]

end Parts

section Literals

variable {c : Char}

/-- A character without a special meaning is read as the set of this character. -/
theorem ReadsAs.char (hc : regexSpecials.contains c = false) :
    ReadsAs True [.chars (.singleton c)] [c] := by
  intro t _ n names branches parts out hout
  cases n with
  | zero => cases hout
  | succ n =>
    have hne : c ≠ ')' := by
      rintro rfl
      exact absurd hc (by decide)
    refine ⟨trivial, [.literal ⟨c, false⟩], n, names, meanAs_literal c, ?_⟩
    rw [List.singleton_append, readBranches_cons rfl hne] at hout
    unfold readMarked at hout
    split at hout <;> first | exact absurd hc (by decide) | exact hout

/-- A special character behind a backslash is read as the set of this character. -/
theorem ReadsAs.escaped (hc : regexSpecials.contains c = true) :
    ReadsAs True [.chars (.singleton c)] ['\\', c] := by
  intro t _ n names branches parts out hout
  cases n with
  | zero => cases hout
  | succ n =>
    have hescape : readEscape false (c :: t) = some (.literal ⟨c, false⟩, t) := by
      have hescapable : isEscapable c = true := Bool.or_eq_true_iff.mpr (.inl hc)
      simp only [readEscape]
      split <;> first | exact absurd hc (by decide) | exact if_pos hescapable
    refine ⟨trivial, [.literal ⟨c, false⟩], n, names, meanAs_literal c, ?_⟩
    rw [List.cons_append, List.singleton_append,
      readBranches_cons rfl (show '\\' ≠ ')' by decide)] at hout
    simp only [readMarked, hescape, Option.bind_eq_bind, Option.bind_some] at hout
    exact hout

/-- The source of a literal is read as its characters. -/
theorem ReadsAs.literal (text : String) :
    ReadsAs True (text.toList.map fun c => .chars (.singleton c))
      (escapedForRegex text).toList := by
  obtain ⟨cs, rfl⟩ : ∃ cs, text = String.ofList cs := ⟨text.toList, by simp⟩
  simp only [escapedForRegex, String.toList_ofList]
  induction cs with
  | nil => exact .nil
  | cons c cs ih =>
    have hpiece : ReadsAs True [.chars (.singleton c)]
        (if regexSpecials.contains c then ['\\', c] else [c]) := by
      split
      · exact .escaped ‹_›
      · exact .char (Bool.eq_false_iff.mpr ‹_›)
    rw [List.flatMap_cons]
    refine (hpiece.append ih ?_).mono fun _ => trivial
    cases cs with
    | nil => exact nofun
    | cons d cs =>
      rw [List.flatMap_cons]
      split
      · simp
      · rename_i hd
        rintro h
        obtain rfl : d = '?' := Option.some.inj h
        exact hd (by decide)

end Literals

section Groups

variable {p : Prop} {r : Regex} {rs : List Regex} {source : String}

/-- Whether characters in a group are read up to its end, as an expression that means this one, and
only where `p` holds. -/
def EnclosedAs (p : Prop) (r : Regex) (cs : List Char) : Prop :=
  ∀ t n names out, readBranches n ⟨false, names⟩ (cs ++ ')' :: t) [] [] = some out →
    p ∧ ∃ inner names', MeanAs [r] [inner] ∧ out = (inner, ⟨false, names'⟩, ')' :: t)

section Alternatives

variable {α : Type} {P : α → Prop} {regexes : α → List Regex} {source : α → List Char} {x : α}
  {xs : List α}

/-- What is read of branches with bars between them, in front of a closing parenthesis. -/
theorem of_readBranches_alternatives
    (h : ∀ y ∈ x :: xs, ReadsAs (P y) (regexes y) (source y))
    (hout : readBranches n ⟨false, names⟩ (['|'].intercalate ((x :: xs).map source) ++ ')' :: t)
      branches [] = some out) :
    (∀ y ∈ x :: xs, P y) ∧ ∃ read names', read ≠ [] ∧
      MeanAs ((x :: xs).map fun y => sequence (regexes y)) read ∧
      out = (.ofBranches (branches.reverse ++ read), ⟨false, names'⟩, ')' :: t) := by
  induction xs generalizing x n names branches with
  | nil =>
    rw [List.map_singleton, List.intercalate_singleton] at hout
    obtain ⟨hp, read, m, names', hread, hout⟩ :=
      h x List.mem_cons_self _ (by simp) n names branches [] out hout
    cases m with
    | zero => cases hout
    | succ m =>
      rw [readBranches_close rfl] at hout
      cases hout
      exact ⟨by simpa using hp, [.ofParts read], names', by simp, hread.ofParts,
        by simp [readBranches.close]⟩
  | cons y xs ih =>
    obtain ⟨hx, hxs⟩ := List.forall_mem_cons.mp h
    have hsplit : ['|'].intercalate ((x :: y :: xs).map source) ++ ')' :: t =
        source x ++ '|' :: (['|'].intercalate ((y :: xs).map source) ++ ')' :: t) := by
      simp [List.intercalate]
    rw [hsplit] at hout
    obtain ⟨hp, read, m, names₁, hread, hout⟩ := hx _ (by simp) n names branches [] out hout
    cases m with
    | zero => cases hout
    | succ m =>
      rw [readBranches_cons (c := '|') rfl (by decide)] at hout
      obtain ⟨hps, later, names₂, hne, hlater, heq⟩ := ih hxs hout
      exact ⟨List.forall_mem_cons.mpr ⟨hp, hps⟩, .ofParts read :: later, names₂, by simp,
        hread.ofParts.append hlater, by simpa using heq⟩

/-- Alternatives with bars between them are read, in a group, as the choice of what each is read
as. -/
theorem EnclosedAs.alternatives (h : ∀ y ∈ xs, ReadsAs (P y) (regexes y) (source y))
    (hne : xs ≠ []) : EnclosedAs (∀ y ∈ xs, P y)
      (alternation (xs.map fun y => sequence (regexes y)))
      (['|'].intercalate (xs.map source)) := by
  intro t n names out hout
  obtain ⟨x, xs, rfl⟩ := List.exists_cons_of_ne_nil hne
  obtain ⟨hp, read, names', hne, hread, rfl⟩ := of_readBranches_alternatives h hout
  exact ⟨hp, _, names', hread.ofBranches hne, rfl⟩

end Alternatives

/-- What is read as some expressions is read, in a group, as their sequence. -/
theorem ReadsAs.enclosed (h : ReadsAs p rs cs) : EnclosedAs p (sequence rs) cs := by
  have hsingle : EnclosedAs (∀ _ ∈ [()], p) (alternation ([()].map fun _ => sequence rs))
      (['|'].intercalate ([()].map fun _ => cs)) :=
    .alternatives (fun _ _ => h) (by simp)
  simpa [alternation] using hsingle

/-- A group around characters is read apart from what follows it. -/
theorem EnclosedAs.of_readBranches (h : EnclosedAs p r source.toList)
    (hout : readBranches n ⟨false, names⟩ ((regexGroup source).toList ++ t) branches parts =
      some out) :
    p ∧ ∃ inner m names', MeanAs [r] [.group [] inner] ∧
      readBranches m ⟨false, names'⟩ t branches (.group [] inner :: parts) = some out := by
  have hchars : (regexGroup source).toList ++ t =
      '(' :: '?' :: ':' :: (source.toList ++ ')' :: t) := by
    simp [regexGroup]
  have hopening : ∀ x ∈ readOpening ('?' :: ':' :: (source.toList ++ ')' :: t)),
      x = (.group [], source.toList ++ ')' :: t) := by rintro _ ⟨⟩; rfl
  rw [hchars] at hout
  obtain ⟨m, inner, after, behind, hinner, hout⟩ := of_readBranches_group hopening rfl hout
  obtain ⟨hp, inner', names', hmeans, heq⟩ := h t m names _ hinner
  cases heq
  exact ⟨hp, inner, m, names', meanAs_group fun r' flags hr =>
    (meanAs_singleton.mp hmeans r' flags hr).1, hout⟩

/-- A group is read as one expression, whatever follows it. -/
theorem EnclosedAs.group (h : EnclosedAs p r source.toList) :
    ReadsAs p [r] (regexGroup source).toList := by
  intro t _ n names branches parts out hout
  obtain ⟨hp, inner, m, names', hmeans, hout⟩ := h.of_readBranches hout
  exact ⟨hp, [.group [] inner], m, names', hmeans, hout⟩

/-- A group with a repetition mark is read as the repeated expression, and only where the bounds are
in order. -/
theorem EnclosedAs.repetition {min : UInt32} {max : Option UInt32}
    (h : EnclosedAs p r source.toList) :
    ReadsAs ((∀ m ∈ max, min ≤ m) ∧ p) [r.repeated min.toNat (max.map (·.toNat))]
      (regexGroup source ++ repetitionMark min max).toList := by
  intro t ht n names branches parts out hout
  rw [String.toList_append, List.append_assoc] at hout
  obtain ⟨hp, inner, m, names', hmeans, hout⟩ := h.of_readBranches hout
  cases m with
  | zero => cases hout
  | succ m =>
    obtain ⟨hbounds, hout⟩ := of_readBranches_mark ht hout
    exact ⟨⟨hbounds, hp⟩, [.repetition (.group [] inner) min.toNat (max.map UInt32.toNat)], m,
      names', hmeans.repetition _ _, hout⟩

end Groups

/-- What an expression all of which is read apart denotes. -/
theorem ReadsAs.of_parse {source : String} {regex : Regex} {p : Prop} {rs : List Regex}
    (h : ReadsAs p rs source.toList) (hparse : Pattern.parse source none = .ok regex) :
    p ∧ regex = sequence rs := by
  obtain ⟨given, hgiven, hparse⟩ := Except.of_bind_ok hparse
  cases hgiven
  split at hparse
  case h_2 => cases hparse
  case h_1 hsome =>
  cases hparse
  obtain ⟨written, hwritten, hmeaning⟩ := Option.bind_eq_some_iff.mp hsome
  obtain ⟨⟨r, flags⟩, hr, rfl⟩ := Option.map_eq_some_iff.mp hmeaning
  obtain ⟨⟨w, mode, left⟩, hread, hwhole⟩ := Option.bind_eq_some_iff.mp hwritten
  rw [← List.append_nil source.toList] at hread
  obtain ⟨hp, read, m, names, hparts, hout⟩ := h [] nofun _ _ _ _ _ hread
  cases m with
  | zero => cases hout
  | succ m =>
    rw [readBranches_nil rfl] at hout
    cases hout
    have hof : Written.ofParts read = written := by
      simp only at hwhole
      split at hwhole
      · simpa [readBranches.close, Written.ofBranches] using hwhole
      · cases hwhole
    exact ⟨hp, (meanAs_singleton.mp hparts.ofParts r flags (hof ▸ hr)).1⟩

section Flags

variable {letters : List Char}

/-- The letters that are written before the source of a pattern. -/
def IsInline (letters : List Char) : Prop := ∀ c ∈ letters, c = 'i' ∨ c = 's' ∨ c = 'm'

/-- The flags that some letters stand for. -/
def flagItems (letters : List Char) : List FlagItem :=
  letters.filterMap fun c => (flag? c).map .flag

/-- Letters in front of a colon are read as the flags that they stand for. -/
theorem of_readFlags {seen : List FlagItem} {x : List FlagItem × List Char}
    (hletters : IsInline letters) (h : readFlags (letters ++ ':' :: cs) seen = some x) :
    x = (seen.reverse ++ flagItems letters, ':' :: cs) := by
  induction letters generalizing seen with
  | nil =>
    simp only [List.nil_append, readFlags, beq_self_eq_true, Bool.true_or, if_true] at h
    split at h
    · cases h
    · cases h
      simp [flagItems]
  | cons c letters ih =>
    obtain ⟨hc, hletters⟩ := List.forall_mem_cons.mp hletters
    obtain ⟨flag, hflag⟩ : ∃ flag, flag? c = some flag := by
      rcases hc with rfl | rfl | rfl <;> exact ⟨_, rfl⟩
    have hcolon : (c == ':' || c == ')') = false := by
      rcases hc with rfl | rfl | rfl <;> rfl
    have hdash : (c == '-') = false := by
      rcases hc with rfl | rfl | rfl <;> rfl
    simp only [List.cons_append, readFlags, hcolon, hdash, hflag, Bool.false_eq_true, if_false,
      Option.map_some, Option.bind_eq_bind, Option.bind_some] at h
    split at h
    · cases h
    · rw [ih hletters h]
      simp [flagItems, hflag]

/-- What flags open, by what stands behind them. -/
def openedBy (items : List FlagItem) : List Char → Option (Opening × List Char)
  | ')' :: rest => if items.isEmpty then none else some (.flags items, rest)
  | _ :: rest => some (.group items, rest)
  | [] => none

/-- A question mark, letters and a colon open a group with these flags. -/
theorem of_readOpening {x : Opening × List Char} (hletters : IsInline letters)
    (h : readOpening ('?' :: (letters ++ ':' :: cs)) = some x) :
    x = (.group (flagItems letters), cs) := by
  have hread : readOpening ('?' :: (letters ++ ':' :: cs)) =
      readFlags (letters ++ ':' :: cs) [] >>= fun y => openedBy y.1 y.2 := by
    cases letters with
    | nil => rfl
    | cons c letters =>
      rcases hletters c List.mem_cons_self with rfl | rfl | rfl <;> rfl
  rw [hread] at h
  obtain ⟨y, hy, h⟩ := Option.bind_eq_some_iff.mp h
  obtain rfl := of_readFlags hletters hy
  cases h
  rfl

/-- A flag is set by letters when one of them stands for it; otherwise they do not say. -/
theorem flagSetting?_flagItems {wanted : Flag} :
    flagSetting? wanted true (flagItems letters) =
      if letters.any (flag? · == some wanted) then some true else none := by
  unfold flagItems
  induction letters with
  | nil => rfl
  | cons c letters ih =>
    rw [List.filterMap_cons]
    cases hflag : flag? c with
    | none => simpa [hflag] using ih
    | some flag =>
      simp only [Option.map_some, flagSetting?]
      split
      · rename_i hwanted
        simp [hflag, hwanted]
      · rename_i hwanted
        simpa [hflag, hwanted] using ih

/-- A flag with a letter of its own is set just when this letter is there. -/
theorem getD_flagSetting? (wanted : Flag) (letter : Char) (hletters : IsInline letters)
    (hletter : ∀ c, c = 'i' ∨ c = 's' ∨ c = 'm' → (flag? c = some wanted ↔ letter = c)) :
    (flagSetting? wanted true (flagItems letters)).getD false = letters.contains letter := by
  have hany : letters.any (flag? · == some wanted) = letters.contains letter := by
    rw [List.contains_eq_any_beq, Bool.eq_iff_iff]
    simp only [List.any_eq_true, beq_iff_eq]
    exact exists_congr fun c => and_congr_right fun hc => hletter c (hletters c hc)
  rw [flagSetting?_flagItems, hany]
  split
  · exact ‹letters.contains letter = true›.symm
  · exact (Bool.eq_false_iff.mpr ‹_›).symm

/-- Letters say nothing about a flag for which none of them stands. -/
theorem flagSetting?_eq_none (wanted : Flag) (hletters : IsInline letters)
    (hnone : ∀ c, c = 'i' ∨ c = 's' ∨ c = 'm' → flag? c ≠ some wanted) :
    flagSetting? wanted true (flagItems letters) = none := by
  rw [flagSetting?_flagItems, if_neg]
  simpa using fun c hc => hnone c (hletters c hc)

/-- What the flags of a pattern switch. -/
theorem switch_flagItems (hletters : IsInline letters) : Flags.standard.switch (flagItems letters) =
    ⟨letters.contains 'i', letters.contains 'm', letters.contains 's', true, false⟩ := by
  have hcase := getD_flagSetting? .caseInsensitive 'i' hletters
    (by rintro c (rfl | rfl | rfl) <;> decide)
  have hline := getD_flagSetting? .multiLine 'm' hletters
    (by rintro c (rfl | rfl | rfl) <;> decide)
  have hdot := getD_flagSetting? .dotMatchesNewLine 's' hletters
    (by rintro c (rfl | rfl | rfl) <;> decide)
  have hunicode := flagSetting?_eq_none .unicode hletters
    (by rintro c (rfl | rfl | rfl) <;> decide)
  have hcrlf := flagSetting?_eq_none .crlf hletters
    (by rintro c (rfl | rfl | rfl) <;> decide)
  simp only [Flags.switch, Flags.standard, hcase, hline, hdot, hunicode, hcrlf, Option.getD_none]

/-- The flags of a pattern are those whose letters are given, Unicode being on and blanks being
text. -/
theorem flagsOf_eq {flags : Flags} (h : Pattern.flagsOf letters = .ok flags) :
    flags = ⟨letters.contains 'i', letters.contains 'm', letters.contains 's', true, false⟩ := by
  have hfold : flags = ⟨Flags.standard.caseInsensitive || letters.contains 'i',
      Flags.standard.multiLine || letters.contains 'm',
      Flags.standard.dotMatchesNewLine || letters.contains 's',
      Flags.standard.unicode, Flags.standard.crlf⟩ := by
    unfold Pattern.flagsOf at h
    generalize Flags.standard = start at h ⊢
    induction letters generalizing start with
    | nil =>
      cases h
      simp
    | cons c letters ih =>
      rw [List.foldlM_cons] at h
      split at h
      case h_7 => cases h
      all_goals
        rw [ih _ h]
        simp
  simpa [Flags.standard] using hfold

/-- A pattern that can stand in a group is read apart from what follows it, as it is read on its
own. -/
theorem ReadsAs.pattern {source : String} {flags : Option String} {regex : Regex}
    (hparse : Pattern.parse source flags = .ok regex) (hgroup : StandsInGroup source) :
    ReadsAs True [regex] (regexWithFlags source flags).toList := by
  obtain ⟨given, hgiven, hparse⟩ := Except.of_bind_ok hparse
  split at hparse
  case h_2 => cases hparse
  case h_1 hsome =>
  cases hparse
  obtain ⟨written, hwritten, hmeaning⟩ := Option.bind_eq_some_iff.mp hsome
  obtain ⟨letters, hletters⟩ : ∃ letters, letters =
      (flags.getD "").toList.filter fun c => c == 'i' || c == 's' || c == 'm' := ⟨_, rfl⟩
  have hinline : IsInline letters := by
    intro c hc
    rw [hletters] at hc
    simpa [or_assoc] using (List.mem_filter.mp hc).2
  -- letters that are left out before the source switch nothing
  have hswitch : Flags.standard.switch (flagItems letters) = given := by
    rw [switch_flagItems hinline, flagsOf_eq hgiven, hletters]
    simp [List.contains_eq_mem]
  intro t _ n names branches parts out hout
  have hchars : (regexWithFlags source flags).toList ++ t =
      '(' :: '?' :: (letters ++ ':' :: (source.toList ++ ')' :: t)) := by
    simp [regexWithFlags, hletters]
  rw [hchars] at hout
  obtain ⟨m, inner, after, behind, hinner, hout⟩ :=
    of_readBranches_group (fun x hx => of_readOpening hinline hx)
      (flagSetting?_eq_none _ hinline (by rintro c (rfl | rfl | rfl) <;> decide)) hout
  obtain ⟨k, mode, halone⟩ := hgroup written hwritten t
  obtain ⟨rfl, hbehind⟩ := agree_readBranches _ _ _ _ _ _ _ _ _ _ hinner halone
  cases hbehind
  refine ⟨trivial, [.group (flagItems letters) _], m, after.names,
    meanAs_group fun r flags' hr => ?_, hout⟩
  rw [hswitch] at hr
  rw [Written.toRegex?, hr] at hmeaning
  exact Option.some.inj hmeaning

end Flags

end Packrat.Regex
