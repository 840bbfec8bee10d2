import Mathlib
import Packrat.Proofs.Json.Writing

/-!
# Reading scalars

A string, a number or a word is read back from any of its texts in front of whatever may stand
behind a value, and where it is skipped its text is passed.
-/

namespace Packrat

namespace Json

variable {b cs rest : List Char} {c : Char}

/-- A blank is a space, a line feed, a tab or a carriage return. -/
theorem isBlank_iff : isBlank c = true ↔ c ∈ [' ', '\n', '\t', '\r'] := by
  simp [isBlank, or_assoc]

/-- Blanks in front of a text are passed. -/
theorem skipBlanks_append (h : Blank b) : skipBlanks (b ++ cs) = skipBlanks cs := by
  rw [skipBlanks, List.dropWhile_append_of_pos fun c hc => isBlank_iff.mpr (h c hc)]
  rfl

/-- No more is passed than blanks. -/
theorem skipBlanks_cons (h : isBlank c = false) : skipBlanks (c :: cs) = c :: cs := by
  rw [skipBlanks, List.dropWhile_cons_of_neg]
  simp [h]

/-! ### Strings -/

/-- A hexadecimal digit is read as its number, in lower and in upper case. -/
theorem hexValue?_of_hexDigit {n : Nat} (h : HexDigit n c) : hexValue? c = some n := by
  rcases h with h | h <;>
  · obtain ⟨hn, rfl⟩ := List.getElem?_eq_some_iff.mp h
    revert n
    decide

/-- The four digits of a UTF-16 code unit are read back as its number. -/
theorem readUnit_of_writes {n : Nat} {digits : List Char} (h : WritesUnit n digits) :
    readUnit (digits ++ rest) = .ok (n, rest) := by
  obtain ⟨ha, hb, hc, hd⟩ := h
  simp only [List.cons_append, List.nil_append, readUnit, hexValue?_of_hexDigit ha,
    hexValue?_of_hexDigit hb, hexValue?_of_hexDigit hc, hexValue?_of_hexDigit hd]

/-- A letter behind a backslash is read back as the character that it stands for, and it is not the
letter in front of a number. -/
theorem simpleEscape?_of_mem {l : Char} (h : (l, c) ∈ escapes) :
    simpleEscape? l = some c ∧ l ≠ 'u' := by
  simp only [escapes, List.mem_cons, Prod.mk.injEq, List.not_mem_nil, or_false] at h
  rcases h with ⟨rfl, rfl⟩ | ⟨rfl, rfl⟩ | ⟨rfl, rfl⟩ | ⟨rfl, rfl⟩ | ⟨rfl, rfl⟩ | ⟨rfl, rfl⟩ |
    ⟨rfl, rfl⟩ | ⟨rfl, rfl⟩ <;> exact ⟨rfl, by decide⟩

/-- A character is no surrogate. -/
theorem not_surrogate (c : Char) : c.toNat < 0xD800 ∨ 0xDFFF < c.toNat := by
  have := c.valid
  simp only [UInt32.isValidChar, Nat.isValidChar] at this
  change c.val.toNat < _ ∨ _ < c.val.toNat
  omega

/-- The number of a character, being none of a surrogate, is read as the character. -/
theorem readSurrogate_of_unit : readSurrogate c.toNat cs = .ok (c, cs) := by
  have hnone := not_surrogate c
  unfold readSurrogate
  rw [if_neg (by omega), if_pos (by omega), Char.ofNat_toNat]

/-- A high surrogate and the low one behind it are read as the character that they stand for. -/
theorem readSurrogate_of_pair {high low : Nat} {digits : List Char} (hhigh : high < 0x400)
    (hlow : low < 0x400) (hc : c.toNat = 0x10000 + high * 0x400 + low)
    (hdigits : WritesUnit (0xDC00 + low) digits) :
    readSurrogate (0xD800 + high) ('\\' :: 'u' :: (digits ++ rest)) = .ok (c, rest) := by
  have hchar : (0xD800 + high - 0xD800) * 0x400 + (0xDC00 + low - 0xDC00) + 0x10000 = c.toNat := by
    omega
  rw [readSurrogate, if_neg (by omega), if_neg (by omega)]
  simp only [readUnit_of_writes hdigits, bind, Except.bind]
  rw [if_pos (by omega), hchar, Char.ofNat_toNat]
  rfl

variable {strict : Bool} {fuel : Nat}

/-- A character that needs no backslash is read as itself. -/
theorem readStringFrom_plain (hlow : 0x20 ≤ c.toNat) (hquote : c ≠ '"') (hback : c ≠ '\\') :
    readStringFrom strict (fuel + 1) (c :: cs) = (do
      let (text, cs) ← readStringFrom strict fuel cs
      return (c :: text, cs)) := by
  simp only [readStringFrom, beq_iff_eq, if_neg hquote, if_neg hback, if_neg (Nat.not_lt.mpr hlow)]

/-- A backslash and a letter are read as the character that the letter stands for. -/
theorem readStringFrom_letter {l : Char} (h : (l, c) ∈ escapes) :
    readStringFrom strict (fuel + 1) ('\\' :: l :: cs) = (do
      let (text, cs) ← readStringFrom strict fuel cs
      return (c :: text, cs)) := by
  obtain ⟨hescape, hu⟩ := simpleEscape?_of_mem h
  simp [readStringFrom, hescape]

/-- A backslash and a number are read as one character, with the second surrogate if the number is a
first one. Where strings are skipped, surrogates need not be paired. -/
theorem readStringFrom_unit {unit : Nat} {digits : List Char} (h : WritesUnit unit digits) :
    readStringFrom strict (fuel + 1) ('\\' :: 'u' :: (digits ++ cs)) = (do
      let (c, cs) ← if strict then readSurrogate unit cs else .ok ('u', cs)
      let (text, cs) ← readStringFrom strict fuel cs
      return (c :: text, cs)) := by
  simp only [readStringFrom, readUnit_of_writes h]
  rfl

/-- A character of a string is read from any text of it. Where escapes by number stand for nothing,
something is read from it. -/
theorem readStringFrom_char (strict : Bool) {w : List Char} (h : WritesChar c w) :
    ∃ front, front.length ≤ w.length ∧ (strict = true → front = [c]) ∧ ∀ fuel cs,
      readStringFrom strict (fuel + front.length) (w ++ cs) = (do
        let (text, cs) ← readStringFrom strict fuel cs
        return (front ++ text, cs)) := by
  cases h with
  | plain hlow hquote hback =>
    exact ⟨[c], Nat.le_refl _, fun _ => rfl, fun fuel cs => readStringFrom_plain hlow hquote hback⟩
  | letter hl =>
    exact ⟨[c], Nat.le_succ _, fun _ => rfl, fun fuel cs => readStringFrom_letter hl⟩
  | @unit _ digits hdigits =>
    cases strict with
    | true =>
      refine ⟨[c], by simp, fun _ => rfl, fun fuel cs => ?_⟩
      simp only [List.cons_append, List.length_singleton, readStringFrom_unit hdigits, if_true,
        readSurrogate_of_unit]
      rfl
    | false =>
      refine ⟨['u'], by simp, Bool.false_ne_true.elim, fun fuel cs => ?_⟩
      simp only [List.cons_append, List.length_singleton, readStringFrom_unit hdigits]
      rfl
  | @pair _ high low digits digits' hhigh hlow hc hdigits hdigits' =>
    cases strict with
    | true =>
      refine ⟨[c], by simp, fun _ => rfl, fun fuel cs => ?_⟩
      simp only [List.cons_append, List.append_assoc, List.length_singleton,
        readStringFrom_unit hdigits, if_true, readSurrogate_of_pair hhigh hlow hc hdigits']
      rfl
    | false =>
      refine ⟨['u', 'u'], by simp, Bool.false_ne_true.elim, fun fuel cs => ?_⟩
      have hskip : readStringFrom false (fuel + 1) ('\\' :: 'u' :: (digits' ++ cs)) = (do
          let (text, cs) ← readStringFrom false fuel cs
          return ('u' :: text, cs)) := readStringFrom_unit hdigits'
      have hstep : readStringFrom false (fuel + 1 + 1)
          ('\\' :: 'u' :: (digits ++ '\\' :: 'u' :: (digits' ++ cs))) = (do
          let (text, cs) ← readStringFrom false (fuel + 1) ('\\' :: 'u' :: (digits' ++ cs))
          return ('u' :: text, cs)) := readStringFrom_unit hdigits
      simp only [List.cons_append, List.append_assoc, List.length_cons, List.length_nil]
      rw [hstep, hskip]
      cases readStringFrom false fuel cs <;> rfl

/-- The rest of a string is read from any text of it, and nothing behind it is. -/
theorem readStringFrom_of_writes (strict : Bool) {text ws : List Char} (h : WritesText text ws) :
    ∃ text', text'.length < ws.length ∧ (strict = true → text' = text) ∧ ∀ fuel rest,
      text'.length < fuel → readStringFrom strict fuel (ws ++ rest) = .ok (text', rest) := by
  induction h with
  | close =>
    refine ⟨[], Nat.zero_lt_one, fun _ => rfl, fun fuel rest hfuel => ?_⟩
    obtain ⟨fuel, rfl⟩ := Nat.exists_eq_succ_of_ne_zero (Nat.ne_of_gt hfuel)
    rfl
  | @char c cs w ws hc _ ih =>
    obtain ⟨front, hfront, hstrict, hread⟩ := readStringFrom_char strict hc
    obtain ⟨text', hlength, hstrict', hread'⟩ := ih
    refine ⟨front ++ text', ?_, fun h => ?_, fun fuel rest hfuel => ?_⟩
    · rw [List.length_append, List.length_append]
      omega
    · rw [hstrict h, hstrict' h, List.singleton_append]
    · rw [List.length_append] at hfuel
      obtain ⟨fuel, rfl⟩ := Nat.exists_eq_add_of_le' (Nat.le_of_add_right_le (Nat.le_of_lt hfuel))
      rw [List.append_assoc, hread, hread' fuel rest (by omega)]
      rfl

/-- A string is read back from each of its texts, whatever stands behind the closing quote. -/
theorem readString_of_writes {text : String} {ws : List Char} (h : WritesText text.toList ws) :
    readString (ws ++ rest) = .ok (text, rest) := by
  obtain ⟨text', hlength, hstrict, hread⟩ := readStringFrom_of_writes true h
  rw [readString, hread _ rest (by rw [List.length_append]; omega), hstrict rfl]
  exact congrArg (fun t => Except.ok (t, rest)) String.ofList_toList

/-- Where a string is skipped, its text is passed up to what stands behind the closing quote. -/
theorem skipString_of_writes {text ws : List Char} (h : WritesText text ws) :
    skipString (ws ++ rest) = .ok rest := by
  obtain ⟨text', hlength, -, hread⟩ := readStringFrom_of_writes false h
  rw [skipString, hread _ rest (by rw [List.length_append]; omega)]
  rfl

/-! ### Numerals -/

/-- What may stand behind a value: a blank, a comma, a closing bracket or nothing. -/
def Ends (rest : List Char) : Prop :=
  ∀ c ∈ rest.head?, c ∈ [' ', '\n', '\t', '\r', ',', ']', '\x7d']

/-- No digit stands at the front. -/
def NoDigit (rest : List Char) : Prop := ∀ c ∈ rest.head?, c.isDigit = false

/-- Digits end in front of a character that is none. -/
theorem noDigit_cons {c : Char} (h : c.isDigit = false) : NoDigit (c :: cs) := by
  intro c' hc'
  obtain rfl := Option.some_inj.mp hc'
  exact h

/-- What may stand behind a value begins with no digit. -/
theorem Ends.noDigit (h : Ends rest) : NoDigit rest := by
  have hends : ∀ c ∈ [' ', '\n', '\t', '\r', ',', ']', '\x7d'], c.isDigit = false := by simp
  exact fun c hc => hends c (h c hc)

variable {ds : List Char}

/-- Digits are taken up to where they end. -/
theorem takeWhile_digits (hds : Digits ds) (hrest : NoDigit rest) :
    (ds ++ rest).takeWhile Char.isDigit = ds := by
  rw [List.takeWhile_append_of_pos hds.2]
  cases rest with
  | nil => simp
  | cons c rest => simp [hrest c rfl]

/-- The digits in front of the point are read back, as they do not start with a superfluous zero. -/
theorem readWhole_of_digits (hds : Digits ds) (hzero : ds.head? = some '0' → ds = ['0'])
    (hrest : NoDigit rest) : readWhole strict (ds ++ rest) = .ok (ds, rest) := by
  simp only [readWhole, takeWhile_digits hds hrest]
  split
  · exact absurd rfl hds.1
  · simp at hzero
  · simp only [List.drop_left]

/-- The digits behind the point are read back, or their absence is noticed. -/
theorem readFraction_of_writes {f : Option (List Char)} {w : List Char} (h : WritesFraction f w)
    (hrest : NoDigit rest) (hpoint : rest.head? ≠ some '.') :
    readFraction strict (w ++ rest) = .ok (f, rest) := by
  cases h with
  | absent =>
    rw [List.nil_append, readFraction]
    rintro cs rfl
    exact hpoint rfl
  | @digits ds hds =>
    simp only [List.cons_append, readFraction, takeWhile_digits hds hrest]
    split
    · exact absurd rfl hds.1
    · simp only [List.drop_left]

/-- Digits begin with no sign. -/
theorem passSign_digits (hds : Digits ds) : passSign (ds ++ rest) = (false, ds ++ rest) := by
  cases ds with
  | nil => exact absurd rfl hds.1
  | cons d ds =>
    have hd := hds.2 d List.mem_cons_self
    have hplus : d ≠ '+' := by rintro rfl; simp at hd
    have hminus : d ≠ '-' := by rintro rfl; simp at hd
    rw [List.cons_append, passSign]
    · rintro _ h
      exact hplus (List.cons_eq_cons.mp h).1
    · rintro _ h
      exact hminus (List.cons_eq_cons.mp h).1

/-- An exponent is read back when its sign, if there is one, has been passed. -/
theorem readExponent_of_sign {e : Char} {negative : Bool} (he : e ∈ ['e', 'E']) (hds : Digits ds)
    (hrest : NoDigit rest) (hsign : passSign cs = (negative, ds ++ rest)) :
    readExponent strict (e :: cs) = .ok (some (negative, ds), rest) := by
  have hletter : (e == 'e' || e == 'E') = true := by simpa using he
  simp only [readExponent, hletter, if_true, hsign, takeWhile_digits hds hrest]
  split
  · exact absurd rfl hds.1
  · simp only [List.drop_left]

/-- An exponent is read back from each way to write it, or its absence is noticed. -/
theorem readExponent_of_writes {e : Option (Bool × List Char)} {w : List Char}
    (h : WritesExponent e w) (hrest : Ends rest) :
    readExponent strict (w ++ rest) = .ok (e, rest) := by
  cases h with
  | absent =>
    cases rest with
    | nil => rfl
    | cons c rest =>
      have hends : ∀ c ∈ [' ', '\n', '\t', '\r', ',', ']', '\x7d'],
          (c == 'e' || c == 'E') = false := by simp
      simp [readExponent, hends c (hrest c rfl)]
  | unsigned he hds => exact readExponent_of_sign he hds hrest.noDigit (passSign_digits hds)
  | plus he hds => exact readExponent_of_sign he hds hrest.noDigit rfl
  | minus he hds => exact readExponent_of_sign he hds hrest.noDigit rfl

/-- Behind a fraction an exponent, or what stands behind a number, goes on as neither a digit nor
a point. -/
theorem head_exponent {e : Option (Bool × List Char)} {w : List Char} (h : WritesExponent e w)
    (hrest : Ends rest) : NoDigit (w ++ rest) ∧ (w ++ rest).head? ≠ some '.' := by
  have hends : ∀ c ∈ ['e', 'E', ' ', '\n', '\t', '\r', ',', ']', '\x7d'],
      c.isDigit = false ∧ c ≠ '.' := by simp
  have hhead : ∀ c ∈ (w ++ rest).head?,
      c ∈ ['e', 'E', ' ', '\n', '\t', '\r', ',', ']', '\x7d'] := by
    intro c hc
    cases h with
    | absent => exact List.mem_cons_of_mem _ (List.mem_cons_of_mem _ (hrest c hc))
    | unsigned he _ | plus he _ | minus he _ =>
      obtain rfl := Option.some_inj.mp hc
      exact List.mem_append_left _ he
  exact ⟨fun c hc => (hends c (hhead c hc)).1, fun h => (hends '.' (hhead _ h)).2 rfl⟩

/-- A numeral is read back in front of whatever may stand behind a value. -/
theorem readNumeral_of_writes {n : Numeral} {w : List Char} (h : WritesNumeral n w)
    (hrest : Ends rest) : readNumeral strict (w ++ rest) = .ok (n, rest) := by
  obtain ⟨hwhole, hzero, hfraction, hexponent⟩ := h
  rename_i fraction exponent
  obtain ⟨hdigit, hpoint⟩ := head_exponent hexponent hrest
  have hdigit' : NoDigit (fraction ++ (exponent ++ rest)) := by
    generalize n.fraction = f at hfraction
    cases hfraction with
    | absent => exact hdigit
    | digits _ => exact noDigit_cons rfl
  rw [List.append_assoc, List.append_assoc, readNumeral,
    readWhole_of_digits hwhole hzero hdigit']
  simp only [bind, Except.bind, readFraction_of_writes hfraction hdigit hpoint,
    readExponent_of_writes hexponent hrest]
  rfl

/-! ### Words and numbers -/

/-- A word is read in front of any text. -/
theorem readWord_append (word rest : List Char) : readWord word (word ++ rest) = .ok rest := by
  induction word with
  | nil => rfl
  | cons c word ih => rw [List.cons_append, readWord, if_pos rfl, ih]

/-- A natural number of 64 bits is within the range of floating point. -/
theorem overflows_of_lt {whole : List Char} (h : decimalValue whole < 2 ^ 64) :
    Numeral.overflows ⟨whole, none, none⟩ = false := by
  have hbound : 2 ^ 64 ≤ floatBound := by decide +kernel
  have hfits : ¬floatBound ≤ decimalValue whole := by omega
  simp [Numeral.overflows, hfits]

/-- A natural number below 2^64 is read back as this number. -/
theorem readNumber_of_natural {ds w : List Char} (h : WritesNumeral ⟨ds, none, none⟩ w)
    (hlt : decimalValue ds < 2 ^ 64) (hrest : Ends rest) :
    readNumber false (w ++ rest) = .ok (.natural (decimalValue ds), rest) := by
  have hsize : decimalValue ds < UInt64.size := hlt
  simp [readNumber, readNumeral_of_writes h hrest, overflows_of_lt hlt, hsize, bind, Except.bind,
    pure, Except.pure]

/-- A numeral that stands for no natural number below 2^64 but is within range is read as another
number. -/
theorem readNumber_of_positive {n : Numeral} {w : List Char} (h : WritesNumeral n w)
    (hfits : n.overflows = false)
    (hother : n.fraction ≠ none ∨ n.exponent ≠ none ∨ 2 ^ 64 ≤ decimalValue n.whole)
    (hrest : Ends rest) : readNumber false (w ++ rest) = .ok (.otherNumber, rest) := by
  have hnot : (n.fraction.isNone && n.exponent.isNone && !false &&
      decimalValue n.whole < UInt64.size) = false := by
    have hsize : UInt64.size = 2 ^ 64 := rfl
    rcases hother with h | h | h
    · simp [h]
    · simp [h]
    · simpa [hsize] using fun _ _ => h
  simp only [readNumber, readNumeral_of_writes h hrest, hfits, hnot, bind, Except.bind]
  rfl

/-- A numeral behind a minus sign is read as another number. -/
theorem readNumber_of_negative {n : Numeral} {w : List Char} (h : WritesNumeral n w)
    (hfits : n.overflows = false) (hrest : Ends rest) :
    readNumber true (w ++ rest) = .ok (.otherNumber, rest) := by
  simp [readNumber, readNumeral_of_writes h hrest, hfits, bind, Except.bind, pure, Except.pure]

/-- A numeral starts with a digit. -/
theorem exists_digit {n : Numeral} {w : List Char} (h : WritesNumeral n w) :
    ∃ d w', w = d :: w' ∧ d.isDigit = true := by
  obtain ⟨hwhole, -, -, -⟩ := h
  cases hdigits : n.whole with
  | nil => exact absurd hdigits hwhole.1
  | cons d ds => exact ⟨d, _, rfl, hwhole.2 d (hdigits ▸ List.mem_cons_self)⟩

/-- A scalar that begins with a digit is read as a number without a sign. -/
theorem readScalar_digit (hc : c.isDigit = true) :
    readScalar (c :: cs) = readNumber false (c :: cs) := by
  unfold readScalar
  split <;> simp_all

/-- A scalar that begins with a digit is skipped as a numeral. -/
theorem skipScalar_digit (hc : c.isDigit = true) :
    skipScalar (c :: cs) = (do return (← readNumeral false (c :: cs)).2) := by
  unfold skipScalar
  split <;> simp_all

end Json

end Packrat
