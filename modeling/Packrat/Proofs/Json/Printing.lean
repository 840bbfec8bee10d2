import Packrat.Json.Printer
import Packrat.Proofs.Json.Writing

/-!
# Printed values

What is printed for a value without blanks is one of its texts.
-/

namespace Packrat

mutual

/-- Whether every natural number in a value has 64 bits. -/
def JsonValue.Fits : JsonValue → Prop
  | .natural n => n < 2 ^ 64
  | .array items => JsonValue.ItemsFit items
  | .object fields => JsonValue.FieldsFit fields
  | _ => True

/-- The same for the items of an array. -/
def JsonValue.ItemsFit : List JsonValue → Prop
  | [] => True
  | item :: items => item.Fits ∧ JsonValue.ItemsFit items

/-- The same for the values of an object. -/
def JsonValue.FieldsFit : List (String × JsonValue) → Prop
  | [] => True
  | (_, value) :: fields => value.Fits ∧ JsonValue.FieldsFit fields

end

/-- Items fit when each of them does. -/
theorem JsonValue.itemsFit_iff {items : List JsonValue} :
    JsonValue.ItemsFit items ↔ ∀ item ∈ items, item.Fits := by
  induction items with
  | nil => simp [JsonValue.ItemsFit]
  | cons item items ih => simp [JsonValue.ItemsFit, ih]

/-- Fields fit when each value in them does. -/
theorem JsonValue.fieldsFit_iff {fields : List (String × JsonValue)} :
    JsonValue.FieldsFit fields ↔ ∀ field ∈ fields, field.2.Fits := by
  induction fields with
  | nil => simp [JsonValue.FieldsFit]
  | cons field fields ih => simp [JsonValue.FieldsFit, ih]

namespace Json

open JsonValue

/-! ### Strings and numbers -/

/-- A control character is printed as the four digits of its number. -/
theorem writesUnit_fourHexDigits {n : Nat} (h : n < 0x20) : WritesUnit n (fourHexDigits n) := by
  have hdigits : ∀ n < 0x20, fourHexDigits n =
      ['0', '0', (n / 16).digitChar, (n % 16).digitChar] := by decide
  have hdigit : ∀ n < 16, HexDigit n n.digitChar := fun n hn =>
    .inl ((by decide : ∀ n < 16, "0123456789abcdef".toList[n]? = some n.digitChar) n hn)
  have hunit := WritesUnit.digits (hdigit 0 (by decide)) (hdigit 0 (by decide))
    (hdigit (n / 16) (by omega)) (hdigit (n % 16) (by omega))
  rw [hdigits n h]
  rwa [show ((0 * 16 + 0) * 16 + n / 16) * 16 + n % 16 = n by omega] at hunit

/-- A character is printed in one of the ways to write it. -/
theorem writesChar_escapeChar (c : Char) : WritesChar c (escapeChar c) := by
  unfold escapeChar
  split
  · exact .letter (by decide)
  · exact .letter (by decide)
  · exact .letter (by decide)
  · exact .letter (by decide)
  · exact .letter (by decide)
  · exact .letter (by decide)
  · exact .letter (by decide)
  · rename_i hquote hback _ _ _ _ _
    split
    · rename_i hlow
      exact .unit (writesUnit_fourHexDigits hlow)
    · rename_i hlow
      exact .plain (Nat.not_lt.mp hlow) hquote hback

/-- Characters are printed one by one, with the closing quote behind them. -/
theorem writesText_flatMap (cs : List Char) : WritesText cs (cs.flatMap escapeChar ++ ['"']) := by
  induction cs with
  | nil => exact .close
  | cons c cs ih =>
    rw [List.flatMap_cons, List.append_assoc]
    exact .char (writesChar_escapeChar c) ih

/-- A string is printed with a quote in front of its text. -/
theorem toList_renderString (s : String) :
    (renderString s).toList = '"' :: (s.toList.flatMap escapeChar ++ ['"']) :=
  String.toList_ofList

/-- No digits but a single zero start with a zero. -/
theorem head_toDigits {n : Nat} (h : (Nat.toDigits 10 n).head? = some '0') :
    Nat.toDigits 10 n = ['0'] := by
  induction n using Nat.strong_induction_on with
  | _ n ih =>
    rw [Nat.toDigits_eq_if (by decide)] at h ⊢
    split at h
    · rename_i hlt
      rw [if_pos hlt]
      simpa using h
    · rename_i hle
      rw [List.head?_append_of_ne_nil _ Nat.toDigits_ne_nil] at h
      have hzero := ih (n / 10) (by omega) h
      have hvalue := Nat.ofDigitChars_ten_toDigits (n := n / 10)
      rw [hzero] at hvalue
      have : n / 10 = 0 := hvalue.symm
      omega

/-- A natural number is printed as its decimal digits. -/
theorem writes_natural {n : Nat} (h : n < 2 ^ 64) : Writes (.natural n) (toString n).toList := by
  have hvalue : decimalValue (Nat.toDigits 10 n) = n := Nat.ofDigitChars_ten_toDigits
  have hdigits : Digits (Nat.toDigits 10 n) :=
    ⟨Nat.toDigits_ne_nil, fun c hc => Nat.isDigit_of_mem_toDigits (by decide) (by decide) hc⟩
  have hnumeral : WritesNumeral ⟨Nat.toDigits 10 n, none, none⟩ (Nat.toDigits 10 n) := by
    have hparts := WritesNumeral.parts (n := ⟨Nat.toDigits 10 n, none, none⟩) hdigits head_toDigits
      .absent .absent
    simpa using hparts
  have hwrites := Writes.natural hnumeral (hvalue.symm ▸ h)
  rw [hvalue] at hwrites
  rw [Nat.toString_eq_ofList_toDigits, String.toList_ofList]
  exact hwrites

/-- A number that is no natural one is printed as one half. -/
theorem writes_half : Writes .otherNumber "0.5".toList := by
  have hdigits : Digits ['0'] ∧ Digits ['5'] := by simp [Digits]
  have hnumeral := WritesNumeral.parts (n := ⟨['0'], some ['5'], none⟩) hdigits.1 (fun _ => rfl)
    (.digits hdigits.2) .absent
  have htext : "0.5".toList = ['0'] ++ ('.' :: ['5'] ++ []) := by decide
  rw [htext]
  exact .positive hnumeral (by decide) (.inl (Option.some_ne_none _))

/-! ### Values -/

section

variable {α : Type} {close : Char} {Part : α → List Char → Prop}

/-- Items behind the first one are printed with a comma in front of each. -/
theorem listing_flatMap {as : List α} {texts : List (List Char)}
    (h : List.Forall₂ Part as texts) :
    Listing close Part false as (texts.flatMap (',' :: ·) ++ [close]) := by
  induction h with
  | nil => exact .done blank_nil
  | cons ha _ ih =>
    rw [List.flatMap_cons, List.append_assoc]
    exact (Listing.next blank_nil blank_nil ha ih :)

/-- Commas between texts stand in front of each but the first. -/
theorem intercalate_cons (w : List Char) (texts : List (List Char)) :
    [','].intercalate (w :: texts) = w ++ texts.flatMap (',' :: ·) := by
  induction texts generalizing w with
  | nil => simp
  | cons w' texts ih => simp [List.intercalate_cons_cons, ih]

/-- Texts of parts with commas between them are a text of all of them. -/
theorem listing_intercalate {as : List α} {texts : List (List Char)}
    (h : List.Forall₂ Part as texts) :
    Listing close Part true as ([','].intercalate texts ++ [close]) := by
  cases h with
  | nil => exact .done blank_nil
  | @cons a w as texts ha has =>
    rw [intercalate_cons, List.append_assoc]
    exact (Listing.first blank_nil ha (listing_flatMap has) :)

end

mutual

/-- What is printed for a value is a text of it. -/
theorem writes_compact : (v : JsonValue) → v.Fits → Writes v v.compact.toList
  | .null, _ => by exact .null
  | .bool true, _ => by exact .yes
  | .bool false, _ => by exact .no
  | .natural _, h => by exact writes_natural h
  | .otherNumber, _ => by exact writes_half
  | .string text, _ => by
    rw [compact, toList_renderString]
    exact .string (writesText_flatMap text.toList)
  | .array items, h => by
    have htext : (compact (.array items)).toList =
        '[' :: ([','].intercalate ((compactItems items).map String.toList) ++ [']']) := by
      simp [compact, String.toList_intercalate]
    rw [htext]
    exact .array (listing_intercalate (writes_compactItems items h))
  | .object fields, h => by
    have htext : (compact (.object fields)).toList = '\x7b' ::
        ([','].intercalate ((compactFields fields).map String.toList) ++ ['\x7d']) := by
      simp [compact, String.toList_intercalate]
    rw [htext]
    exact .object (listing_intercalate (writes_compactFields fields h))

/-- Items are printed as texts of them. -/
theorem writes_compactItems : (items : List JsonValue) → ItemsFit items →
    List.Forall₂ Writes items ((compactItems items).map String.toList)
  | [], _ => .nil
  | item :: items, h => .cons (writes_compact item h.1) (writes_compactItems items h.2)

/-- Fields are printed as texts of them, with their names. -/
theorem writes_compactFields : (fields : List (String × JsonValue)) → FieldsFit fields →
    List.Forall₂ WritesField fields ((compactFields fields).map String.toList)
  | [], _ => .nil
  | (name, value) :: fields, h => by
    refine .cons ?_ (writes_compactFields fields h.2)
    have htext : (renderString name ++ ":" ++ value.compact).toList =
        '"' :: ((name.toList.flatMap escapeChar ++ ['"']) ++
          ([] ++ ':' :: ([] ++ value.compact.toList))) := by
      simp [toList_renderString]
    rw [htext]
    exact .named (writesText_flatMap name.toList) blank_nil blank_nil (writes_compact value h.1)

end

end Json

end Packrat
