import Packrat.Proofs.Grammar.Binary

/-!
# A grammar is known by its form

No binary form is the beginning of another one, however large the grammars are. A form tells what
it stands for together with what stands behind it, so forms can stand one behind the other.
-/

namespace Packrat

namespace Binary

/-- Whether the bytes written for something tell what it is, whatever stands behind them. -/
def Unambiguous {α : Type} (write : α → List UInt8) : Prop :=
  ∀ a b rest rest', write a ++ rest = write b ++ rest' → a = b ∧ rest = rest'

/-- The first byte of a number tells whether there are more. -/
theorem unambiguous_number : Unambiguous number := by
  intro m
  induction m using Nat.strongRecOn with
  | ind m ih =>
    intro n rest rest' h
    have hbyte : ∀ k < 256, (UInt8.ofNat k).toNat = k := fun k hk => UInt8.toNat_ofNat_of_lt' hk
    rw [number.eq_def m, number.eq_def n] at h
    by_cases hm : m < 128 <;> by_cases hn : n < 128 <;>
      simp only [hm, hn, if_true, if_false, List.cons_append, List.nil_append,
        List.cons.injEq] at h <;>
      have hfirst := congrArg UInt8.toNat h.1 <;>
      rw [hbyte _ (by omega), hbyte _ (by omega)] at hfirst
    · exact ⟨hfirst, h.2⟩
    · omega
    · omega
    · obtain ⟨hquotient, hrest⟩ := ih (m / 128) (by omega) (n / 128) rest rest' h.2
      exact ⟨by omega, hrest⟩

/-- No number is the beginning of another one, since its last byte says so. -/
theorem unambiguous_word : Unambiguous fun n : UInt32 => number n.toNat := by
  intro m n rest rest' h
  obtain ⟨hvalue, hrest⟩ := unambiguous_number _ _ _ _ h
  exact ⟨UInt32.toNat_inj.mp hvalue, hrest⟩

/-- A truth value is a single byte. -/
theorem unambiguous_bool : Unambiguous bool := by
  intro a b rest rest' h
  cases a <;> cases b <;> simp_all [bool]

/-- The length in front of a text tells where it ends. -/
theorem unambiguous_text : Unambiguous text := by
  intro s t rest rest' h
  simp only [text, List.append_assoc] at h
  obtain ⟨hsize, hbytes⟩ := unambiguous_number _ _ _ _ h
  obtain ⟨hbytes, hrest⟩ := List.append_inj hbytes (by simpa using hsize)
  exact ⟨String.toByteArray_inj.mp (ByteArray.ext (Array.toList_inj.mp hbytes)), hrest⟩

section

variable {α : Type} {write : α → List UInt8} (h : Unambiguous write)

include h

/-- The byte in front tells whether anything follows. -/
theorem unambiguous_option : Unambiguous (option write) := by
  intro a b rest rest' heq
  cases a <;> cases b <;> simp only [option, List.cons_append, List.nil_append] at heq
  case none.none => exact ⟨rfl, (List.cons_eq_cons.mp heq).2⟩
  case some.some x y =>
    obtain ⟨hxy, hrest⟩ := h x y rest rest' (List.cons_eq_cons.mp heq).2
    exact ⟨congrArg some hxy, hrest⟩
  all_goals simp at heq

/-- As many items one behind the other are told apart item by item. -/
theorem eq_of_flatMap_append {items items' : List α} {rest rest' : List UInt8}
    (hlength : items.length = items'.length)
    (heq : items.flatMap write ++ rest = items'.flatMap write ++ rest') :
    items = items' ∧ rest = rest' := by
  induction items generalizing items' with
  | nil =>
    rw [List.length_nil, eq_comm, List.length_eq_zero_iff] at hlength
    subst hlength
    exact ⟨rfl, heq⟩
  | cons x items ih =>
    cases items' with
    | nil => simp at hlength
    | cons y items' =>
      simp only [List.flatMap_cons, List.append_assoc] at heq
      obtain ⟨hxy, hbehind⟩ := h _ _ _ _ heq
      obtain ⟨hitems, hrest⟩ := ih (Nat.succ.inj hlength) hbehind
      exact ⟨by rw [hxy, hitems], hrest⟩

/-- The length in front of a list tells how many items follow. -/
theorem unambiguous_list : Unambiguous (list write) := by
  intro items items' rest rest' heq
  simp only [list, List.append_assoc] at heq
  obtain ⟨hlength, hitems⟩ := unambiguous_number _ _ _ _ heq
  exact eq_of_flatMap_append h hlength hitems

end

mutual

/-- An expression is told by its form with whatever stands behind it. -/
theorem unambiguous_rule : (a b : Rule) → (rest rest' : List UInt8) →
    rule a ++ rest = rule b ++ rest' → a = b ∧ rest = rest'
  | .blank, b, rest, rest', h => by
    cases b with
    | blank => exact ⟨rfl, (List.cons_eq_cons.mp h).2⟩
    | _ => simp [rule] at h
  | .literal s, b, rest, rest', h => by
    cases b with
    | literal t =>
      obtain ⟨hs, hrest⟩ := unambiguous_text _ _ _ _ (List.cons_eq_cons.mp h).2
      exact ⟨by rw [hs], hrest⟩
    | _ => simp [rule] at h
  | .pattern s f, b, rest, rest', h => by
    cases b with
    | pattern t f' =>
      simp only [rule, List.cons_append, List.append_assoc, List.cons.injEq, true_and] at h
      obtain ⟨hs, hflags⟩ := unambiguous_text _ _ _ _ h
      obtain ⟨hf, hrest⟩ := unambiguous_option unambiguous_text _ _ _ _ hflags
      exact ⟨by rw [hs, hf], hrest⟩
    | _ => simp [rule] at h
  | .symbol s, b, rest, rest', h => by
    cases b with
    | symbol t =>
      obtain ⟨hs, hrest⟩ := unambiguous_text _ _ _ _ (List.cons_eq_cons.mp h).2
      exact ⟨by rw [hs], hrest⟩
    | _ => simp [rule] at h
  | .seq as, b, rest, rest', h => by
    cases b with
    | seq bs =>
      simp only [rule, List.cons_append, List.append_assoc, List.cons.injEq, true_and] at h
      obtain ⟨hlength, hmembers⟩ := unambiguous_number _ _ _ _ h
      obtain ⟨has, hrest⟩ := unambiguous_rules as bs rest rest' hlength hmembers
      exact ⟨by rw [has], hrest⟩
    | _ => simp [rule] at h
  | .choice as, b, rest, rest', h => by
    cases b with
    | choice bs =>
      simp only [rule, List.cons_append, List.append_assoc, List.cons.injEq, true_and] at h
      obtain ⟨hlength, hmembers⟩ := unambiguous_number _ _ _ _ h
      obtain ⟨has, hrest⟩ := unambiguous_rules as bs rest rest' hlength hmembers
      exact ⟨by rw [has], hrest⟩
    | _ => simp [rule] at h
  | .repetition a min max, b, rest, rest', h => by
    cases b with
    | repetition b min' max' =>
      simp only [rule, List.cons_append, List.append_assoc, List.cons.injEq, true_and] at h
      obtain ⟨ha, hbounds⟩ := unambiguous_rule a b _ _ h
      obtain ⟨hmin, hmax⟩ := unambiguous_word _ _ _ _ hbounds
      obtain ⟨hmax, hrest⟩ := unambiguous_option unambiguous_word _ _ _ _ hmax
      exact ⟨by rw [ha, hmin, hmax], hrest⟩
    | _ => simp [rule] at h
  | .token a i, b, rest, rest', h => by
    cases b with
    | token b j =>
      simp only [rule, List.cons_append, List.append_assoc, List.cons.injEq, true_and] at h
      obtain ⟨ha, himmediate⟩ := unambiguous_rule a b _ _ h
      obtain ⟨hi, hrest⟩ := unambiguous_bool _ _ _ _ himmediate
      exact ⟨by rw [ha, hi], hrest⟩
    | _ => simp [rule] at h
  | .renamed a s i, b, rest, rest', h => by
    cases b with
    | renamed b t j =>
      simp only [rule, List.cons_append, List.append_assoc, List.cons.injEq, true_and] at h
      obtain ⟨ha, hname⟩ := unambiguous_rule a b _ _ h
      obtain ⟨hs, hnamed⟩ := unambiguous_text _ _ _ _ hname
      obtain ⟨hi, hrest⟩ := unambiguous_bool _ _ _ _ hnamed
      exact ⟨by rw [ha, hs, hi], hrest⟩
    | _ => simp [rule] at h
  | .field s a, b, rest, rest', h => by
    cases b with
    | field t b =>
      simp only [rule, List.cons_append, List.append_assoc, List.cons.injEq, true_and] at h
      obtain ⟨hs, hcontent⟩ := unambiguous_text _ _ _ _ h
      obtain ⟨ha, hrest⟩ := unambiguous_rule a b _ _ hcontent
      exact ⟨by rw [hs, ha], hrest⟩
    | _ => simp [rule] at h

/-- As many expressions one behind the other are told by their forms. -/
theorem unambiguous_rules : (as bs : List Rule) → (rest rest' : List UInt8) →
    as.length = bs.length → rules as ++ rest = rules bs ++ rest' → as = bs ∧ rest = rest'
  | [], bs, rest, rest', hlength, h => by
    rw [List.length_nil, eq_comm, List.length_eq_zero_iff] at hlength
    subst hlength
    exact ⟨rfl, h⟩
  | a :: as, [], rest, rest', hlength, h => by simp at hlength
  | a :: as, b :: bs, rest, rest', hlength, h => by
    simp only [rules, List.append_assoc] at h
    obtain ⟨ha, hbehind⟩ := unambiguous_rule a b _ _ h
    obtain ⟨has, hrest⟩ := unambiguous_rules as bs rest rest' (Nat.succ.inj hlength) hbehind
    exact ⟨by rw [ha, has], hrest⟩

end

/-- A rule is told by the form of its name and its body. -/
theorem unambiguous_namedRule : Unambiguous namedRule := by
  intro r r' rest rest' h
  simp only [namedRule, List.append_assoc] at h
  obtain ⟨hname, hrule⟩ := unambiguous_text _ _ _ _ h
  obtain ⟨hrule, hrest⟩ := unambiguous_rule _ _ _ _ hrule
  exact ⟨Prod.ext hname hrule, hrest⟩

end Binary

open Binary

/-- A grammar is told by its form with whatever stands behind it. -/
theorem Grammar.unambiguous_encode : Unambiguous Grammar.encode := by
  intro g g' rest rest' h
  simp only [Grammar.encode, List.append_assoc] at h
  obtain ⟨hname, h₁⟩ := unambiguous_text _ _ _ _ h
  obtain ⟨hstart, h₂⟩ := unambiguous_option unambiguous_text _ _ _ _ h₁
  obtain ⟨hrules, h₃⟩ := unambiguous_list unambiguous_namedRule _ _ _ _ h₂
  obtain ⟨hextras, h₄⟩ := unambiguous_list unambiguous_rule _ _ _ _ h₃
  obtain ⟨hinlined, h₅⟩ := unambiguous_list unambiguous_text _ _ _ _ h₄
  obtain ⟨hsupertypes, h₆⟩ := unambiguous_list unambiguous_text _ _ _ _ h₅
  obtain ⟨hword, h₇⟩ := unambiguous_option unambiguous_text _ _ _ _ h₆
  obtain ⟨hexternals, hrest⟩ := unambiguous_list unambiguous_rule _ _ _ _ h₇
  cases g
  cases g'
  simp_all

/-- Grammars with one form are one grammar. -/
theorem Grammar.encode_injective {g g' : Grammar} (h : g.encode = g'.encode) : g = g' :=
  (Grammar.unambiguous_encode g g' [] [] (by rw [h])).1

end Packrat
