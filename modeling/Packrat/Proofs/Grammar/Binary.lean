import Mathlib
import Packrat.Grammar.Binary

/-!
# Reading binary forms

What is written is read back, whatever stands behind it, and a beginning of it that lacks something
is found to end too early. `Reads` says both of a reader, and it is closed under reading one thing
after another, so it holds for grammars because it holds for numbers and texts.
-/

namespace Packrat

namespace Binary

/-- Whether a reader hands back `a` from the front of what was written and notices the end of the
bytes when only a beginning of it is there. The former has to hold if so many bytes were written,
the latter if fewer of them are there. -/
structure Reads {α : Type} (limit : Nat) (read : Reader α) (written : List UInt8) (a : α) :
    Prop where
  returns : written.length ≤ limit → ∀ rest, read (written ++ rest) = .ok (a, rest)
  cut : ∀ front behind, written = front ++ behind → behind ≠ [] → front.length < limit →
    read front = .error .unexpectedEnd

section

variable {α β : Type} {read : Reader α} {k : α → Reader β} {bytes rest : List UInt8} {a : α}

/-- What is read after something begins with the bytes that were left over. -/
theorem bind_of_ok (h : read bytes = .ok (a, rest)) : (read >>= k) bytes = k a rest := by
  change (read bytes >>= fun x => k x.1 x.2) = _
  rw [h]
  rfl

/-- When the first thing cannot be read, nothing is read after it. -/
theorem bind_of_error {e : BinaryError} (h : read bytes = .error e) :
    (read >>= k) bytes = .error e := by
  change (read bytes >>= fun x => k x.1 x.2) = _
  rw [h]
  rfl

end

namespace Reads

variable {α β : Type} {limit : Nat} {read read' : Reader α} {k : α → Reader β}
  {written written' : List UInt8} {byte : UInt8} {a : α} {b : β}

/-- Up to a limit of no bytes, nothing is asked of a reader. -/
theorem zero (h : written ≠ []) : Reads 0 read written a :=
  ⟨fun hle => absurd (List.eq_nil_of_length_eq_zero (Nat.le_zero.mp hle)) h,
    fun _ _ _ _ hlt => absurd hlt (Nat.not_lt_zero _)⟩

/-- A reader that does well with so many bytes does well with fewer. -/
theorem mono {limit' : Nat} (h : Reads limit read written a) (hle : limit' ≤ limit) :
    Reads limit' read written a :=
  ⟨fun hlength => h.returns (Nat.le_trans hlength hle),
    fun front behind hsplit hbehind hlt =>
      h.cut front behind hsplit hbehind (Nat.lt_of_lt_of_le hlt hle)⟩

/-- Nothing is written for what takes no bytes, and nothing is read for it. -/
theorem pure (a : α) : Reads limit (pure a) [] a := by
  refine ⟨fun _ _ => rfl, fun front behind hsplit hbehind _ => ?_⟩
  exact absurd (List.append_eq_nil_iff.mp hsplit.symm).2 hbehind

/-- A reader that takes one byte and goes on as another. -/
theorem cons (h : Reads limit read' written a) (hnil : read [] = .error .unexpectedEnd)
    (hcons : ∀ bytes, read (byte :: bytes) = read' bytes) :
    Reads (limit + 1) read (byte :: written) a := by
  constructor
  · intro hle rest
    rw [List.cons_append, hcons]
    exact h.returns (Nat.le_of_succ_le_succ hle) rest
  · intro front behind hsplit hbehind hlt
    cases front with
    | nil => exact hnil
    | cons first front =>
      obtain ⟨rfl, rfl⟩ := List.cons_eq_cons.mp hsplit
      rw [hcons]
      exact h.cut front behind rfl hbehind (Nat.lt_of_succ_lt_succ hlt)

/-- Reading one thing and then another. A beginning that lacks something ends in one of them. -/
theorem bind (h : Reads limit read written a) (h' : Reads limit (k a) written' b) :
    Reads limit (read >>= k) (written ++ written') b := by
  constructor
  · intro hle rest
    rw [List.length_append] at hle
    rw [List.append_assoc, bind_of_ok (h.returns (by omega) _)]
    exact h'.returns (by omega) rest
  · intro front behind hsplit hbehind hlt
    rcases List.append_eq_append_iff.mp hsplit with ⟨mid, rfl, hmid⟩ | ⟨mid, hmid, rfl⟩
    · rw [List.length_append] at hlt
      rw [bind_of_ok (h.returns (by omega) _)]
      exact h'.cut mid behind hmid hbehind (by omega)
    · cases mid with
      | nil =>
        rw [List.append_nil] at hmid
        subst hmid
        have hread := h.returns (by omega) []
        rw [List.append_nil] at hread
        rw [bind_of_ok hread]
        exact h'.cut [] _ rfl hbehind (by simp only [List.length_nil]; omega)
      | cons first mid =>
        exact bind_of_error (h.cut front (first :: mid) hmid (List.cons_ne_nil _ _) hlt)

/-- What is made of something read is read where this was written. -/
theorem map {f : α → β} (h : Reads limit read written a) :
    Reads limit (read >>= fun a => Pure.pure (f a)) written (f a) := by
  have hpure : Reads limit (Pure.pure (f a)) [] (f a) := Reads.pure (f a)
  rw [← List.append_nil written]
  exact h.bind hpure

end Reads

section

variable {α : Type} {limit lastMax count shift value : Nat} {read : Reader α}
  {write : α → List UInt8} {byte : UInt8}

/-- A byte without the high bit is the last one of a number. -/
theorem readNumberFrom_last (hbyte : byte.toNat < 128) (hlast : count = 0 → byte.toNat ≤ lastMax)
    (bytes : List UInt8) : readNumberFrom lastMax (count + 1) shift value (byte :: bytes) =
      .ok (value + byte.toNat * 2 ^ shift, bytes) := by
  have hfits : ¬(count = 0 ∧ lastMax < byte.toNat) := fun h => by have := hlast h.1; omega
  rw [readNumberFrom, bind_of_ok (rfl : readByte (byte :: bytes) = _), if_pos hbyte, if_neg hfits,
    Nat.mod_eq_of_lt hbyte, Nat.shiftLeft_eq]
  rfl

/-- A byte whose highest bit is set has seven bits of the number and says that more follow. -/
theorem readNumberFrom_more (hbyte : 128 ≤ byte.toNat) (bytes : List UInt8) :
    readNumberFrom lastMax (count + 1) shift value (byte :: bytes) =
      readNumberFrom lastMax count (shift + 7) (value + byte.toNat % 128 * 2 ^ shift) bytes := by
  rw [readNumberFrom, bind_of_ok (rfl : readByte (byte :: bytes) = _),
    if_neg (Nat.not_lt.mpr hbyte), Nat.shiftLeft_eq]

/-- A number of at most so many bytes, the last of which is at most `lastMax` if there are that
many, is added to what was read before. -/
theorem reads_numberFrom (lastMax count : Nat) {n : Nat} (hlast : lastMax < 128)
    (hn : n < 128 ^ count * (lastMax + 1)) (limit shift value : Nat) :
    Reads limit (readNumberFrom lastMax (count + 1) shift value) (number n)
      (value + n * 2 ^ shift) := by
  induction count generalizing n shift value with
  | zero =>
    rw [Nat.pow_zero, Nat.one_mul] at hn
    have hbyte : (UInt8.ofNat n).toNat = n := by simp; omega
    rw [number, if_pos (by omega)]
    refine ((Reads.pure _).cons rfl fun bytes => ?_).mono (Nat.le_succ limit)
    rw [readNumberFrom_last (by omega) (by omega), hbyte]
    rfl
  | succ count ih =>
    rw [number]
    split
    · rename_i hsmall
      have hbyte : (UInt8.ofNat n).toNat = n := by simp; omega
      refine ((Reads.pure _).cons rfl fun bytes => ?_).mono (Nat.le_succ limit)
      rw [readNumberFrom_last (by omega) (by omega), hbyte]
      rfl
    · have hbyte : (UInt8.ofNat (n % 128 + 128)).toNat = n % 128 + 128 := by simp; omega
      have hrest : n / 128 < 128 ^ count * (lastMax + 1) := by
        rw [Nat.div_lt_iff_lt_mul (by decide)]
        calc n < 128 ^ (count + 1) * (lastMax + 1) := hn
          _ = 128 ^ count * (lastMax + 1) * 128 := by rw [Nat.pow_succ]; ac_rfl
      have hvalue : value + n * 2 ^ shift =
          value + n % 128 * 2 ^ shift + n / 128 * 2 ^ (shift + 7) := by
        have hn : n % 128 + n / 128 * 128 = n := by omega
        calc value + n * 2 ^ shift = value + (n % 128 + n / 128 * 128) * 2 ^ shift := by rw [hn]
          _ = value + n % 128 * 2 ^ shift + n / 128 * 2 ^ (shift + 7) := by
            rw [Nat.pow_add, Nat.add_mul, Nat.add_assoc, Nat.mul_assoc, Nat.mul_comm 128]
      rw [hvalue]
      refine ((ih hrest (shift + 7) _).cons rfl fun bytes => ?_).mono (Nat.le_succ limit)
      rw [readNumberFrom_more (by omega), hbyte, Nat.add_mod_right, Nat.mod_mod]

/-- A number of 64 bits is read back from its bytes. -/
theorem reads_long {n : Nat} (hn : n < UInt64.size) (limit : Nat) :
    Reads limit readLong (number n) n := by
  have h := reads_numberFrom 0x01 9 (by decide) hn limit 0 0
  rwa [Nat.pow_zero, Nat.mul_one, Nat.zero_add] at h

/-- A number of 32 bits is read back from its bytes. -/
theorem reads_word (n : UInt32) (limit : Nat) : Reads limit readWord (number n.toNat) n := by
  have h := reads_numberFrom 0x0f 4 (by decide) n.toNat_lt limit 0 0
  rw [Nat.pow_zero, Nat.mul_one, Nat.zero_add] at h
  have hword := h.map (f := UInt32.ofNat)
  rwa [UInt32.ofNat_toNat] at hword

/-- A truth value is read back from its byte. -/
theorem reads_bool (b : Bool) (limit : Nat) : Reads limit readBool (bool b) b := by
  refine ((Reads.pure b).cons rfl fun bytes => ?_).mono (Nat.le_succ limit)
  cases b <;> rfl

/-- As many bytes as were written are read back as they are. -/
theorem reads_bytes (bytes : List UInt8) (limit : Nat) :
    Reads limit (readBytes bytes.length) bytes bytes := by
  refine ⟨fun _ rest => ?_, fun front behind hsplit hbehind _ => ?_⟩
  · rw [readBytes, if_neg (by rw [List.length_append]; omega), List.take_left, List.drop_left]
  · have hlength := congrArg List.length hsplit
    have hpos := List.length_pos_of_ne_nil hbehind
    rw [List.length_append] at hlength
    rw [readBytes, if_pos (by omega)]

/-- Whether a reader reads back whatever is written in a number of bytes that has 64 bits. -/
def Inverts (limit : Nat) (read : Reader α) (write : α → List UInt8) : Prop :=
  ∀ a, (write a).length < UInt64.size → Reads limit read (write a) a

/-- A text is read back, as its bytes are UTF-8 and their number stands in front of them. -/
theorem inverts_text (limit : Nat) : Inverts limit readText text := by
  intro s hs
  have hsize : s.toUTF8.data.toList.length = s.utf8ByteSize := by simp
  have hlong := reads_long (n := s.utf8ByteSize) (by
    rw [text, List.length_append, hsize] at hs
    omega) limit
  have hbytes := reads_bytes s.toUTF8.data.toList limit
  rw [hsize] at hbytes
  have hread : String.fromUTF8? ⟨s.toUTF8.data.toList.toArray⟩ = some s :=
    dif_pos s.isValidUTF8
  refine hlong.bind ?_
  rw [← List.append_nil s.toUTF8.data.toList]
  refine hbytes.bind ?_
  rw [hread]
  exact Reads.pure s

/-- What may be missing is read back when it is read back where it is present. -/
theorem inverts_option (h : Inverts limit read write) :
    Inverts limit (readOption read) (option write) := by
  intro a ha
  cases a with
  | none => exact ((Reads.pure none).cons rfl fun bytes => rfl).mono (Nat.le_succ limit)
  | some x =>
    simp only [option, List.length_cons] at ha
    exact ((h x (by omega)).map.cons rfl fun bytes => rfl).mono (Nat.le_succ limit)

/-- As many items as were written are read back one after another. -/
theorem reads_many (h : Inverts limit read write) {items : List α}
    (hitems : (items.flatMap write).length < UInt64.size) :
    Reads limit (readMany read items.length) (items.flatMap write) items := by
  induction items with
  | nil => exact Reads.pure []
  | cons x items ih =>
    rw [List.flatMap_cons, List.length_append] at hitems
    exact (h x (by omega)).bind (ih (by omega)).map

/-- Items of which each takes a byte or more are no more than their bytes. -/
theorem length_le_length_flatMap (hwrite : ∀ a, write a ≠ []) (items : List α) :
    items.length ≤ (items.flatMap write).length := by
  induction items with
  | nil => simp
  | cons x items ih =>
    have hx := List.length_pos_of_ne_nil (hwrite x)
    rw [List.length_cons, List.flatMap_cons, List.length_append]
    omega

/-- A list is read back when its items are and take a byte or more each. -/
theorem inverts_list (h : Inverts limit read write) (hwrite : ∀ a, write a ≠ []) :
    Inverts limit (readList read) (list write) := by
  intro items hitems
  have hcount := length_le_length_flatMap hwrite items
  rw [list, List.length_append] at hitems
  exact (reads_long (by omega) limit).bind (reads_many h (by omega))

end

/-- A number takes a byte or more. -/
theorem number_ne_nil (n : Nat) : number n ≠ [] := by
  rw [number]
  split <;> simp

/-- A text takes a byte or more, that of its length. -/
theorem text_ne_nil (s : String) : text s ≠ [] := by simp [text, number_ne_nil]

/-- An expression takes a byte or more, that of its constructor. -/
theorem rule_ne_nil (r : Rule) : rule r ≠ [] := by cases r <;> simp [rule]

/-- A rule with its name takes a byte or more. -/
theorem namedRule_ne_nil (r : String × Rule) : namedRule r ≠ [] := by
  simp [namedRule, text_ne_nil]

/-- Expressions are written one after another. -/
theorem rules_eq_flatMap (rs : List Rule) : rules rs = rs.flatMap rule := by
  induction rs with
  | nil => rfl
  | cons r rs ih => rw [rules, ih, List.flatMap_cons]

/-- Expressions are no more than their bytes. -/
theorem length_le_length_rules (rs : List Rule) : rs.length ≤ (rules rs).length := by
  rw [rules_eq_flatMap]
  exact length_le_length_flatMap rule_ne_nil rs

/-- The number of a kind of expressions is a byte. -/
theorem Reads.rule {levels : Nat} {kind : UInt8} {written : List UInt8} {r : Rule}
    (h : Reads levels (readContent (readRule levels) kind.toNat) written r)
    (hkind : kind.toNat < 128 := by decide) :
    Reads (levels + 1) (readRule (levels + 1)) (kind :: written) r := by
  refine h.cons rfl fun bytes => ?_
  have hnumber : readNumberFrom 0x0f 5 0 0 (kind :: bytes) = .ok (kind.toNat, bytes) := by
    rw [readNumberFrom_last hkind (by omega), Nat.zero_add, Nat.pow_zero, Nat.mul_one]
  have hword : readWord (kind :: bytes) = .ok (UInt32.ofNat kind.toNat, bytes) := by
    rw [readWord, bind_of_ok hnumber]
    rfl
  rw [readRule, bind_of_ok hword]
  simp

mutual

/-- An expression is read back when there are as many levels as there are bytes, or when a
beginning of it has fewer bytes than there are levels. -/
theorem reads_rule : (r : Rule) → (levels : Nat) → (rule r).length < UInt64.size →
    Reads levels (readRule levels) (rule r) r
  | r, 0, _ => .zero (rule_ne_nil r)
  | .blank, levels + 1, _ => (Reads.pure _).rule
  | .literal s, levels + 1, hsize => by
    simp only [rule, List.length_cons] at hsize ⊢
    exact (inverts_text levels _ (by omega)).map.rule
  | .pattern source flags, levels + 1, hsize => by
    simp only [rule, List.length_cons, List.length_append, List.cons_append] at hsize ⊢
    have hsource := inverts_text levels source (by omega)
    have hflags := inverts_option (inverts_text levels) flags (by omega)
    exact (hsource.bind hflags.map).rule
  | .symbol name, levels + 1, hsize => by
    simp only [rule, List.length_cons] at hsize ⊢
    exact (inverts_text levels _ (by omega)).map.rule
  | .seq members, levels + 1, hsize => by
    simp only [rule, List.length_cons, List.length_append, List.cons_append] at hsize ⊢
    have hlength := length_le_length_rules members
    have hmembers := reads_rules members levels (by omega)
    exact ((reads_long (by omega) levels).bind hmembers).map.rule
  | .choice members, levels + 1, hsize => by
    simp only [rule, List.length_cons, List.length_append, List.cons_append] at hsize ⊢
    have hlength := length_le_length_rules members
    have hmembers := reads_rules members levels (by omega)
    exact ((reads_long (by omega) levels).bind hmembers).map.rule
  | .repetition content min max, levels + 1, hsize => by
    simp only [rule, List.length_cons, List.length_append, List.cons_append, List.append_assoc]
      at hsize ⊢
    have hcontent := reads_rule content levels (by omega)
    have hmax := inverts_option (fun n _ => reads_word n levels) max (by omega)
    exact (hcontent.bind ((reads_word min levels).bind hmax.map)).rule
  | .token content immediate, levels + 1, hsize => by
    simp only [rule, List.length_cons, List.length_append, List.cons_append] at hsize ⊢
    have hcontent := reads_rule content levels (by omega)
    exact (hcontent.bind (reads_bool immediate levels).map).rule
  | .renamed content name named, levels + 1, hsize => by
    simp only [rule, List.length_cons, List.length_append, List.cons_append, List.append_assoc]
      at hsize ⊢
    have hcontent := reads_rule content levels (by omega)
    have hname := inverts_text levels name (by omega)
    exact (hcontent.bind (hname.bind (reads_bool named levels).map)).rule
  | .field name content, levels + 1, hsize => by
    simp only [rule, List.length_cons, List.length_append, List.cons_append] at hsize ⊢
    have hname := inverts_text levels name (by omega)
    have hcontent := reads_rule content levels (by omega)
    exact (hname.bind hcontent.map).rule

/-- The same for expressions one after another. -/
theorem reads_rules : (rs : List Rule) → (levels : Nat) → (rules rs).length < UInt64.size →
    Reads levels (readMany (readRule levels) rs.length) (rules rs) rs
  | [], _, _ => .pure []
  | r :: rs, levels, hsize => by
    simp only [rules, List.length_append] at hsize
    have hr := reads_rule r levels (by omega)
    have hrs := reads_rules rs levels (by omega)
    exact hr.bind hrs.map

end

/-- Every expression is read back, with as much fuel as there are bytes. -/
theorem inverts_anyRule (limit : Nat) : Inverts limit readAnyRule rule := by
  refine fun r hr => ⟨fun _ rest => ?_, fun front behind hsplit hbehind _ => ?_⟩
  · refine (reads_rule r _ hr).returns ?_ rest
    rw [List.length_append]
    omega
  · exact (reads_rule r _ hr).cut front behind hsplit hbehind (Nat.lt_succ_self _)

/-- Every rule is read back with its name. -/
theorem inverts_namedRule (limit : Nat) : Inverts limit readNamedRule namedRule := by
  intro r hr
  rw [namedRule, List.length_append] at hr
  have hname := inverts_text limit r.1 (by omega)
  have hrule := inverts_anyRule limit r.2 (by omega)
  exact hname.bind hrule.map

/-- Every grammar is read back, section after section. -/
theorem inverts_grammar (limit : Nat) : Inverts limit readGrammar Grammar.encode := by
  intro g hg
  simp only [Grammar.encode, List.append_assoc, List.length_append] at hg ⊢
  have hname := inverts_text limit g.name (by omega)
  have hstart := inverts_option (inverts_text limit) g.start (by omega)
  have hrules := inverts_list (inverts_namedRule limit) namedRule_ne_nil g.rules (by omega)
  have hextras := inverts_list (inverts_anyRule limit) rule_ne_nil g.extras (by omega)
  have hinlined := inverts_list (inverts_text limit) text_ne_nil g.inlined (by omega)
  have hsupertypes := inverts_list (inverts_text limit) text_ne_nil g.supertypes (by omega)
  have hword := inverts_option (inverts_text limit) g.word (by omega)
  have hexternals := inverts_list (inverts_anyRule limit) rule_ne_nil g.externals (by omega)
  exact hname.bind <| hstart.bind <| hrules.bind <| hextras.bind <| hinlined.bind <|
    hsupertypes.bind <| hword.bind hexternals.map

end Binary

end Packrat
