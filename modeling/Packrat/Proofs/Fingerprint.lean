import Packrat.Proofs.Checksum
import Packrat.Proofs.Grammar.Checked
import Packrat.Proofs.Grammar.Unambiguous
import Packrat.Proofs.Lossless
import Packrat.Proofs.Program.Computed

/-!
# Results of other programs

A program is told from another one by a checksum of its grammar and its start rule. Parsing an
edited text again, with a result that a program of another grammar or start rule made, is parsing
it afresh, unless the two have one checksum; then more than four adjacent bytes are not the same.
-/

namespace Packrat

namespace Grammar

variable {g g' : Grammar}

/-- What the programs of a grammar with one start rule are known by. -/
def identity (g : Grammar) (start : Nat) : List UInt8 :=
  g.encode ++ (g.ruleName start).toUTF8.data.toList

/-- The start rule is the first one of its name. -/
theorem number?_of_analyze {name : Option String} {a : Analysis} (h : g.analyze name = .ok a) :
    g.number? (g.ruleName a.start) = some a.start := by
  obtain ⟨rule, hstart⟩ := (accepted_of_analyze h).start
  rw [(of_number? hstart).2, hstart]

/-- A grammar and the name of a rule are known by their bytes. -/
theorem of_identity_eq {start start' : Nat} (h : g.identity start = g'.identity start') :
    g = g' ∧ g.ruleName start = g'.ruleName start' := by
  obtain ⟨hgrammar, hname⟩ := unambiguous_encode _ _ _ _ h
  exact ⟨hgrammar, String.toByteArray_inj.mp (ByteArray.ext (Array.toList_inj.mp hname))⟩

end Grammar

namespace Program.CompiledFrom

variable {p q : Program} {g g' : Grammar} {start start' : Nat}

/-- The fingerprint of a program is the checksum of its grammar and its start rule. -/
theorem fingerprint_eq (h : p.CompiledFrom g start) : p.fingerprint = crc32 (g.identity start) := by
  obtain ⟨name, analysis, sync, -, hprogram, hstart⟩ := h.exists_analysis
  obtain ⟨t, -, hprogram⟩ := Except.of_bind_ok hprogram
  cases hprogram
  rw [← hstart]
  rfl

/-- The name of the start rule stands for it. -/
theorem number?_eq (h : p.CompiledFrom g start) : g.number? (g.ruleName start) = some start := by
  obtain ⟨name, analysis, sync, hanalysis, -, rfl⟩ := h.exists_analysis
  exact Grammar.number?_of_analyze hanalysis

/-- Programs of one identity are of one grammar and one start rule. -/
theorem of_identity_eq (hp : p.CompiledFrom g start) (hq : q.CompiledFrom g' start')
    (h : g.identity start = g'.identity start') : g = g' ∧ start = start' := by
  obtain ⟨rfl, hname⟩ := Grammar.of_identity_eq h
  have hnumber := hp.number?_eq
  rw [hname, hq.number?_eq] at hnumber
  exact ⟨rfl, (Option.some.inj hnumber).symm⟩

end Program.CompiledFrom

/-- Whether two byte strings are taken for one another. -/
structure Clash (a b : List UInt8) : Prop where
  ne : a ≠ b
  checksum : crc32 a = crc32 b
  /-- They differ in more than four adjacent bytes. -/
  apart : ∀ front mid mid' behind, a = front ++ mid ++ behind → b = front ++ mid' ++ behind →
    mid.length = mid'.length → 4 < mid.length

/-- Distinct bytes with one checksum clash, since four adjacent bytes are not all that differs. -/
theorem clash_of_crc32_eq {a b : List UInt8} (hne : a ≠ b) (h : crc32 a = crc32 b) : Clash a b where
  ne := hne
  checksum := h
  apart front mid mid' behind ha hb hlength := by
    subst ha hb
    by_contra hfour
    exact hne (by rw [eq_of_crc32_eq h hlength (Nat.le_of_not_lt hfour)])

example : crc32 (Grammar.identity { name := "talicare", rules := [("s", .literal "a")] } 0) =
    crc32 (Grammar.identity { name := "femiteca", rules := [("s", .literal "b")] } 0) := by
  cbv

/-- Whether a program made a result for a text, be it by parsing an edited text again, whatever
programs made the results before. -/
inductive Program.Makes (q : Program) : Parsed → (text : String) → Prop where
  | parse (o : ParseOptions) {text : String} (hsize : text.utf8ByteSize < UInt32.size) :
    q.Makes (q.parse o text) text
  | traced (o : ParseOptions) {text : String} (hsize : text.utf8ByteSize < UInt32.size) :
    q.Makes (q.parseTraced o text) text
  | reparse (o : ParseOptions) {old new : Parsed} {before after : String} {edit : Edit}
    (hold : Produced (fun _ => True) old before)
    (happly : edit.apply (Text.ofString before) = .ok after)
    (hsize : after.utf8ByteSize < UInt32.size) (hnew : q.reparse o old edit = .ok new) :
    q.Makes new after

namespace Program

variable {p q : Program} {g g' : Grammar} {start start' : Nat} {o : ParseOptions} {old : Parsed}
  {before after : String} {edit : Edit}

/-- What is made of a text has this text. -/
theorem Makes.text_eq (h : q.Makes old before) : old.text = before := by
  have hproduced : Produced (fun _ => True) old before := by
    cases h with
    | parse o hsize => exact .parse o trivial hsize
    | traced o hsize => exact .traced o trivial hsize
    | reparse o hold happly hsize hnew => exact .reparse o trivial hold happly hsize hnew
  exact hproduced.text_eq

/-- What a program makes has the fingerprint of the program. -/
theorem Makes.fingerprint_eq (h : q.Makes old before) : old.fingerprint = q.fingerprint := by
  cases h with
  | parse => rfl
  | traced => rfl
  | reparse o hold happly hsize hnew =>
    obtain ⟨_, -, rfl⟩ := reparse_eq_ok.mp hnew
    rfl

/-- Parsing an edited text again with the result that a program of another grammar or start rule
made is parsing it afresh, unless the checksums of the two are the same. -/
theorem reparse_foreign (hp : p.CompiledFrom g start) (hq : q.CompiledFrom g' start')
    (hne : g ≠ g' ∨ start ≠ start') (hold : q.Makes old before)
    (happly : edit.apply (Text.ofString before) = .ok after) :
    p.reparse o old edit = .ok (p.parse o after) ∨
      Clash (g.identity start) (g'.identity start') := by
  have hidentity : g.identity start ≠ g'.identity start' := by
    intro hsame
    obtain ⟨hgrammar, hstart⟩ := hp.of_identity_eq hq hsame
    rcases hne with hne | hne
    · exact hne hgrammar
    · exact hne hstart
  by_cases hchecksum : crc32 (g.identity start) = crc32 (g'.identity start')
  · exact .inr (clash_of_crc32_eq hidentity hchecksum)
  · have hfingerprint : old.fingerprint ≠ p.fingerprint := by
      rw [hold.fingerprint_eq, hq.fingerprint_eq, hp.fingerprint_eq]
      exact Ne.symm hchecksum
    refine .inl (reparse_eq_ok.mpr ⟨after, ?_, ?_⟩)
    · rw [hold.text_eq, happly]
    · rw [if_neg hfingerprint]
      rfl

/-- The result of another grammar is not used: the letters after an edit are parsed afresh. -/
theorem reparse_foreign_letters :
    letters.reparse {} (hoisting.parse {} "aa") (.insertion 1 "b") =
      .ok (letters.parse {} "aba") := by
  have hold : hoisting.Makes (hoisting.parse {} "aa") "aa" := .parse {} (by decide)
  have hchecksum : (crc32 (Analysed.letters.grammar.identity 0) ==
      crc32 (Grammar.hoisting.identity 0)) = false := by cbv
  refine (reparse_foreign letters_compiledFrom hoisting_compiledFrom (.inl (by decide)) hold
    rfl).resolve_right fun hclash => ?_
  rw [hclash.checksum, beq_self_eq_true] at hchecksum
  cases hchecksum

end Program

end Packrat
