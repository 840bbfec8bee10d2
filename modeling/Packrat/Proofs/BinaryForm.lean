import Packrat.Proofs.Grammar.Unambiguous

/-!
# The binary form of a grammar stands for it

The form of a grammar, with anything behind it, is read back as that grammar. A beginning of the
form that lacks something is no form: the bytes are found to end too early. Two grammars have two
forms.
-/

namespace Packrat

open Binary

namespace Grammar

/-- A grammar whose form has so many bytes that their number has 64 bits is read back from its form
and from nothing less. -/
theorem decode_encode_append (g : Grammar) (hsize : g.encode.length < UInt64.size) :
    (∀ rest, decode (g.encode ++ rest) = .ok g) ∧
      (∀ front, front <+: g.encode → front ≠ g.encode → decode front = .error .unexpectedEnd) ∧
      ∀ g' : Grammar, g'.encode = g.encode → g' = g := by
  refine ⟨fun rest => ?_, fun front hfront hne => ?_, fun g' h => encode_injective h⟩
  · have hreads := (inverts_grammar g.encode.length g hsize).returns (Nat.le_refl _) rest
    rw [decode, StateT.run'_eq]
    exact congrArg (Prod.fst <$> ·) hreads
  · obtain ⟨behind, hsplit⟩ := hfront
    have hbehind : behind ≠ [] := by
      rintro rfl
      exact hne (by rw [← hsplit, List.append_nil])
    have hreads := (inverts_grammar (front.length + 1) g hsize).cut front behind hsplit.symm
      hbehind (Nat.lt_succ_self _)
    rw [decode, StateT.run'_eq]
    exact congrArg (Prod.fst <$> ·) hreads

/-- A grammar whose numbers take more than one byte and whose texts have characters of several. -/
def measured : Grammar where
  name := "maße"
  start := some "länge"
  rules := [
    ("länge", .field "wert" (.repetition (.renamed (.token (.literal "ä") true) "zahl" false)
      200 (some 0xffffffff))),
    ("leer", .choice [.symbol "länge", .blank])]
  extras := [.pattern "\\s" none]

/-- A form of several bytes for each number is read back in front of a byte, and not without its
last one. -/
theorem decode_encode_append_measured :
    measured.encode.length < UInt64.size ∧ decode (measured.encode ++ [0xff]) = .ok measured ∧
      decode measured.encode.dropLast = .error .unexpectedEnd := by
  have hlength : measured.encode.length = 76 := by cbv
  have hsize : measured.encode.length < UInt64.size := by rw [hlength]; decide
  obtain ⟨hback, hcut, -⟩ := decode_encode_append measured hsize
  refine ⟨hsize, hback _, hcut _ (List.dropLast_prefix _) fun h => ?_⟩
  have := congrArg List.length h
  rw [List.length_dropLast] at this
  omega

end Grammar

end Packrat
