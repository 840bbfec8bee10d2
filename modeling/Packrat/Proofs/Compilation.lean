import Packrat.Proofs.Guarded.Lowering
import Packrat.Proofs.Program.Computed
import Packrat.Proofs.Program.WellFormed

/-!
# Compilation

Compiling never meets a fault: whatever a grammar is, every look-up is for something that is there,
no expression stands where it must not, and every search ends before its last level. What comes out
is an error, or a program whose numbers and operations are as an engine needs them.
-/

namespace Packrat

/-- Compiling a grammar meets no fault, and its program, if there is one, is well formed. -/
theorem Compiler.compile_safe (c : Compiler) (g : Grammar) :
    Guarded.compile c g = Guarded.lift (c.compile g) ∧
      ∀ p warnings, c.compile g = .ok (p, warnings) → p.WellFormed := by
  refine ⟨c.compile_guarded g, fun p warnings hcompile => ?_⟩
  obtain ⟨analysis, hanalysis, hcompile⟩ := Except.of_bind_ok hcompile
  obtain ⟨program, hprogram, hcompile⟩ := Except.of_bind_ok hcompile
  cases hcompile
  exact Analysed.wellFormed_of_program (Grammar.checked_of_analyze hanalysis).start_lt hprogram

/-- A grammar with a call and a repetition under other names, a rule that is a single terminal, and
an extra. -/
def Grammar.entries : Grammar where
  name := "entries"
  start := some "item"
  rules := [
    ("list", .seq [.symbol "item", .repetition (.seq [.literal ",", .symbol "item"]) 0 none]),
    ("item", .choice [.renamed (.symbol "pair") "entry" true, .symbol "mark",
      .renamed (.repetition (.literal "y") 1 none) "run" true]),
    ("pair", .seq [.literal "(", .symbol "item", .literal ")"]),
    ("mark", .token (.literal "#") true)]
  extras := [.literal " "]

/-- What its analysis tells with another start rule. -/
def Analysis.entries : Analysis where
  start := 0
  nullable := [false, false, false, false]
  lexical := [false, false, false, true]
  reachable := [true, true, true, true]
  warnings := []

/-- The program of this grammar, in which skipping stops at marks and at semicolons. -/
def Program.entries : Program where
  name := "entries"
  kinds := #[.error, .skipped, ⟨"list", true, .node⟩, ⟨"item", true, .node⟩,
    ⟨"pair", true, .node⟩, ⟨"mark", true, .token⟩, ⟨",", false, .token⟩, ⟨"entry", true, .node⟩,
    ⟨"y", false, .token⟩, ⟨"run", true, .node⟩, ⟨"(", false, .token⟩, ⟨")", false, .token⟩,
    ⟨" ", false, .token⟩]
  rules := #[⟨"list", 2, .seq [.call 1 none,
      .repetition (.seq [.token 0 6 false, .call 1 none]) 0 none], false, false, false⟩,
    ⟨"item", 3, .choice [.call 2 (some 7), .token 1 5 true,
      .wrap (.repetition (.token 2 8 false) 1 none) 9], false, false, false⟩,
    ⟨"pair", 4, .seq [.token 3 10 false, .call 1 none, .token 4 11 false], false, false, false⟩,
    ⟨"mark", 5, .token 1 5 true, false, false, true⟩]
  terminals := #[.literal ",", .literal "#", .literal "y", .literal "(", .literal ")",
    .literal " ", .literal ";"]
  extras := [(5, 12)]
  sync := [1, 6]
  start := 0
  fingerprint := Analysed.fingerprint ⟨.entries, .entries⟩

/-- The grammar of the example compiles to the program given for it. -/
theorem Compiler.compile_entries :
    compile ⟨some "list", ["mark", ";"]⟩ .entries = .ok (.entries, []) := by
  have hanalysis : Grammar.entries.analyze (some "list") = .ok .entries := rfl
  have hprogram : Analysed.program ⟨.entries, .entries⟩ ["mark", ";"] = _ := Analysed.program_eq
    (l := ⟨Program.entries.kinds.toList, [.literal ",", .literal "#", .literal "y", .literal "(",
      .literal ")", .literal " ", .literal ";"], Program.entries.terminals.toList⟩) rfl
  simp only [compile, hanalysis, bind, Except.bind]
  rw [hprogram]
  rfl

/-- The grammar compiles to this program, and the program is well formed. -/
theorem Compiler.compile_safe_entries :
    compile ⟨some "list", ["mark", ";"]⟩ .entries = .ok (.entries, []) ∧
      Program.entries.WellFormed :=
  ⟨compile_entries, (compile_safe ⟨some "list", ["mark", ";"]⟩ .entries).2 _ _ compile_entries⟩

end Packrat
