import Packrat.Proofs.LongestMatch
import Packrat.Proofs.Memoization
import Packrat.Proofs.Parse.Reached
import Packrat.Proofs.Strict.Extent

/-!
# Terminals and calls depend on what they looked at

What a terminal finds depends on the stretch of the text that it looked at, with the byte before
it, and on nothing behind it. So does what a rule comes to without recovery. In another text that
has the same bytes there, at the same or at another position, both come to the same: the rule takes
the same trees, fails in the same place and looks at the same stretch, all of it moved. So a kept
result can be used wherever its stretch stands.
-/

namespace Packrat

/-- The position that lies as far behind `p'` as another one lies behind `p`. -/
def shift (p p' q : Nat) : Nat := p' + (q - p)

section Terminals

variable {old new : Text} {p p' stop : Nat}

/-- Texts that share a stretch have the same byte before it. -/
theorem Automaton.byteBefore?_of_sharesAt (h : old.SharesAt new p p' stop) :
    byteBefore? new p' = byteBefore? old p := by
  have hstart := h.start
  cases p with
  | zero =>
    obtain rfl : p' = 0 := hstart.mpr rfl
    rfl
  | succ p =>
    cases p' with
    | zero => exact absurd (hstart.mp rfl) (Nat.succ_ne_zero p)
    | succ p' => exact h.before (Nat.succ_pos p)

/-- An automaton that looks no further finds the same. -/
theorem Automaton.scanAt_of_sharesAt {d : Automaton} (h : old.SharesAt new p p' stop)
    (hp : p ≤ old.size) (hstop : p + (d.scanAt old p).reach = stop) :
    d.scanAt new p' = d.scanAt old p := by
  unfold scanAt at hstop ⊢
  rw [byteBefore?_of_sharesAt h]
  cases hstart : d.start? (byteBefore? old p) with
  | none => rfl
  | some state =>
    simp only [hstart] at hstop ⊢
    have hreach := (d.reach_walk 0 none state (old.bytes.drop p)).2
    rw [List.length_drop, Text.length_bytes] at hreach
    exact walk_of_take (h.take_bytes (by omega)) (by omega)

/-- Whether a scan in another text finds the same as a scan did, and looked as far behind its
position. -/
structure Scan.Recurs (scan : Scan) (p : Nat) (scan' : Scan) (p' : Nat) : Prop where
  length : scan'.length = scan.length
  stop : p' + scan'.reach = shift p p' (p + scan.reach)

/-- A scan that comes to the same at another place recurs there. -/
theorem Scan.Recurs.of_eq {scan scan' : Scan} (h : scan' = scan) : scan.Recurs p scan' p' :=
  ⟨congrArg _ h, by rw [h, shift, Nat.add_sub_cancel_left]⟩

/-- A scan for a terminal that looked at a text up to `stop` finds the same in every other text with
the same bytes up to there, behind the same byte or at the start too, if that text ends where the
first one does in case the scan looked at the end. The same holds of every automaton. -/
theorem Terminal.scanAt_elsewhere (hp : old.isBoundary p = true) (hp' : new.isBoundary p' = true)
    (hstart : p = 0 ↔ p' = 0) (hbefore : 0 < p → new.bytes[p' - 1]? = old.bytes[p - 1]?)
    (hbytes : ∀ i, p + i < min stop old.size → new.bytes[p' + i]? = old.bytes[p + i]?)
    (hends : stop = old.size + 1 → p' + (old.size - p) = new.size) :
    (∀ t : Terminal, p + (t.scanAt old p).reach = stop →
      (t.scanAt old p).Recurs p (t.scanAt new p') p') ∧
    ∀ d : Automaton, p + (d.scanAt old p).reach = stop →
      (d.scanAt old p).Recurs p (d.scanAt new p') p' := by
  have hle : p ≤ old.size := Text.le_size_of_isBoundary hp
  have hshares : old.SharesAt new p p' stop := .of_ends hle hstart hbefore hbytes hends
  constructor
  · intro t hstop
    have hend : stop ≤ old.size + 1 := hstop ▸ reach_scanAt_le hp
    have hlooks := hshares.looksLike hp hp' hend
    have hscan := hlooks.scanAt (Nat.le_refl p) hp (Nat.le_of_eq hstop)
    rw [Nat.sub_self, Nat.add_zero] at hscan
    exact .of_eq hscan
  · exact fun d hstop => .of_eq (Automaton.scanAt_of_sharesAt hshares hle hstop)

/-- A letter is missed at the first byte of another one, and what follows that byte is not looked
at; behind two letters the end of the text is looked at. -/
theorem Terminal.scanAt_elsewhere_letters :
    (∀ t ∈ [literal "a", pattern ⟨"a", .chars (.singleton 'a')⟩],
      t.scanAt (.ofString "-é") 1 = ⟨none, 1⟩ ∧
        (Scan.mk none 1).Recurs 1 (t.scanAt (.ofString "x-ñb") 2) 2) ∧
    (literal "aaa").scanAt (.ofString "éaa") 2 = ⟨none, 3⟩ ∧
    (Scan.mk none 3).Recurs 2 ((literal "aaa").scanAt (.ofString "xéaa") 3) 3 ∧
    letterAutomaton.scanAt (.ofString "éaa") 2 = ⟨some 1, 3⟩ ∧
    (Scan.mk (some 1) 3).Recurs 2 (letterAutomaton.scanAt (.ofString "xéaa") 3) 3 := by
  have hmissed : ∀ t ∈ [literal "a", pattern ⟨"a", .chars (.singleton 'a')⟩],
      t.scanAt (.ofString "-é") 1 = ⟨none, 1⟩ := by decide +kernel
  have hshort : (literal "aaa").scanAt (.ofString "éaa") 2 = ⟨none, 3⟩ := by decide +kernel
  have hread : letterAutomaton.scanAt (.ofString "éaa") 2 = ⟨some 1, 3⟩ := rfl
  have hbytes : ∀ i < 1,
      (Text.ofString "x-ñb").bytes[2 + i]? = (Text.ofString "-é").bytes[1 + i]? := by
    decide +kernel
  have hbytes' : ∀ i < 2,
      (Text.ofString "xéaa").bytes[3 + i]? = (Text.ofString "éaa").bytes[2 + i]? := by
    decide +kernel
  have hsize : (Text.ofString "éaa").size = 4 := rfl
  have hinside := @scanAt_elsewhere (.ofString "-é") (.ofString "x-ñb") 1 2 2 (by decide +kernel)
    (by decide +kernel) (by decide) (fun _ => by decide +kernel) (fun i hi => hbytes i (by omega))
    (fun hstop => absurd hstop (by decide +kernel))
  have hend := @scanAt_elsewhere (.ofString "éaa") (.ofString "xéaa") 2 3 5 (by decide +kernel)
    (by decide +kernel) (by decide) (fun _ => by decide +kernel) (fun i hi => hbytes' i (by omega))
    (fun _ => by decide +kernel)
  refine ⟨fun t ht => ⟨hmissed t ht, ?_⟩, hshort, ?_, hread, ?_⟩
  · rw [← hmissed t ht]
    exact hinside.1 t (congrArg (1 + ·.reach) (hmissed t ht))
  · rw [← hshort]
    exact hend.1 _ (congrArg (2 + ·.reach) hshort)
  · rw [← hread]
    exact hend.2 _ (congrArg (2 + ·.reach) hread)

end Terminals

namespace Program.CompiledFrom

variable {grammar : Grammar} {start : Nat} {g : Program}

/-- Without recovery a rule, in a parse that goes on, looks at a stretch that begins at its position
and ends at most one byte behind the text. If another text shares the bytes of that stretch, then
every call of the rule there without recovery, in whatever state and with whatever limits, takes the
same trees and has the same end, furthest failure and stretch, all of them moved, as long as the
parse goes on. And it does go on if operations may nest deeply enough and nothing else limits it. -/
theorem call_elsewhere (hg : g.CompiledFrom grammar start) {c : Setting} (hc : c.program = g)
    (hstrict : c.recovering = false) {s s' : State}
    (hs : Reached (CompiledFrom grammar start) g c.text c.points s) {d rule p : Nat}
    (hp : c.text.isBoundary p = true) {a : Answer}
    (hcall : runRule (evaluate d) c rule p s = (a, s')) (hlive : s'.halted = none) :
    (p ≤ a.notes.reach ∧ a.notes.reach ≤ c.text.size + 1 ∧
      (∀ t, a.taken = some t → p ≤ t.stop ∧ t.errors = []) ∧
      ∀ f, a.notes.far = some f → p ≤ f.position) ∧
    ∀ (other : Text) (p' : Nat), other.isBoundary p' = true →
      c.text.SharesAt other p p' a.notes.reach →
      (∀ (c' : Setting) (d' : Nat) (u : State) (b : Answer) (u' : State), c'.program = g →
        c'.text = other → c'.recovering = false →
        Reached (CompiledFrom grammar start) g c'.text c'.points u →
        runRule (evaluate d') c' rule p' u = (b, u') → u'.halted = none →
        b.taken = a.taken.map (Taken.move (shift p p')) ∧
        b.notes.far = a.notes.far.map (Failure.move (shift p p')) ∧
        b.notes.reach = shift p p' a.notes.reach) ∧
      ∃ depth, ∀ (c' : Setting) (d' : Nat) (u : State), c'.program = g → c'.text = other →
        c'.recovering = false → Reached (CompiledFrom grammar start) g c'.text c'.points u →
        u.Unlimited → depth ≤ d' → (runRule (evaluate d') c' rule p' u).2.halted = none := by
  obtain ⟨hfits, hquiet⟩ := hs.call_derived hg hc hp hcall hlive
  have hderives := hquiet (Setting.quiet_of_strict hstrict)
  have hle : p ≤ a.notes.reach := hderives.le_reach_of_rule
  have hend : a.notes.reach ≤ c.text.size + 1 := hderives.reach_le hp
  constructor
  · refine ⟨hle, hend, fun t ht => ⟨hfits.le ht, ?_⟩, fun f hf => (hfits.far f hf).1⟩
    exact (hfits.quiet (Setting.quiet_of_strict hstrict) t ht).2
  intro other p' hp' hshares
  have hlooks : c.text.LooksLike other (shift p p') p a.notes.reach :=
    hshares.looksLike hp hp' hend
  have hstart : shift p p' p = p' := by simp [shift]
  obtain ⟨b₀, hb₀, hmoved⟩ : ∃ b, Derives g other (fun _ => True) (.rule rule) (shift p p' p) b ∧
      a.plain.Moved (shift p p') p b :=
    hderives.carry (hg.alike hg) hlooks (fun _ _ _ _ _ _ => trivial) hp (Nat.le_refl p) hle
      (Nat.le_refl _) trivial
  rw [hstart] at hb₀
  constructor
  · intro c' d' u b u' hc' htext hstrict' hu hcall' hlive'
    subst htext
    have hderives' :=
      (hu.call_derived hg hc' hp' hcall' hlive').2 (Setting.quiet_of_strict hstrict')
    have hsame : b.plain = b₀ := hderives'.unique hb₀
    have hreach : b.notes.reach = b₀.notes.reach := congrArg (·.notes.reach) hsame
    refine ⟨(congrArg (·.taken) hsame).trans hmoved.taken,
      (congrArg (·.notes.far) hsame).trans hmoved.far, ?_⟩
    have hle' : p' ≤ b.notes.reach := hderives'.le_reach_of_rule
    have hseen := hmoved.reach p (Nat.le_refl p)
    rw [hstart, ← hreach, Nat.max_eq_right hle'] at hseen
    exact hseen.trans (congrArg (shift p p') (Nat.max_eq_right hle))
  · obtain ⟨depth, hends⟩ := hb₀.exists_endsIn hp'
    refine ⟨depth, ?_⟩
    intro c' d' u hc' htext hstrict' hu hfree hd
    rw [htext] at hu
    have hunhindered : Unhindered g other c' u :=
      ⟨hc', htext, hstrict', hfree, hu.sound hg hfree.live⟩
    have hrun : Run c' d' (.rule rule) p' u _ _ := run_iff.mpr (runJob_rule_eq.mpr rfl)
    exact (hends true 0 c' d' u _ _ hunhindered hd hrun).live

/-- A round without recovery on a text, with nothing kept. -/
def plainSetting (text : String) : Setting where
  program := letters
  text := .ofString text
  memoize := false
  points := []
  recovering := false

/-- Two letters in front of another one, in the middle of two texts. -/
theorem call_elsewhere_letters :
    (∃ s', runRule (evaluate 8) (plainSetting "baab") 0 1 ⟨{}, none, none, none, none⟩ =
        (⟨some { stop := 3, trees := [.leaf 3 "a", .leaf 3 "a"] }, ⟨some ⟨3, [3]⟩, some 3, 4⟩⟩,
          s') ∧ s'.halted = none) ∧
    (Text.ofString "baab").SharesAt (.ofString "ccbaabaa") 1 3 4 ∧
    ∀ (c : Setting) (d : Nat) (u : State) (b : Answer) (u' : State), c.program = letters →
      c.text = .ofString "ccbaabaa" → c.recovering = false →
      Reached (CompiledFrom Analysed.letters.grammar 0) letters c.text c.points u →
      runRule (evaluate d) c 0 3 u = (b, u') → u'.halted = none →
      b.taken = some { stop := 5, trees := [.leaf 3 "a", .leaf 3 "a"] } ∧
        b.notes.far = some ⟨5, [3]⟩ ∧ b.notes.reach = 6 := by
  obtain ⟨s', hcall, hlive⟩ : ∃ s', runRule (evaluate 8) (plainSetting "baab") 0 1
      ⟨{}, none, none, none, none⟩ =
        (⟨some { stop := 3, trees := [.leaf 3 "a", .leaf 3 "a"] }, ⟨some ⟨3, [3]⟩, some 3, 4⟩⟩,
          s') ∧ s'.halted = none :=
    ⟨_, Prod.ext (by decide +kernel) rfl, by decide +kernel⟩
  have hshares : (Text.ofString "baab").SharesAt (.ofString "ccbaabaa") 1 3 4 := by
    refine ⟨by decide, fun _ => by decide +kernel, fun i hi _ => ?_, fun hend => ?_⟩
    · have hbytes : ∀ i < 3, (Text.ofString "ccbaabaa").bytes[3 + i]? =
          (Text.ofString "baab").bytes[1 + i]? := by decide +kernel
      exact hbytes i (by omega)
    · exact absurd hend (by decide +kernel)
  refine ⟨⟨s', hcall, hlive⟩, hshares, ?_⟩
  obtain ⟨-, hmoves⟩ := call_elsewhere letters_compiledFrom (c := plainSetting "baab") rfl rfl
    (.fresh _ _ _ _) (by decide +kernel) hcall hlive
  exact (hmoves _ 3 (by decide +kernel) hshares).1

end Program.CompiledFrom

end Packrat
