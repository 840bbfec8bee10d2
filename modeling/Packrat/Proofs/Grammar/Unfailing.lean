import Packrat.Proofs.Grammar.Interpretation
import Packrat.Proofs.Terminal.Scan
import Packrat.Regex.Pattern

/-!
# What never fails

An expression that can match nothing need not match wherever it is tried: a pattern may look at what
stands around it, and a repetition that takes nothing in an iteration ends there, although it may
have to have more of them. Without these, what can match nothing matches at every boundary of every
text.
-/

namespace Packrat

namespace Regex

/-- An expression that asks nothing about neighbours and has a match of the least length zero
matches nothing between any of them. -/
theorem matchesEmpty_of_isNullable {r : Regex} (hlook : r.isLookFree = true)
    (h : r.isNullable = true) (before after : Neighbour) : r.matchesEmpty before after = true := by
  have hzero : r.minLength? = some 0 := by simpa [isNullable] using h
  clear h
  induction r with
  | empty => rfl
  | look => cases hlook
  | chars s =>
    simp only [minLength?] at hzero
    split at hzero <;> cases hzero
  | seq a b iha ihb =>
    obtain ⟨ha, hb⟩ := Bool.and_eq_true_iff.mp hlook
    obtain ⟨i, hi, hzero⟩ := Option.bind_eq_some_iff.mp hzero
    obtain ⟨j, hj, hzero⟩ := Option.bind_eq_some_iff.mp hzero
    have hsum : i + j = 0 := Option.some.inj hzero
    obtain ⟨rfl, rfl⟩ : i = 0 ∧ j = 0 := by omega
    exact Bool.and_eq_true_iff.mpr ⟨iha ha hi, ihb hb hj⟩
  | alt a b iha ihb =>
    obtain ⟨ha, hb⟩ := Bool.and_eq_true_iff.mp hlook
    obtain ⟨i, hi, hzero⟩ := Option.bind_eq_some_iff.mp hzero
    obtain ⟨j, hj, hzero⟩ := Option.bind_eq_some_iff.mp hzero
    have hmin : min i j = 0 := Option.some.inj hzero
    rcases Nat.min_eq_zero_iff.mp hmin with rfl | rfl
    · exact Bool.or_eq_true_iff.mpr (.inl (iha ha hi))
    · exact Bool.or_eq_true_iff.mpr (.inr (ihb hb hj))
  | rep body least most ih =>
    obtain ⟨i, hi, hzero⟩ := Option.bind_eq_some_iff.mp hzero
    have hproduct : i * least = 0 := Option.some.inj hzero
    rcases Nat.mul_eq_zero.mp hproduct with rfl | rfl
    · exact Bool.or_eq_true_iff.mpr (.inr (ih hlook hi))
    · rfl

/-- A scan that has found a match does not lose it. -/
theorem scanFrom_isSome {states : List Regex} {before : Neighbour} {offset : Nat}
    {last : Option Nat} {rest : List Char} (h : last.isSome = true) :
    (scanFrom states before offset last rest).length.isSome = true := by
  induction rest generalizing states before offset last with
  | nil =>
    rw [scanFrom]
    split
    · rfl
    · exact h
  | cons c cs ih =>
    have hlast : (if states.any (·.matchesEmpty before (.ofChar c)) then some offset
        else last).isSome = true := by
      split
      · rfl
      · exact h
    rw [scanFrom]
    split
    · exact hlast
    · exact ih hlast

/-- Where nothing is matched between any neighbours, a scan finds a match. -/
theorem scan_isSome {r : Regex} (h : ∀ before after, r.matchesEmpty before after = true)
    (before : Option Char) (rest : List Char) : (r.scan before rest).length.isSome = true := by
  cases rest with
  | nil => simp [scan, scanFrom, h]
  | cons c cs =>
    simp only [scan, scanFrom, List.any_cons, List.any_nil, h, Bool.or_false, if_true]
    split
    · rfl
    · exact scanFrom_isSome rfl

end Regex

namespace Terminal

/-- Whether a terminal matches at every boundary of every text. -/
def AlwaysMatches (t : Terminal) : Prop :=
  ∀ (text : Text) (p : Nat), text.isBoundary p = true → (t.scanAt text p).length.isSome = true

/-- A pattern that can match nothing and asks nothing about neighbours always matches. -/
theorem alwaysMatches_pattern {p : Pattern} (hlook : p.regex.isLookFree = true)
    (h : p.regex.isNullable = true) : (pattern p).AlwaysMatches := by
  intro text q hq
  obtain ⟨xs, ys, hsplit⟩ := Text.isBoundary_iff.mp hq
  rw [scanAt, hsplit.spot?]
  exact Regex.scan_isSome (Regex.matchesEmpty_of_isNullable hlook h) _ _

end Terminal

/-- What is skipped ends at a boundary. -/
theorem Skips.isBoundary {extras : List (Terminal × Kind)} {text : Text} {p : Nat} {m : Matched}
    (h : Skips extras text p m) (hp : text.isBoundary p = true) :
    text.isBoundary m.stop = true := by
  induction h with
  | done => exact hp
  | @next p n kind m first _ ih =>
    obtain ⟨extra, -, hextra⟩ := List.exists_of_findSome?_eq_some first
    split at hextra
    · rename_i hlength
      cases hextra
      exact ih (Terminal.isBoundary_of_scanAt_length hlength).2
    · cases hextra

/-- A repetition that ends at a boundary takes a match that stops there. -/
theorem Matched.isBoundary_ended {text : Text} {least count q : Nat}
    (hq : text.isBoundary q = true) :
    ∀ m ∈ ended least count q, text.isBoundary m.stop = true := by
  intro m hm
  unfold Matched.ended at hm
  split at hm
  · cases hm
  · cases hm
    exact hq

namespace Grammar

variable {g : Grammar} {start : Nat} {text : Text} {p : Nat} {m : Option Matched} {r : Rule}
  {terminal : Rule} {kind : Kind}

/-- Single terminals are tried at boundaries, and what they take ends at one. -/
theorem Takes.exists_tried (h : g.Takes start text terminal kind p m)
    (hp : text.isBoundary p = true) : ∃ t q, terminal.terminal? = some t ∧
      text.isBoundary q = true ∧ m.map Matched.stop = (t.scanAt text q).length.map (q + ·) := by
  obtain ⟨t, before, ht, hbefore, rfl⟩ := h
  refine ⟨t, before.stop, ht, ?_, ?_⟩
  · split at hbefore
    · rw [hbefore]
      exact hp
    · exact hbefore.isBoundary hp
  · rw [Option.map_map]
    rfl

/-- What is matched from a boundary on ends at one. -/
theorem Interprets.isBoundary {part : Part} (h : g.Interprets start text part p m)
    (hp : text.isBoundary p = true) : ∀ found ∈ m, text.isBoundary found.stop = true := by
  induction h with
  | blank =>
    rintro _ ⟨⟩
    exact hp
  | terminal _ takes =>
    rintro found ⟨⟩
    obtain ⟨t, q, -, -, hstop⟩ := takes.exists_tried hp
    obtain ⟨n, hn, hstop⟩ := Option.map_eq_some_iff.mp hstop.symm
    rw [← hstop]
    exact (Terminal.isBoundary_of_scanAt_length hn).2
  | @reference _ _ kind _ _ _ _ ih =>
    intro found hfound
    obtain ⟨inner, rfl, rfl⟩ := Option.map_eq_some_iff.mp hfound
    cases kind <;> exact ih hp inner rfl
  | renamed _ _ _ ih =>
    intro found hfound
    obtain ⟨inner, rfl, rfl⟩ := Option.map_eq_some_iff.mp hfound
    exact ih hp inner rfl
  | field _ ih => exact ih hp
  | members _ ih => exact ih hp
  | alternatives _ ih => exact ih hp
  | repetition _ ih => exact ih hp
  | seqNil =>
    rintro _ ⟨⟩
    exact hp
  | seqTook _ _ ihhead ihtail =>
    intro found hfound
    obtain ⟨rest, rfl, rfl⟩ := Option.map_eq_some_iff.mp hfound
    exact ihtail (ihhead hp _ rfl) rest rfl
  | seqFailed => nofun
  | choiceNil => nofun
  | choiceTook _ ih => exact ih hp
  | choiceNext _ _ _ ihtail => exact ihtail hp
  | enough => exact Matched.isBoundary_ended hp
  | idleIteration => exact Matched.isBoundary_ended hp
  | nextIteration _ _ _ _ ihhead ihtail =>
    intro found hfound
    obtain ⟨rest, rfl, rfl⟩ := Option.map_eq_some_iff.mp hfound
    exact ihtail (ihhead hp _ rfl) rest rfl
  | lastIteration => exact Matched.isBoundary_ended hp

/-- `g.Unfailing r` says that an expression has a finite derivation of nothing from terminals that
always match, in which every repetition may be left out. -/
inductive Unfailing (g : Grammar) : Rule → Prop
  | blank : Unfailing g .blank
  | terminal {r t} (leaf : r.isLeaf = true) (known : r.terminal? = some t)
      (always : t.AlwaysMatches) : Unfailing g r
  | symbol {name i} (number : g.number? name = some i) (body : Unfailing g (g.body i)) :
      Unfailing g (.symbol name)
  | seq {rs} (each : ∀ r ∈ rs, Unfailing g r) : Unfailing g (.seq rs)
  | choice {r rs} (member : r ∈ rs) (one : Unfailing g r) : Unfailing g (.choice rs)
  | repetition {r max} : Unfailing g (.repetition r 0 max)
  | renamed {r name named} (content : Unfailing g r) : Unfailing g (.renamed r name named)
  | field {r name} (content : Unfailing g r) : Unfailing g (.field name r)

namespace Unfailing

/-- What never fails never fails without its wrappers. -/
theorem unwrapped (h : g.Unfailing r) : g.Unfailing r.unwrapped := by
  fun_induction Rule.unwrapped r with
  | case1 _ _ ih =>
    cases h with
    | terminal leaf => cases leaf
    | field content => exact ih content
  | case2 => exact h

/-- What refers to a rule never fails only if the body of the rule does not. -/
theorem body {name : String} {i : Nat} (h : g.Unfailing r) (hr : r.unwrapped = .symbol name)
    (hi : g.number? name = some i) : g.Unfailing (g.body i) := by
  have hsymbol := h.unwrapped
  rw [hr] at hsymbol
  cases hsymbol with
  | terminal leaf => cases leaf
  | symbol number body =>
    cases number.symm.trans hi
    exact body

/-- A single terminal that never fails always matches. -/
theorem exists_terminal (h : g.Unfailing r) (hr : r.isTerminal = true) :
    ∃ t, r.terminal? = some t ∧ t.AlwaysMatches := by
  have hinner := h.unwrapped
  rw [← Rule.isTerminal_unwrapped] at hr
  rw [← Rule.terminal?_unwrapped]
  generalize hunwrapped : r.unwrapped = inner at hinner hr
  cases hinner with
  | terminal _ known always => exact ⟨_, known, always⟩
  | field => exact absurd hunwrapped (r.unwrapped_ne_field _ _)
  | _ => cases hr

/-- A terminal that never fails always matches. -/
theorem takenAs (h : g.Unfailing r) (leaf : g.TakenAs start r terminal kind) :
    ∃ t, terminal.terminal? = some t ∧ t.AlwaysMatches := by
  cases leaf with
  | own single => exact h.exists_terminal (Rule.isTerminal_of_isLeaf single)
  | lexical number lexical =>
    exact (h.body rfl number).exists_terminal (isTerminal_of_isLexical lexical)
  | renamed single =>
    cases h with
    | terminal leaf => cases leaf
    | renamed content => exact content.exists_terminal single
  | renamedLexical symbol number lexical =>
    cases h with
    | terminal leaf => cases leaf
    | renamed content =>
      exact (content.body symbol number).exists_terminal (isTerminal_of_isLexical lexical)

/-- A rule that is referred to by what never fails has a body that never fails. -/
theorem refers {i : Nat} {kind : Option Kind} (h : g.Unfailing r)
    (refers : g.Refers start r i kind) : g.Unfailing (g.body i) := by
  cases refers with
  | hidden number => exact h.body rfl number
  | visible number => exact h.body rfl number
  | renamed symbol number =>
    cases h with
    | terminal leaf => cases leaf
    | renamed content => exact content.body symbol number

end Unfailing

/-- Whether a part is one of an expression that never fails. -/
def UnfailingPart (g : Grammar) : Part → Prop
  | .expression r => g.Unfailing r
  | .sequence rs => ∀ r ∈ rs, g.Unfailing r
  | .choice rs => ∃ r ∈ rs, g.Unfailing r
  | .iterations _ least _ _ => least = 0

/-- What never fails matches something at every boundary. -/
theorem Interprets.isSome {part : Part} (h : g.Interprets start text part p m)
    (hpart : g.UnfailingPart part) (hp : text.isBoundary p = true) : m.isSome = true := by
  have hended : ∀ {least count q : Nat}, least = 0 → (Matched.ended least count q).isSome = true :=
    fun hleast => by simp [Matched.ended, hleast]
  induction h with
  | blank => rfl
  | terminal leaf takes =>
    obtain ⟨t, q, ht, hq, hstop⟩ := takes.exists_tried hp
    obtain ⟨t', ht', always⟩ := hpart.takenAs leaf
    cases ht.symm.trans ht'
    have hmatches := always _ q hq
    rw [← Option.isSome_map (f := (q + ·)), ← hstop, Option.isSome_map] at hmatches
    exact hmatches
  | reference refers _ ih => rw [Option.isSome_map, ih (Unfailing.refers hpart refers) hp]
  | renamed _ _ _ ih =>
    cases hpart with
    | terminal leaf => cases leaf
    | renamed content => rw [Option.isSome_map, ih content hp]
  | field _ ih =>
    cases hpart with
    | terminal leaf => cases leaf
    | field content => exact ih content hp
  | members _ ih =>
    cases hpart with
    | terminal leaf => cases leaf
    | seq each => exact ih each hp
  | alternatives _ ih =>
    cases hpart with
    | terminal leaf => cases leaf
    | choice member one => exact ih ⟨_, member, one⟩ hp
  | repetition _ ih =>
    cases hpart with
    | terminal leaf => cases leaf
    | repetition => exact ih rfl hp
  | seqNil => rfl
  | seqTook head _ _ ihtail =>
    rw [Option.isSome_map, ihtail (List.forall_mem_cons.mp hpart).2 (head.isBoundary hp _ rfl)]
  | seqFailed _ ih => exact ih (List.forall_mem_cons.mp hpart).1 hp
  | choiceNil =>
    obtain ⟨_, hmember, -⟩ := hpart
    cases hmember
  | choiceTook => rfl
  | choiceNext _ _ ihhead ihtail =>
    obtain ⟨r, hmember, hr⟩ := hpart
    rcases List.mem_cons.mp hmember with rfl | hmember
    · cases ihhead hr hp
    · exact ihtail ⟨r, hmember, hr⟩ hp
  | enough => exact hended hpart
  | idleIteration => exact hended hpart
  | nextIteration _ head _ _ _ ihtail =>
    rw [Option.isSome_map, ihtail hpart (head.isBoundary hp _ rfl)]
  | lastIteration => exact hended hpart

end Grammar

end Packrat
