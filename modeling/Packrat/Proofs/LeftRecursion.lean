import Packrat.Proofs.Parse.Depth
import Packrat.Proofs.Strict.Idle
import Packrat.Proofs.Termination

/-!
# Without left recursion nothing is called in place

A grammar that is accepted has no left recursion, so its rules lie on layers. Without recovery, in
the first round and in the attempts of searches, no rule is then called at a position where a call
of it is in progress, whatever the extras match, whatever is empty and whether results are kept or
not. So operations nest no deeper than the grammar and the size of the text allow, and with so much
room the first round ends by itself.
-/

/-!
## Calls in progress

The calls of rules on the way from one moment to another are those in progress at the second one
that were not yet at the first. Without recovery their levels fall, so there is none of a rule
twice at one position, and the levels bound how deeply operations nest on the way.
-/

namespace Packrat

namespace Moment

/-- The call that starts at a moment, if there is one. -/
def call? (m : Moment) : List MemoKey :=
  match m.job with
  | .rule i => [(i, m.position)]
  | _ => []

/-- `a.Stacks calls b` says that `calls`, the latest first, are the calls in progress at `b` of
those that start at `a` or behind it. -/
inductive Stacks (a : Moment) : List MemoKey → Moment → Prop
  | start : Stacks a a.call? a
  | runs {calls b c} (before : Stacks a calls b) (next : b.Runs c) : Stacks a (c.call? ++ calls) c

variable {a b : Moment} {calls : List MemoKey}

/-- The call that a moment is about is that of its rule at its position. -/
theorem mem_call? {m : Moment} {key : MemoKey} (h : key ∈ m.call?) :
    m.job = .rule key.1 ∧ m.position = key.2 := by
  rcases m with ⟨c, d, job, p, s⟩
  cases job with
  | rule i =>
    obtain rfl := List.mem_singleton.mp h
    exact ⟨rfl, rfl⟩
  | _ => cases h

/-- A moment is about one call at most. -/
theorem nodup_call? (m : Moment) : m.call?.Nodup := by
  unfold call?
  split
  · simp
  · simp

/-- Calls that are open on the way from one moment to another lie on a way. -/
theorem Stacks.reach (h : a.Stacks calls b) : Relation.ReflTransGen Runs a b := by
  induction h with
  | start => exact .refl
  | runs before next ih => exact ih.tail next

/-- There is a stack at every moment that is reached. -/
theorem exists_stacks (h : Relation.ReflTransGen Runs a b) : ∃ calls, a.Stacks calls b := by
  induction h with
  | refl => exact ⟨_, .start⟩
  | tail _ next ih =>
    obtain ⟨calls, hstacks⟩ := ih
    exact ⟨_, hstacks.runs next⟩

/-- A call in progress has a moment at which it started. -/
theorem Stacks.exists_moment (h : a.Stacks calls b) {key : MemoKey} (hkey : key ∈ calls) :
    ∃ x, Relation.ReflTransGen Runs a x ∧ Relation.ReflTransGen Runs x b ∧
      x.job = .rule key.1 ∧ x.position = key.2 := by
  induction h with
  | start => exact ⟨a, .refl, .refl, mem_call? hkey⟩
  | @runs calls b c before next ih =>
    rcases List.mem_append.mp hkey with hnew | hold
    · exact ⟨c, before.reach.tail next, .refl, mem_call? hnew⟩
    · obtain ⟨x, hax, hxb, hx⟩ := ih hold
      exact ⟨x, hax, hxb.tail next, hx⟩

/-- What is run for a job without recovery is run without it. -/
theorem strict_of_reach (h : Relation.ReflTransGen Runs a b)
    (hstrict : a.setting.recovering = false) : b.setting.recovering = false := by
  induction h with
  | refl => exact hstrict
  | tail _ next ih =>
    rcases next.setting with hsame | hsame
    · rw [hsame, ih]
    · rw [hsame]
      rfl

section

variable {g : Program} {early : Bool} {text : Text} {layers : g.Layering early}

/-- What is sound at a moment is sound at all moments that come of it. -/
theorem Sound.reach (h : Sound layers text a) (hreach : Relation.ReflTransGen Runs a b) :
    Sound layers text b := by
  induction hreach with
  | refl => exact h
  | tail _ next ih => exact ih.runs next

/-- Without recovery no rule is called at a position where a call of it is in progress. -/
theorem Stacks.nodup (h : a.Stacks calls b) (hsound : Sound layers text a)
    (hstrict : a.setting.recovering = false) : calls.Nodup := by
  induction h with
  | start => exact nodup_call? a
  | @runs calls b c before next ih =>
    refine List.nodup_append.mpr ⟨nodup_call? c, ih, ?_⟩
    rintro key hnew _ hold rfl
    obtain ⟨x, hax, hxb, hxjob, hxposition⟩ := before.exists_moment hold
    obtain ⟨hjob, hposition⟩ := mem_call? hnew
    have hnested : Relation.TransGen Runs x c := Relation.TransGen.tail' hxb next
    -- the later call lies on a lower level, but the level is that of the rule and the position
    have hlt := (hsound.reach hax).level_lt hnested hxjob hjob
    rw [strict_of_reach hax hstrict, strict_of_reach (before.reach.tail next) hstrict, hxposition,
      hposition] at hlt
    exact absurd hlt (Nat.lt_irrefl _)

/-- Nesting goes down by one at most, in a parse that goes on. -/
theorem Runs.depth (h : a.Runs b) :
    b.depth = a.depth ∨ b.state.halted = none ∧ a.depth = b.depth + 1 := by
  cases h with
  | ticked tick => exact .inr ⟨(State.of_tick_true tick).2.1, rfl⟩
  | _ => exact .inl rfl

/-- Room that is not needed at a moment is left at all that come of it. -/
theorem HasRoom.depth {height spare : Nat} (h : HasRoom layers text height spare a)
    (hheight : ∀ rule, sizeOf (g.rule rule).body ≤ height) (hsound : Sound layers text a)
    (hreach : Relation.ReflTransGen Runs a b) :
    spare ≤ b.depth ∧ (b.state.halted = none → HasRoom layers text height spare b) := by
  induction hreach with
  | refl =>
    refine ⟨?_, fun _ => h⟩
    obtain ⟨level, size, -, -, hle⟩ := h
    omega
  | @tail b c hreach next ih =>
    obtain ⟨hspare, hroom⟩ := ih
    have hroom' : c.state.halted = none → HasRoom layers text height spare c := fun hlive =>
      (hroom (next.live hlive)).runs hheight (hsound.reach hreach) next hlive
    refine ⟨?_, hroom'⟩
    rcases next.depth with hsame | ⟨hlive, -⟩
    · rwa [hsame]
    · obtain ⟨level, size, -, -, hle⟩ := hroom' hlive
      omega

end

end Moment

end Packrat

/-! ## Parses without left recursion -/

namespace Packrat

/-- How deeply operations may nest without recovery in a text of some size, where rules lie on
layers up to some highest one and their bodies have at most some height. -/
def nestingBound (top height size : Nat) : Nat :=
  (2 * size + 2) * (top + 1) * (height + 1) + height

section

variable {p : Program} {o : ParseOptions} {text : Text} {height : Nat} {a b : Moment}
  {calls : List MemoKey}

/-- Every moment without recovery is sound for the grammar in which no sequence ends early. -/
theorem Moment.Regular.sound (h : a.Regular p text height) (layers : p.Layering false)
    (hstrict : a.setting.recovering = false) : a.Sound layers text := by
  obtain ⟨rfl, rfl, hready, hfits, hvalid, -, -⟩ := h
  refine ⟨rfl, rfl, ?_, hready, hfits, hvalid.idles layers hfits.strict⟩
  intro hrec
  rw [hstrict] at hrec
  exact hrec

/-- Where the nesting bound is passed there is room left. -/
theorem Moment.Regular.room {spare : Nat} (h : a.Regular p text height) (layers : p.Layering false)
    (hspare : nestingBound layers.top height text.size + spare ≤ a.depth) :
    a.HasRoom layers text height spare := by
  have hlevel : ∀ rule, layers.level text a.setting.recovering a.position rule <
      layers.ceiling text := layers.level_lt_ceiling
  refine ⟨layers.ceiling text, height, ⟨?_, fun rule _ => hlevel rule, h.searches⟩, h.within, ?_⟩
  · exact Nat.le_of_lt (Nat.lt_of_le_of_lt (Nat.le_add_right _ _) (hlevel 0))
  · simpa only [nestingBound, Program.Layering.ceiling] using hspare

/-- The calls in progress without recovery are different ones, and operations nest no deeper than
the bound on the way. -/
theorem Program.Meets.stacks (h : p.Meets o text a) (layers : p.Layering false)
    (hheight : ∀ rule, sizeOf (p.rule rule).body ≤ height)
    (hstrict : a.setting.recovering = false) (hstacks : a.Stacks calls b) :
    calls.Nodup ∧ a.depth ≤ b.depth + nestingBound layers.top height text.size := by
  have hregular := h.regular hheight
  have hsound := hregular.sound layers hstrict
  refine ⟨hstacks.nodup hsound hstrict, ?_⟩
  by_cases henough : nestingBound layers.top height text.size ≤ a.depth
  · have hspare : nestingBound layers.top height text.size +
        (a.depth - nestingBound layers.top height text.size) ≤ a.depth := by omega
    have hroom := hregular.room layers hspare
    have hleft := (hroom.depth hheight hsound hstacks.reach).1
    omega
  · omega

/-- A parse of one round with so much room goes on to its end, if nothing else limits it. -/
theorem Program.Layering.single_round_ends (layers : p.Layering false)
    (hheight : ∀ rule, sizeOf (p.rule rule).body ≤ height) {text : String} (hfuel : o.fuel = none)
    (hpatience : o.patience = none) (hrounds : o.maxRounds = some 1)
    (hlimit : nestingBound layers.top height text.utf8ByteSize ≤ o.recursionLimit) :
    (p.parse o text).halted = none := by
  obtain ⟨a, points, s, hrun, hparse⟩ := p.exists_rounds o {} false (Text.ofString text)
  have hregular : (p.roundMoment o (Text.ofString text) 1 [] (o.startState {} false)).Regular p
      (Text.ofString text) height := Program.RoundStarts.first.regular
  have hsound := hregular.sound layers rfl
  have hlimit' : layers.ceiling (Text.ofString text) * (height + 1) ≤ o.recursionLimit := by
    simp only [nestingBound, Program.Layering.ceiling, Text.size_ofString] at hlimit ⊢
    omega
  rw [parse, hparse]
  cases hrun with
  | last round final =>
    exact (runRound_unlimited round hsound hheight hlimit' ⟨rfl, hfuel, hpatience⟩).live
  | next round more rest => simp [nextPoint?, hrounds] at more

/-- The bodies of the rules of all programs of a grammar have at most some height. -/
theorem Grammar.exists_height (g : Grammar) (start : Nat) :
    ∃ height, ∀ p : Program, p.CompiledFrom g start →
      ∀ rule, sizeOf (p.rule rule).body ≤ height := by
  by_cases hsome : ∃ p, Program.CompiledFrom g start p
  · obtain ⟨p, hp⟩ := hsome
    obtain ⟨height, hheight⟩ := p.exists_height
    refine ⟨height, fun q hq rule => ?_⟩
    rw [(hp.alike hq).rule rule]
    exact hheight rule
  · exact ⟨0, fun p hp => absurd ⟨p, hp⟩ hsome⟩

end

/-- The check for left recursion is sound. Of an accepted grammar, whose terminals that may be empty
are judged so, there is a bound for each size of a text such that without recovery the calls in
progress are never of one rule twice at one position, operations nest no deeper than the bound, and
the first round ends by itself if they may nest so deeply. -/
theorem Grammar.JudgesEmpty.strict_ends {g : Grammar} (hg : g.JudgesEmpty) (start : Nat) :
    ∃ bound : Nat → Nat, ∀ p : Program, p.CompiledFrom g start → ∀ text : String,
      (∀ (o : ParseOptions) (a b : Moment) (calls : List MemoKey), p.Meets o (.ofString text) a →
        a.setting.recovering = false → a.Stacks calls b →
          calls.Nodup ∧ a.depth ≤ b.depth + bound text.utf8ByteSize) ∧
      ∀ o : ParseOptions, o.fuel = none → o.patience = none → o.maxRounds = some 1 →
        bound text.utf8ByteSize ≤ o.recursionLimit → (p.parse o text).halted = none := by
  obtain ⟨height, hheight⟩ := g.exists_height start
  by_cases hchecked : g.checkLeftRecursion g.nullability = .ok ()
  · rw [← g.endingEarly_false] at hchecked
    obtain ⟨top, hlayers⟩ := hg.exists_layering hchecked
    refine ⟨nestingBound top height, fun p hp text => ?_⟩
    obtain ⟨layers, rfl⟩ := hlayers start p hp.implements
    refine ⟨fun o a b calls hmeets hstrict hstacks => ?_,
      fun o hfuel hpatience hrounds hlimit => ?_⟩
    · rw [← Text.size_ofString]
      exact hmeets.stacks layers (hheight p hp) hstrict hstacks
    · exact layers.single_round_ends (hheight p hp) hfuel hpatience hrounds hlimit
  · exact ⟨id, fun p hp => absurd hp.implements.checked.leftRecursion hchecked⟩

/-- A grammar that is accepted although recovery in it calls a rule in place. -/
theorem Grammar.JudgesEmpty.strict_ends_recurring :
    Grammar.recurring.JudgesEmpty ∧ ∃ limit : Nat,
      (∀ (o : ParseOptions) (a b : Moment) (calls : List MemoKey),
        Program.recurring.Meets o (.ofString "xyy") a → a.setting.recovering = false →
        a.Stacks calls b → calls.Nodup ∧ a.depth ≤ b.depth + limit) ∧
      ∀ o : ParseOptions, o.fuel = none → o.patience = none → o.maxRounds = some 1 →
        limit ≤ o.recursionLimit → (Program.recurring.parse o "xyy").halted = none := by
  have hjudges : Grammar.recurring.JudgesEmpty := by
    intro rule hrule
    obtain rfl := List.mem_singleton.mp hrule
    refine Rule.judgesEmpty_of_literals fun leaf hleaf => ?_
    simp only [Rule.optional, Rule.leaves, Rule.leavesAmong, List.append_nil,
      List.singleton_append, List.mem_cons, List.not_mem_nil, or_false] at hleaf
    rcases hleaf with rfl | rfl
    · exact ⟨_, rfl, by decide⟩
    · exact ⟨_, rfl, by decide⟩
  obtain ⟨bound, hbound⟩ := strict_ends hjudges 0
  exact ⟨hjudges, _, hbound .recurring Program.recurring_compiledFrom "xyy"⟩

end Packrat
