import Packrat.Proofs.Parse.Events
import Packrat.Proofs.Program.Computed

/-!
# Results that are used again

What is kept of the items of a text is told exactly, for every text of items. A round keeps them all
and runs none that was known. When an item is put in between others, those in front of it are known
where they were and those behind it where they are moved to, and a parse from these results uses
them again. A rule that is tried twice at one place is run there once.
-/

namespace Packrat

/-- A state of a parse without limits that has kept some results. -/
def State.having (strict : Results) (log : Option (List Event)) : State :=
  ⟨⟨strict, {}⟩, none, none, none, log⟩

namespace Program

/-- The first round of a parse of items. -/
def itemsRound (text : Text) : Setting := ⟨.items, text, true, [], false⟩

/-- What is kept of an item at an offset of a text that begins with some number of them. -/
def itemEntry (n q : Nat) : Entry :=
  if q < n then ⟨some ⟨q + 1, [.leaf 4 "a"], []⟩, q + 1, none, none⟩
  else ⟨none, q + 1, some ⟨q, [4]⟩, some q⟩

/-- Whether a text begins with some number of items and no more. -/
structure BeginsWith (text : Text) (n : Nat) : Prop where
  scans : ∀ q < n, (Terminal.literal "a").scanAt text q = ⟨some 1, 1⟩
  slices : ∀ q < n, text.slice q (q + 1) = "a"
  ends : (Terminal.literal "a").scanAt text n = ⟨none, 1⟩
  fits : n ≤ text.size

variable {text : Text} {n q d : Nat} {strict : Results}

/-- The terminal of items takes one if there is one. -/
theorem runToken_items (h : BeginsWith text n) (hq : q ≤ n) (s : State) :
    ∃ e, runToken (itemsRound text) 0 4 false q s =
      ((itemEntry n q).answer (itemsRound text) false, s.record e) := by
  have htrivia : (itemsRound text).trivia q = ⟨[], q, 0⟩ := by
    have hpieces : ∀ count, (itemsRound text).extraPieces count q = ([], 0) := by
      intro count
      cases count <;> rfl
    simp [Setting.trivia, hpieces]
  have hterminal : (itemsRound text).program.terminal 0 = .literal "a" := rfl
  have htext : (itemsRound text).text = text := rfl
  have hpoint : ∀ p, (itemsRound text).isPoint p = false := fun _ => rfl
  by_cases hlt : q < n
  · refine ⟨.token 4 q (some 1), ?_⟩
    simp [runToken, htrivia, hterminal, htext, h.scans q hlt, itemEntry, hlt, Entry.answer,
      Setting.leaf, h.slices q hlt, Notes.seen]
  · obtain rfl : q = n := by omega
    refine ⟨.token 4 q none, ?_⟩
    simp [runToken, htrivia, hterminal, htext, h.ends, itemEntry, Entry.answer, hpoint,
      Option.filter]

/-- The rule for one item adds nothing to what its token notes. -/
theorem fromRule_itemEntry :
    ((itemEntry n q).answer (itemsRound text) false).fromRule q =
      (itemEntry n q).answer (itemsRound text) false := by
  unfold itemEntry
  split <;> simp [Answer.fromRule, Entry.answer]

/-- An entry stands for the answer that is kept as it. -/
theorem entry_itemEntry :
    ((itemEntry n q).answer (itemsRound text) false).entry q = itemEntry n q := by
  have hpoint : ∀ p, (itemsRound text).isPoint p = false := fun _ => rfl
  unfold itemEntry
  split <;> simp [Answer.entry, Entry.answer, hpoint]

/-- A parse without limits may always call a rule. -/
theorem ask_having (strict : Results) (log : Option (List Event)) :
    (State.having strict log).ask = (true, .having strict log) := rfl

/-- A parse without limits may always run an operation. -/
theorem tick_having (strict : Results) (log : Option (List Event)) :
    (State.having strict log).tick = (true, .having strict log) := rfl

/-- Whether nothing is kept but the items of a text. -/
def KeepsItems (n : Nat) (strict : Results) : Prop :=
  ∀ (key : MemoKey) (e : Entry), strict[key]? = some e →
    key.1 = 1 ∧ key.2 ≤ n ∧ e = itemEntry n key.2

/-- One more item of the text may be kept. -/
theorem KeepsItems.insert (h : KeepsItems n strict) (hq : q ≤ n) :
    KeepsItems n (strict.insert (1, q) (itemEntry n q)) := by
  intro key e he
  rw [Std.HashMap.getElem?_insert] at he
  split at he
  · rename_i hkey
    obtain rfl := eq_of_beq hkey
    exact ⟨rfl, hq, (Option.some.inj he).symm⟩
  · exact h key e he

/-- Whether nothing is kept but the items of a text and what the start rule made of all of it. -/
def KeepsAll (n : Nat) (strict : Results) : Prop :=
  ∀ (key : MemoKey) (e : Entry), strict[key]? = some e →
    n < e.reach ∧ key = (0, 0) ∨ key.1 = 1 ∧ key.2 ≤ n ∧ e = itemEntry n key.2

/-- The result of the start rule is put behind those of the items. -/
theorem KeepsItems.insertStart {e : Entry} (h : KeepsItems n strict) (he : n < e.reach) :
    KeepsAll n (strict.insert (0, 0) e) := by
  intro key e' he'
  rw [Std.HashMap.getElem?_insert] at he'
  split at he'
  · rename_i hkey
    obtain rfl := eq_of_beq hkey
    cases he'
    exact .inl ⟨he, rfl⟩
  · exact .inr (h key e' he')

/-- The event of an item that is used again. -/
def itemHit (n q : Nat) : Event := .hit 1 q ((itemEntry n q).taken.map (·.stop))

/-- An item comes to the same whether it was known or not, and is known then. -/
theorem run_item (h : BeginsWith text n) (hq : q ≤ n) (hstrict : KeepsItems n strict)
    (log : Option (List Event)) :
    ∃ strict' new, Run (itemsRound text) (d + 1) (.rule 1) q (.having strict log)
        (.answer ((itemEntry n q).answer (itemsRound text) false))
        (.having strict' (log.map (new ++ ·))) ∧
      KeepsItems n strict' ∧ (1, q) ∈ strict' ∧ (∀ key ∈ strict, key ∈ strict') ∧
      ((1, q) ∈ strict → itemHit n q ∈ new) := by
  cases hknown : strict[((1, q) : MemoKey)]? with
  | some e =>
    obtain ⟨-, -, rfl⟩ := hstrict (1, q) e hknown
    have hfound : known? (itemsRound text) 1 q (.having strict log) =
        some (itemEntry n q, false) := by
      simp [known?, Memo.find?, itemsRound, State.having, hknown]
    have hmem : (1, q) ∈ strict := by
      rw [Std.HashMap.mem_iff_isSome_getElem?, hknown]
      rfl
    exact ⟨strict, [itemHit n q], .hit (ask_having strict log) hfound, hstrict, hmem,
      fun _ hkey => hkey, fun _ => List.mem_singleton_self _⟩
  | none =>
    obtain ⟨e, htoken⟩ := runToken_items h hq ((State.having strict log).record (.call 1 q))
    have hbody : Run (itemsRound text) d (.operation (.token 0 4 false)) q
        ((State.having strict log).record (.call 1 q)) (.answer _) _ := .token
    rw [htoken] at hbody
    have hunknown : known? (itemsRound text) 1 q (.having strict log) = none := by
      simp [known?, Memo.find?, itemsRound, State.having, hknown]
    have hrun := Run.body (ask_having strict log) hunknown (.ticked rfl hbody)
    rw [fromRule_itemEntry, entry_itemEntry] at hrun
    refine ⟨strict.insert (1, q) (itemEntry n q),
      [.leave 1 ((itemEntry n q).taken.map (·.stop)), e, .call 1 q], ?_, hstrict.insert hq,
      Std.HashMap.mem_insert_self, fun key hkey => Std.HashMap.mem_insert.mpr (.inr hkey),
      fun hmem => ?_⟩
    · cases log <;> exact hrun
    · rw [Std.HashMap.mem_iff_isSome_getElem?, hknown] at hmem
      cases hmem

/-- Items are taken one after another, known or not, and all of them are known then. -/
theorem run_items (h : BeginsWith text n) {left : Nat} (count : Nat) (hq : q ≤ n)
    (hleft : n < q + left) (hstrict : KeepsItems n strict) (log : Option (List Event)) :
    ∃ a strict' new,
      Run (itemsRound text) (d + 2) (.iterations (.call 1 none) 0 none left count) q
        (.having strict log) (.answer a) (.having strict' (log.map (new ++ ·))) ∧
      n < a.notes.reach ∧ KeepsItems n strict' ∧ (∀ key ∈ strict, key ∈ strict') ∧
      ∀ k, q ≤ k → k ≤ n → (1, k) ∈ strict' ∧ ((1, k) ∈ strict → itemHit n k ∈ new) := by
  induction left generalizing q count strict log with
  | zero => omega
  | succ left ih =>
    obtain ⟨strict₁, new₁, hrun₁, hkeeps₁, hmem₁, hmore₁, hhit₁⟩ :=
      run_item (d := d) h hq hstrict log
    have hcall : Run (itemsRound text) (d + 2) (.step (.call 1 none)) q (.having strict log)
      (.answer _) _ := .ticked (tick_having strict log) (.call hrun₁)
    by_cases hlt : q < n
    · obtain ⟨a, strict', new, hrun, hreach, hkeeps, hmore, hhit⟩ :=
        ih (count + 1) hlt (by omega) hkeeps₁ (log.map (new₁ ++ ·))
      rw [itemEntry, if_pos hlt] at hcall
      have hhead : Run (itemsRound text) (d + 2) (.step (.call 1 none)) q (.having strict log)
        (.answer ⟨some ⟨q + 1, [.node 3 [.leaf 4 "a"]], []⟩, .seen (q + 1)⟩) _ := hcall
      have hlog : (log.map (new₁ ++ ·)).map (new ++ ·) = log.map (new ++ new₁ ++ ·) := by
        cases log <;> simp
      rw [hlog] at hrun
      refine ⟨_, strict', new ++ new₁, .nextIteration rfl hhead (Nat.succ_ne_self q) hrun, ?_,
        hkeeps, fun key hkey => hmore key (hmore₁ key hkey), fun k hk hkn => ?_⟩
      · exact Nat.lt_of_lt_of_le hreach (Nat.le_max_right _ _)
      · rcases Nat.lt_or_eq_of_le hk with hk | rfl
        · obtain ⟨hmem, hhits⟩ := hhit k hk hkn
          exact ⟨hmem, fun hold => List.mem_append_left _ (hhits (hmore₁ _ hold))⟩
        · exact ⟨hmore _ hmem₁, fun hold => List.mem_append_right _ (hhit₁ hold)⟩
    · obtain rfl : q = n := by omega
      rw [itemEntry, if_neg hlt] at hcall
      have hlast : Run (itemsRound text) (d + 2) (.step (.call 1 none)) q (.having strict log)
        (.answer ⟨none, ⟨some ⟨q, [4]⟩, some q, q + 1⟩⟩) _ := hcall
      refine ⟨_, strict₁, new₁, .lastIteration rfl hlast fun _ => rfl, Nat.lt_succ_self q, hkeeps₁,
        hmore₁, fun k hk hkn => ?_⟩
      obtain rfl := Nat.le_antisymm hk hkn
      exact ⟨hmem₁, hhit₁⟩

/-- The first round of a parse of items keeps all of them and uses those again that were known. -/
theorem run_all_items (h : BeginsWith text n) (hstrict : KeepsItems n strict)
    (log : Option (List Event)) :
    ∃ a strict' new,
      Run (itemsRound text) (d + 3) (.rule 0) 0 (.having strict log) (.answer a)
        (.having strict' (log.map (new ++ ·))) ∧
      KeepsAll n strict' ∧
      ∀ k ≤ n, (1, k) ∈ strict' ∧ ((1, k) ∈ strict → itemHit n k ∈ new) := by
  have hunknown : known? (itemsRound text) 0 0 (.having strict log) = none := by
    have hnone : strict[((0, 0) : MemoKey)]? = none :=
      Option.eq_none_iff_forall_ne_some.mpr fun e he => nomatch (hstrict (0, 0) e he).1
    simp [known?, Memo.find?, itemsRound, State.having, hnone]
  have hleft : n < 0 + (text.size + 1 - 0) := by
    have := h.fits
    omega
  obtain ⟨a, strict₁, new, hrun, hreach, hkeeps, -, hitems⟩ :=
    run_items (d := d) h 0 (Nat.zero_le n) hleft hstrict (log.map (.call 0 0 :: ·))
  have hround := Run.body (ask_having strict log) hunknown (.ticked rfl (.repetition hrun))
  have hstart : n < (a.entry 0).reach := Nat.lt_of_lt_of_le hreach (Nat.le_max_right _ _)
  refine ⟨a.fromRule 0, strict₁.insert (0, 0) (a.entry 0),
    .leave 0 (a.taken.map (·.stop)) :: new ++ [.call 0 0], ?_, hkeeps.insertStart hstart,
    fun k hk => ?_⟩
  · have hlog : ((log.map (.call 0 0 :: ·)).map (new ++ ·)).map
        (.leave 0 (a.taken.map (·.stop)) :: ·) =
          log.map (.leave 0 (a.taken.map (·.stop)) :: new ++ [.call 0 0] ++ ·) := by
      cases log <;> simp
    rw [← hlog]
    exact hround
  · obtain ⟨hmem, hhit⟩ := hitems k (Nat.zero_le k) hk
    exact ⟨Std.HashMap.mem_insert.mpr (.inr hmem), fun hold =>
      List.mem_append_left _ (List.mem_cons_of_mem _ (hhit hold))⟩

/-- An item is told from the next byte. -/
theorem itemEntry_reach (n k : Nat) : (itemEntry n k).reach = k + 1 := by
  unfold itemEntry
  split <;> rfl

/-- An item in front of a new one stays where it is. -/
theorem carry?_item_front {s k : Nat} (hs : s ≤ n) (hk : k < s) :
    (Edit.insertion s "a").carry? (1, k) (itemEntry n k) =
      some ((1, k), itemEntry (n + 1) k) := by
  have hsame : itemEntry (n + 1) k = itemEntry n k := by
    rw [itemEntry, itemEntry, if_pos (by omega), if_pos (by omega)]
  have hfront : (itemEntry n k).reach ≤ (Edit.insertion s "a").start := by
    rw [itemEntry_reach]
    exact hk
  rw [Edit.carry?, if_pos hfront, hsame]

/-- An item behind the place of a new one moves on by one. -/
theorem carry?_item_behind {s k : Nat} (hk : s < k) :
    (Edit.insertion s "a").carry? (1, k) (itemEntry n k) =
      some ((1, k + 1), itemEntry (n + 1) (k + 1)) := by
  have hmove : ∀ p, (Edit.insertion s "a").move p = p + 1 := fun _ => rfl
  have hmoved : (itemEntry n k).moved (Edit.insertion s "a") = itemEntry (n + 1) (k + 1) := by
    unfold itemEntry
    by_cases hlt : k < n <;> simp [hlt, Entry.moved, hmove]
  have hnot : ¬ (itemEntry n k).reach ≤ (Edit.insertion s "a").start := by
    rw [itemEntry_reach]
    exact Nat.not_le.mpr (Nat.lt_succ_of_lt hk)
  have hbehind : (Edit.insertion s "a").start + (Edit.insertion s "a").removed < k := hk
  rw [Edit.carry?, if_neg hnot, if_pos hbehind, hmove, hmoved]

/-- When an item is put in between those of a text, what is carried over is right for the new
text. -/
theorem KeepsAll.carryOver {s : Nat} (h : KeepsAll n strict) (hs : s ≤ n) :
    KeepsItems (n + 1) ((Edit.insertion s "a").carryOver strict) := by
  intro key e he
  obtain ⟨⟨rule, k⟩, entry, hentry, hcarry⟩ := Edit.of_getElem?_carryOver he
  rcases h _ entry hentry with ⟨hlong, hkey⟩ | ⟨hrule, hk, rfl⟩
  · cases hkey
    rcases Edit.carry?_eq_some hcarry with ⟨hle, -, -⟩ | ⟨hlt, -, -⟩
    · exact absurd (Nat.lt_of_lt_of_le hlong hle) (Nat.not_lt.mpr hs)
    · exact absurd hlt (Nat.not_lt_zero _)
  · obtain rfl : rule = 1 := hrule
    rcases Nat.lt_trichotomy k s with hlt | rfl | hlt
    · rw [carry?_item_front hs hlt] at hcarry
      cases hcarry
      exact ⟨rfl, Nat.le_succ_of_le hk, rfl⟩
    · rcases Edit.carry?_eq_some hcarry with ⟨hle, -, -⟩ | ⟨hlt, -, -⟩
      · rw [itemEntry_reach] at hle
        exact absurd hle (Nat.not_succ_le_self k)
      · exact absurd hlt (Nat.lt_irrefl k)
    · rw [carry?_item_behind hlt] at hcarry
      cases hcarry
      exact ⟨rfl, Nat.succ_le_succ hk, rfl⟩

/-- The items in front of a new one are carried over, and so are those behind its place. -/
theorem KeepsAll.mem_carryOver {s k : Nat} (h : KeepsAll n strict) (hs : s ≤ n)
    (hmem : (1, k) ∈ strict) :
    (k < s → (1, k) ∈ (Edit.insertion s "a").carryOver strict) ∧
      (s < k → (1, k + 1) ∈ (Edit.insertion s "a").carryOver strict) := by
  obtain ⟨e, he⟩ := Option.isSome_iff_exists.mp (Std.HashMap.mem_iff_isSome_getElem?.mp hmem)
  have hentry : e = itemEntry n k := by
    rcases h _ e he with ⟨-, hkey⟩ | ⟨-, -, hentry⟩
    · cases hkey
    · exact hentry
  rw [hentry] at he
  exact ⟨fun hk => Edit.mem_carryOver he (carry?_item_front hs hk),
    fun hk => Edit.mem_carryOver he (carry?_item_behind hk)⟩

/-- What a parse with one round keeps of a text of items. -/
theorem items_results (h : BeginsWith text n) :
    KeepsAll n (items.parseWith { maxRounds := some 1 } {} false text).results ∧
      ∀ k ≤ n, (1, k) ∈ (items.parseWith { maxRounds := some 1 } {} false text).results := by
  obtain ⟨a, points, s, hrounds, heq⟩ :=
    items.exists_rounds { maxRounds := some 1 } {} false text
  have hempty : KeepsItems n {} := by simp [KeepsItems]
  obtain ⟨a', strict, new, hrun, hall, hmem⟩ := run_all_items (d := 1021) h hempty none
  have hs : s = .having strict none := by
    cases hrounds with
    | last round =>
      obtain ⟨b, hround, -⟩ := runRound_eq.mp round
      rw [roundSetting_nil] at hround
      exact (Prod.ext_iff.mp ((run_iff.mp hround).symm.trans (run_iff.mp hrun))).2
    | next round more => simp [nextPoint?] at more
  rw [heq, hs]
  exact ⟨hall, fun k hk => (hmem k hk).1⟩

/-- When an item is put in between those of a text, a parse from the results of an earlier parse
uses those again that lie in front of it and, moved, those behind the place of the next one. -/
theorem hits_after_insertion {before after : String} {s : Nat}
    (hbefore : BeginsWith (.ofString before) n) (hafter : BeginsWith (.ofString after) (n + 1))
    (hs : s ≤ n) (happly : (Edit.insertion s "a").apply (.ofString before) = .ok after)
    (hsize : (Text.ofString before).size < maxOffset) :
    let old := items.parse { maxRounds := some 1 } before
    let new := items.parseWith {} ((Edit.insertion s "a").carryOver old.results) true
      (.ofString after)
    ∀ k ≤ n,
      (k < s → itemHit (n + 1) k ∈ new.log) ∧ (s < k → itemHit (n + 1) (k + 1) ∈ new.log) := by
  intro old new k hk
  obtain ⟨hall, hmem⟩ := items_results hbefore
  have hfit : Results.Fit (.ofString after) ((Edit.insertion s "a").carryOver old.results) :=
    (items.parseWith_fits (by simp [Results.Fit])).2.carryOver happly hsize
  obtain ⟨a, strict, events, hrun, -, hhits⟩ :=
    run_all_items (d := 1021) hafter (hall.carryOver hs) (some [.round 1 []])
  have hlog : ∀ e ∈ events, e ∈ new.log := by
    intro e he
    have htells : State.Tells (.having strict (some (events ++ [.round 1 []]))) e :=
      ⟨_, rfl, List.mem_append_left _ he⟩
    exact mem_log_parseWith hfit hrun htells
  obtain ⟨hfront, hbehind⟩ := hall.mem_carryOver hs (hmem k hk)
  exact ⟨fun hlt => hlog _ ((hhits k (Nat.le_succ_of_le hk)).2 (hfront hlt)),
    fun hlt => hlog _ ((hhits (k + 1) (Nat.succ_le_succ hk)).2 (hbehind hlt))⟩

/-- A parse of three items and a letter that is none. -/
def itemsBefore : Parsed := items.parse { maxRounds := some 1 } "aaaé"

/-- What is carried over when an item is put in between them. -/
def itemsKnown : Results := (Edit.insertion 1 "a").carryOver itemsBefore.results

/-- The first item is known where it was, the last one and the place behind it where they are moved
to. -/
theorem itemsKnown_hits : [.hit 1 0 (some 1), .hit 1 3 (some 4), .hit 1 4 none] ⊆
    (items.parseWith {} itemsKnown true (.ofString "aaaaé")).log := by
  have hbefore : BeginsWith (.ofString "aaaé") 3 :=
    ⟨by decide, by decide, by decide, by decide⟩
  have hafter : BeginsWith (.ofString "aaaaé") 4 :=
    ⟨by decide, by decide, by decide, by decide⟩
  have hhits := hits_after_insertion hbefore hafter (s := 1) (by decide) rfl (by decide)
  refine List.cons_subset.mpr ⟨(hhits 0 (by decide)).1 (by decide), List.cons_subset.mpr
    ⟨(hhits 2 (by decide)).2 (by decide), List.cons_subset.mpr
      ⟨(hhits 3 (by decide)).2 (by decide), List.nil_subset _⟩⟩⟩

/-- The first round of a parse in which a rule is tried twice at one place. -/
def retryingRound : Setting := ⟨.retrying, .ofString "aacd", true, [], false⟩

/-- What this rule comes to. -/
def retryingEntry : Entry := ⟨some ⟨2, [.leaf 6 "a", .leaf 6 "a"], []⟩, 3, some ⟨2, [6]⟩, some 2⟩

/-- What it takes, in its node. -/
def retryingAnswer : Answer :=
  ⟨some ⟨2, [.node 3 [.leaf 6 "a", .leaf 6 "a"]], []⟩, ⟨some ⟨2, [6]⟩, some 2, 3⟩⟩

/-- The first time, its body is run and the result is kept. -/
theorem run_retrying_first (log : List Event) :
    ∃ new, Run retryingRound 1022 (.step (.call 1 none)) 0 (.having {} (some log))
      (.answer retryingAnswer)
      (.having (Std.HashMap.insert {} (1, 0) retryingEntry) (some (new ++ log))) := by
  have hunknown : known? retryingRound 1 0 (.having {} (some log)) = none := by
    simp [known?, Memo.find?, retryingRound, State.having]
  have hbody : Run retryingRound 1021 (.step (.repetition (.token 2 6 false) 0 none)) 0
      (.having {} (some (.call 1 0 :: log))) (.answer (retryingEntry.answer retryingRound false))
      (.having {} (some (.token 6 2 none :: .token 6 1 (some 1) :: .token 6 0 (some 1) ::
        .call 1 0 :: log))) := run_iff.mpr (by rfl)
  exact ⟨[.leave 1 (some 2), .token 6 2 none, .token 6 1 (some 1), .token 6 0 (some 1), .call 1 0],
    .ticked (tick_having _ _) (.call (.body (ask_having _ _) hunknown hbody))⟩

/-- The second time, the kept result is used. -/
theorem run_retrying_second (log : List Event) :
    Run retryingRound 1022 (.step (.call 1 none)) 0
      (.having (Std.HashMap.insert {} (1, 0) retryingEntry) (some log)) (.answer retryingAnswer)
      (.having (Std.HashMap.insert {} (1, 0) retryingEntry) (some (.hit 1 0 (some 2) :: log))) := by
  have hknown : known? retryingRound 1 0
      (.having (Std.HashMap.insert {} (1, 0) retryingEntry) (some log)) =
        some (retryingEntry, false) := by
    simp [known?, Memo.find?, retryingRound, State.having]
  exact .ticked (tick_having _ _) (.call (.hit (ask_having _ _) hknown))

/-- A parse uses a result again that it has kept in the same round. -/
theorem retrying_hits : .hit 1 0 (some 2) ∈ (retrying.parseTraced {} "aacd").log := by
  have hunknown : known? retryingRound 0 0 (.having {} (some [.round 1 []])) = none := by
    simp [known?, Memo.find?, retryingRound, State.having]
  obtain ⟨new, hfirst⟩ := run_retrying_first [.call 0 0, .round 1 []]
  obtain ⟨log, hlog⟩ : ∃ log, log = new ++ [.call 0 0, .round 1 []] := ⟨_, rfl⟩
  rw [← hlog] at hfirst
  obtain ⟨kept, hkept⟩ : ∃ kept : Results, kept = Std.HashMap.insert {} (1, 0) retryingEntry :=
    ⟨_, rfl⟩
  have hsecond := run_retrying_second (.backtrack 0 :: .token 4 2 none :: log)
  rw [← hkept] at hfirst hsecond
  have hb : Run retryingRound 1022 (.step (.token 0 4 false)) 2 (.having kept (some log))
      (.answer ⟨none, ⟨some ⟨2, [4]⟩, some 2, 3⟩⟩)
      (.having kept (some (.token 4 2 none :: log))) := run_iff.mpr (by rfl)
  have hc : Run retryingRound 1022 (.step (.token 1 5 false)) 2
      (.having kept (some (.hit 1 0 (some 2) :: .backtrack 0 :: .token 4 2 none :: log)))
      (.answer ⟨some ⟨3, [.leaf 5 "c"], []⟩, .seen 3⟩)
      (.having kept (some (.token 5 2 (some 1) :: .hit 1 0 (some 2) :: .backtrack 0 ::
        .token 4 2 none :: log))) := run_iff.mpr (by rfl)
  have hfails : Run retryingRound 1023 (.step (.seq [.call 1 none, .token 0 4 false])) 0
      (.having {} (some [.call 0 0, .round 1 []])) (.answer ⟨none, _⟩)
      (.having kept (some (.token 4 2 none :: log))) :=
    .ticked (tick_having _ _) (.members (.seqTook hfirst (.seqFailed hb (.inr rfl))))
  have htakes : Run retryingRound 1023 (.step (.seq [.call 1 none, .token 1 5 false])) 0
      (.having kept (some (.backtrack 0 :: .token 4 2 none :: log))) (.answer ⟨some _, _⟩)
      (.having kept (some (.token 5 2 (some 1) :: .hit 1 0 (some 2) :: .backtrack 0 ::
        .token 4 2 none :: log))) :=
    .ticked (tick_having _ _) (.members (.seqTook hsecond (.seqTook hc .seqNil)))
  have hrun := Run.body (ask_having _ _) hunknown
    (.ticked (tick_having _ _) (.alternatives (.choiceNext hfails (.choiceTook htakes))))
  have hmem : Event.hit 1 0 (some 2) ∈ .token 5 2 (some 1) :: .hit 1 0 (some 2) :: .backtrack 0 ::
      .token 4 2 none :: log := List.mem_cons_of_mem _ List.mem_cons_self
  exact mem_log_parseWith (by simp [Results.Fit]) hrun (.record ⟨_, rfl, hmem⟩ _)

end Program

end Packrat
