import Mathlib
import Packrat.Proofs.Grammar.Unambiguous
import Packrat.Proofs.IndexMap
import Packrat.Registry

/-!
# A registry is a finite map

Whatever a registry is asked for, it answers as a finite map from grammars to instances does. The
checksum of a form decides which bucket is searched and never what is found, so nothing is asked
of checksums.
-/

/-!
## Buckets

A bucket is a map by insertion from forms to instances. Registries that differ in one bucket differ
in size as these do.
-/

namespace Packrat

namespace Bucket

/-- Whether no two entries have one form. -/
def Distinct (b : Bucket) : Prop := (b.toList.map (·.1)).Nodup

/-- A bucket finds what it keeps as a map. -/
theorem find?_eq_get? (b : Bucket) (form : List UInt8) : b.find? form = IndexMap.get? b form := rfl

end Bucket

namespace Registry

variable {m m' : Std.HashMap UInt32 Bucket} {c : UInt32}

/-- No checksum stands twice in the listing of a table. -/
theorem nodup_toList (m : Std.HashMap UInt32 Bucket) : m.toList.Nodup := by
  refine List.Pairwise.imp ?_ (Std.HashMap.distinct_keys_toList (m := m))
  rintro a _ h rfl
  simp at h

/-- Tables that find the same list the same, in some order. -/
theorem toList_perm (h : ∀ c : UInt32, m[c]? = m'[c]?) : m.toList.Perm m'.toList := by
  refine (List.perm_ext_iff_of_nodup (nodup_toList m) (nodup_toList m')).mpr fun entry => ?_
  rw [Std.HashMap.mem_toList_iff_getElem?_eq_some, Std.HashMap.mem_toList_iff_getElem?_eq_some, h]

/-- How many entries stand in some buckets. -/
def total (m : Std.HashMap UInt32 Bucket) : Nat := (m.toList.map fun entry => entry.2.size).sum

/-- The size of a registry is the number of the entries in all buckets. -/
theorem size_eq_total (r : Registry) : r.size = total r.buckets := by
  have hfold : ∀ (l : List (UInt32 × Bucket)) n,
      l.foldl (fun n entry => n + entry.2.size) n = n + (l.map fun entry => entry.2.size).sum := by
    intro l
    induction l with
    | nil => simp
    | cons entry l ih =>
      intro n
      rw [List.foldl_cons, ih, List.map_cons, List.sum_cons, Nat.add_assoc]
  rw [size, Std.HashMap.fold_eq_foldl_toList, hfold, Nat.zero_add, total]

/-- Tables that find the same have as many entries. -/
theorem total_congr (h : ∀ c : UInt32, m[c]? = m'[c]?) : total m = total m' :=
  ((toList_perm h).map _).sum_eq

/-- A bucket and the others. -/
theorem total_eq_add (m : Std.HashMap UInt32 Bucket) (c : UInt32) :
    total m = (m.getD c #[]).size + total (m.erase c) := by
  rw [Std.HashMap.getD_eq_getD_getElem?]
  cases h : m[c]? with
  | none =>
    rw [Option.getD_none, Array.size_empty, Nat.zero_add]
    refine total_congr fun c' => ?_
    rw [Std.HashMap.getElem?_erase]
    split
    · rename_i hc
      rw [← eq_of_beq hc, h]
    · rfl
  | some b =>
    have hget : ∀ c' : UInt32, m[c']? = ((m.erase c).insert c b)[c']? := by
      intro c'
      rw [Std.HashMap.getElem?_insert, Std.HashMap.getElem?_erase]
      split
      · rename_i hc
        rw [← eq_of_beq hc, h]
      · rfl
    have hothers : (m.erase c).toList.filter (fun entry => !c == entry.1) = (m.erase c).toList := by
      refine List.filter_eq_self.mpr fun entry hentry => ?_
      rw [Std.HashMap.mem_toList_iff_getElem?_eq_some, Std.HashMap.getElem?_erase] at hentry
      split at hentry
      · cases hentry
      · rename_i hc
        simpa using hc
    have hperm := (toList_perm hget).trans Std.HashMap.toList_insert_perm
    simp only [Bool.not_eq_true, Bool.decide_eq_false] at hperm
    rw [hothers] at hperm
    rw [total, (hperm.map _).sum_eq, List.map_cons, List.sum_cons, Option.getD_some, total]

/-- Registries that differ in one bucket. -/
theorem size_add_eq {r r' : Registry}
    (h : ∀ c' : UInt32, c ≠ c' → r'.buckets[c']? = r.buckets[c']?) :
    r'.size + (r.buckets.getD c #[]).size = r.size + (r'.buckets.getD c #[]).size := by
  have hothers : total (r'.buckets.erase c) = total (r.buckets.erase c) := by
    refine total_congr fun c' => ?_
    rw [Std.HashMap.getElem?_erase, Std.HashMap.getElem?_erase]
    split
    · rfl
    · rename_i hc
      exact h c' (by simpa using hc)
  rw [size_eq_total, size_eq_total, total_eq_add _ c, total_eq_add r.buckets c, hothers]
  omega

end Registry

end Packrat

/-! ## Buckets by checksum -/

namespace Packrat

/-- What a registry can be asked for. -/
inductive Request where
  | get (g : Grammar)
  | contains (g : Grammar)
  | remove (g : Grammar)
  | clear
  | size

/-- What a registry answers. -/
inductive Reply where
  | got (answer : Except GrammarError Instance)
  | contained (held : Bool)
  | removed (found : Option Instance)
  | cleared
  | counted (n : Nat)

namespace Registry

/-- Answers one request. -/
def answer (r : Registry) : Request → Reply × Registry
  | .get g => (.got (r.get g).1, (r.get g).2)
  | .contains g => (.contained (r.contains g), r)
  | .remove g => (.removed (r.remove g).1, (r.remove g).2)
  | .clear => (.cleared, r.clear)
  | .size => (.counted r.size, r)

/-- Answers requests one after another. -/
def answers (r : Registry) : List Request → List Reply × Registry
  | [] => ([], r)
  | q :: qs =>
    let (reply, r) := r.answer q
    let (replies, r) := r.answers qs
    (reply :: replies, r)

end Registry

/-- A finite map from grammars to instances, and the serial numbers that were given so far. -/
structure Catalogue where
  held : Finmap fun _ : Grammar => Instance := ∅
  given : List Nat := []

namespace Catalogue

/-- How a finite map answers one request. An instance that is made has a serial number that was
never given before and the program that the compiler makes. -/
inductive Answers (compiler : Compiler) : Catalogue → Request → Reply → Catalogue → Prop where
  | found {c : Catalogue} {g : Grammar} {i : Instance} (hheld : c.held.lookup g = some i) :
    Answers compiler c (.get g) (.got (.ok i)) c
  | made {c : Catalogue} {g : Grammar} {i : Instance} {warnings : List GrammarWarning}
    (hheld : c.held.lookup g = none) (hmake : compiler.compile g = .ok (i.program, warnings))
    (hnew : i.serial ∉ c.given) :
    Answers compiler c (.get g) (.got (.ok i)) ⟨c.held.insert g i, i.serial :: c.given⟩
  | refused {c : Catalogue} {g : Grammar} {problem : GrammarError}
    (hheld : c.held.lookup g = none) (hmake : compiler.compile g = .error problem) :
    Answers compiler c (.get g) (.got (.error problem)) c
  | contained {c : Catalogue} {g : Grammar} {b : Bool} (hb : b = true ↔ g ∈ c.held) :
    Answers compiler c (.contains g) (.contained b) c
  | removed {c : Catalogue} {g : Grammar} :
    Answers compiler c (.remove g) (.removed (c.held.lookup g)) { c with held := c.held.erase g }
  | cleared {c : Catalogue} : Answers compiler c .clear .cleared { c with held := ∅ }
  | counted {c : Catalogue} : Answers compiler c .size (.counted c.held.keys.card) c

/-- How a finite map answers requests one after another. -/
inductive Run (compiler : Compiler) : Catalogue → List Request → List Reply → Catalogue → Prop where
  | nil {c : Catalogue} : Run compiler c [] [] c
  | cons {c c' c'' : Catalogue} {q : Request} {qs : List Request} {reply : Reply}
    {replies : List Reply} (hstep : Answers compiler c q reply c')
    (hrest : Run compiler c' qs replies c'') : Run compiler c (q :: qs) (reply :: replies) c''

end Catalogue

namespace Registry

/-- Whether a registry holds what a finite map says and keeps its buckets in order. -/
structure Represents (r : Registry) (c : Catalogue) : Prop where
  holds : ∀ g, r.find? g = c.held.lookup g
  counts : r.size = c.held.keys.card
  filled : ∀ (checksum : UInt32) (b : Bucket), r.buckets[checksum]? = some b → b ≠ #[]
  distinct : ∀ checksum, Bucket.Distinct (r.buckets.getD checksum #[])
  given : ∀ n ∈ c.given, n < r.made

variable {r : Registry} {c : Catalogue} {g g' : Grammar} {i : Instance}

/-- A registry that is new holds no grammar, like the empty map. -/
theorem represents_empty (compiler : Compiler) : Represents { compiler } {} where
  holds g := by simp [find?]
  counts := by simp [size_eq_total, total]
  filled := by simp
  distinct := by simp [Bucket.Distinct]
  given := by simp

/-- The bucket of a grammar's checksum, which is empty if there is none. -/
def bucket (r : Registry) (g : Grammar) : Bucket := r.buckets.getD (crc32 g.encode) #[]

/-- A grammar is looked for in the bucket of its checksum, by its form. -/
theorem find?_eq (r : Registry) (g : Grammar) : r.find? g = (r.bucket g).find? g.encode := by
  rw [find?, bucket, Std.HashMap.getD_eq_getD_getElem?]
  cases r.buckets[crc32 g.encode]? <;> rfl

namespace Represents

/-- A bucket takes the place of the one of a grammar's checksum, and nothing else changes. An empty
bucket is given up. -/
theorem update {r' : Registry} {c' : Catalogue} (h : r.Represents c) (g : Grammar) (b : Bucket)
    (found : Option Instance)
    (hbuckets : ∀ checksum : UInt32, r'.buckets[checksum]? =
      if crc32 g.encode = checksum then if b.isEmpty then none else some b
      else r.buckets[checksum]?)
    (hdistinct : b.Distinct)
    (hfind : ∀ form, b.find? form = if g.encode = form then found else (r.bucket g).find? form)
    (hheld : ∀ g', c'.held.lookup g' = if g = g' then found else c.held.lookup g')
    (hcount : c'.held.keys.card + (r.bucket g).size = c.held.keys.card + b.size)
    (hgiven : ∀ n ∈ c'.given, n < r'.made) : r'.Represents c' := by
  have hothers : ∀ checksum : UInt32, crc32 g.encode ≠ checksum →
      r'.buckets[checksum]? = r.buckets[checksum]? := fun checksum hne => by
    rw [hbuckets, if_neg hne]
  have hbucket : r'.bucket g = b := by
    rw [bucket, Std.HashMap.getD_eq_getD_getElem?, hbuckets, if_pos rfl]
    split
    · exact (Array.isEmpty_iff.mp ‹_›).symm
    · rfl
  constructor
  case holds =>
    intro g'
    rw [hheld, find?_eq]
    by_cases hchecksum : crc32 g.encode = crc32 g'.encode
    · have hsame : r'.bucket g' = b := by rw [bucket, ← hchecksum, ← bucket, hbucket]
      rw [hsame, hfind, ← h.holds, find?_eq, bucket, hchecksum, ← bucket]
      exact if_congr ⟨Grammar.encode_injective, congrArg _⟩ rfl rfl
    · have hne : g ≠ g' := fun hg => hchecksum (by rw [hg])
      rw [if_neg hne, ← h.holds, find?_eq, bucket, Std.HashMap.getD_eq_getD_getElem?,
        hothers _ hchecksum, ← Std.HashMap.getD_eq_getD_getElem?, ← bucket]
  case counts =>
    have hsize := size_add_eq hothers
    rw [← bucket, ← bucket, hbucket, h.counts] at hsize
    omega
  case filled =>
    intro checksum b' hb'
    rw [hbuckets] at hb'
    split at hb'
    · split at hb'
      · cases hb'
      · cases hb'
        exact fun hempty => ‹¬_› (Array.isEmpty_iff.mpr hempty)
    · exact h.filled checksum b' hb'
  case distinct =>
    intro checksum
    by_cases hchecksum : crc32 g.encode = checksum
    · rw [← hchecksum, ← bucket, hbucket]
      exact hdistinct
    · rw [Std.HashMap.getD_eq_getD_getElem?, hothers _ hchecksum,
        ← Std.HashMap.getD_eq_getD_getElem?]
      exact h.distinct checksum
  case given => exact hgiven

/-- In its bucket, a grammar is found as the map has it. -/
theorem find?_bucket (h : r.Represents c) (g : Grammar) :
    (r.bucket g).find? g.encode = c.held.lookup g := by
  rw [← find?_eq, h.holds]

end Represents

/-- A map to which a grammar was added has it and otherwise what it had. -/
theorem lookup_insert_eq (held : Finmap fun _ : Grammar => Instance) (g : Grammar) (i : Instance)
    (g' : Grammar) : (held.insert g i).lookup g' = if g = g' then some i else held.lookup g' := by
  by_cases hg : g = g'
  · rw [if_pos hg, ← hg, Finmap.lookup_insert]
  · rw [if_neg hg, Finmap.lookup_insert_of_ne _ (Ne.symm hg)]

/-- A map from which a grammar was removed lacks it and otherwise has what it had. -/
theorem lookup_erase_eq (held : Finmap fun _ : Grammar => Instance) (g g' : Grammar) :
    (held.erase g).lookup g' = if g = g' then none else held.lookup g' := by
  by_cases hg : g = g'
  · rw [if_pos hg, ← hg, Finmap.lookup_erase]
  · rw [if_neg hg, Finmap.lookup_erase_ne (Ne.symm hg)]

/-- A grammar that is added to a map without it makes one more. -/
theorem card_keys_insert {held : Finmap fun _ : Grammar => Instance} (h : held.lookup g = none) :
    (held.insert g i).keys.card = held.keys.card + 1 := by
  have hkeys : (held.insert g i).keys = insert g held.keys := by
    ext g'
    rw [Finmap.mem_keys, Finmap.mem_insert, Finset.mem_insert, Finmap.mem_keys]
  rw [hkeys, Finset.card_insert_of_notMem]
  rw [Finmap.mem_keys]
  exact Finmap.lookup_eq_none.mp h

/-- A grammar that is removed from a map with it makes one less. -/
theorem card_keys_erase {held : Finmap fun _ : Grammar => Instance} (h : held.lookup g = some i) :
    (held.erase g).keys.card + 1 = held.keys.card := by
  have hmem : g ∈ held.keys := Finmap.mem_keys.mpr (Finmap.mem_of_lookup_eq_some h)
  rw [Finmap.keys_erase, Finset.card_erase_add_one hmem]

/-- A registry answers as the finite map that it represents, and represents the map that is left. -/
theorem Represents.get (h : r.Represents c) (g : Grammar) : ∃ c',
    c.Answers r.compiler (.get g) (.got (r.get g).1) c' ∧ (r.get g).2.Represents c' := by
  unfold Registry.get
  rw [h.holds]
  cases hheld : c.held.lookup g with
  | some i => exact ⟨c, .found hheld, h⟩
  | none =>
    cases hmake : r.compiler.compile g with
    | error problem => exact ⟨c, .refused hheld hmake, h⟩
    | ok made =>
      obtain ⟨program, warnings⟩ := made
      let i : Instance := ⟨r.made, program⟩
      have hform : (r.bucket g).find? g.encode = none := by rw [h.find?_bucket, hheld]
      have hnew : i.serial ∉ c.given := fun hgiven => Nat.lt_irrefl _ (h.given _ hgiven)
      refine ⟨_, .made (i := i) hheld hmake hnew, ?_⟩
      refine h.update g ((r.bucket g).push (g.encode, i)) (some i) ?_
        (IndexMap.Distinct.push (h.distinct _) hform) ?_ ?_ ?_ ?_
      · intro checksum
        simp only [Std.HashMap.getElem?_insert, beq_iff_eq, Array.isEmpty_push]
        rfl
      · intro form
        rw [Bucket.find?_eq_get?, IndexMap.get?_push, ← Bucket.find?_eq_get?]
        split
        · rename_i hsame
          rw [← hsame, hform, Option.none_or]
        · exact Option.or_none
      · exact lookup_insert_eq c.held g i
      · rw [card_keys_insert hheld, Array.size_push]
        omega
      · intro n hn
        rcases List.mem_cons.mp hn with rfl | hn
        · exact Nat.lt_succ_self _
        · exact Nat.lt_succ_of_lt (h.given n hn)

/-- Removing a grammar from a map without it changes nothing. -/
theorem erase_eq_self {held : Finmap fun _ : Grammar => Instance} (h : held.lookup g = none) :
    held.erase g = held := by
  refine Finmap.ext_lookup fun g' => ?_
  rw [lookup_erase_eq]
  split
  · rename_i hg
    rw [← hg, h]
  · rfl

/-- The registry removes a grammar as the map does, and tells the instance that was there. -/
theorem Represents.remove (h : r.Represents c) (g : Grammar) :
    (r.remove g).1 = c.held.lookup g ∧
      (r.remove g).2.Represents { c with held := c.held.erase g } := by
  have hfind := h.find?_bucket g
  unfold Registry.remove
  simp only
  split
  · rename_i hbucket
    rw [bucket, Std.HashMap.getD_eq_getD_getElem?, hbucket] at hfind
    rw [erase_eq_self hfind.symm]
    exact ⟨hfind, h⟩
  · rename_i b hsome
    have hbucket : r.bucket g = b := by
      rw [bucket, Std.HashMap.getD_eq_getD_getElem?, hsome, Option.getD_some]
    have hb : b.Distinct := hbucket ▸ h.distinct _
    rw [hbucket] at hfind
    split
    · rename_i hplace
      have hnone : b.find? g.encode = none := IndexMap.get?_eq_none.mpr fun entry hentry => by
        simpa using Array.findFinIdx?_eq_none_iff.mp hplace entry hentry
      rw [hnone] at hfind
      rw [erase_eq_self hfind.symm]
      exact ⟨hfind, h⟩
    · rename_i place hplace
      have hform : b[place].1 = g.encode := by
        simpa using (Array.findFinIdx?_eq_some_iff.mp hplace).1
      have hfound : b.find? g.encode = some b[place].2 := by
        rw [Bucket.find?_eq_get?, IndexMap.get?_eq_some hb, ← hform]
        exact Array.getElem_mem place.isLt
      rw [hfound] at hfind
      refine ⟨hfind, h.update g (b.swapRemove place place.isLt) none ?_
        (IndexMap.Distinct.removeAt hb) ?_ ?_ ?_ h.given⟩
      · intro checksum
        split <;> simp [Std.HashMap.getElem?_insert, Std.HashMap.getElem?_erase, *]
      · intro form
        rw [hbucket]
        exact (IndexMap.get?_removeAt hb).trans (if_congr (by rw [← hform]; rfl) rfl rfl)
      · exact lookup_erase_eq c.held g
      · have hcard := card_keys_erase hfind.symm
        have hpos : 0 < b.size := Nat.lt_of_le_of_lt (Nat.zero_le _) place.isLt
        have hsize : (b.swapRemove place place.isLt).size = b.size - 1 := IndexMap.size_removeAt
        rw [hbucket, hsize]
        simp only
        omega

/-- Every request is answered as the finite map answers it, and the registry then represents what
is left of the map. -/
theorem Represents.answer (h : r.Represents c) (q : Request) : ∃ c',
    c.Answers r.compiler q (r.answer q).1 c' ∧ (r.answer q).2.Represents c' := by
  cases q with
  | get g => exact h.get g
  | contains g =>
    refine ⟨c, .contained ?_, h⟩
    rw [Registry.contains, h.holds, Finmap.lookup_isSome]
  | remove g =>
    obtain ⟨hfound, hleft⟩ := h.remove g
    rw [Registry.answer, hfound]
    exact ⟨_, .removed, hleft⟩
  | clear =>
    have hempty := represents_empty r.compiler
    exact ⟨_, .cleared, hempty.holds, hempty.counts, hempty.filled, hempty.distinct, h.given⟩
  | size =>
    rw [Registry.answer, h.counts]
    exact ⟨c, .counted, h⟩

/-- A registry keeps its compiler whatever it is asked. -/
theorem compiler_answer (r : Registry) (q : Request) : (r.answer q).2.compiler = r.compiler := by
  cases q with
  | get g => simp only [Registry.answer, Registry.get]; split <;> [rfl; (split <;> rfl)]
  | remove g => simp only [Registry.answer, Registry.remove]; split <;> [rfl; (split <;> rfl)]
  | _ => rfl

/-- From the empty registry on, or from any that represents a finite map, requests are answered as
the map answers them. -/
theorem Represents.answers (h : r.Represents c) (qs : List Request) : ∃ c',
    c.Run r.compiler qs (r.answers qs).1 c' ∧ (r.answers qs).2.Represents c' := by
  induction qs generalizing r c with
  | nil => exact ⟨c, .nil, h⟩
  | cons q qs ih =>
    obtain ⟨c', hstep, h'⟩ := h.answer q
    obtain ⟨c'', hrun, h''⟩ := ih h'
    rw [r.compiler_answer q] at hrun
    exact ⟨c'', .cons hstep hrun, h''⟩

/-- A registry that starts empty answers whatever it is asked for, in any order and for any
grammars, as a finite map from grammars to instances does: an instance that is held is found again,
a new one is made only if none is, and a compilation that fails changes nothing. It holds what the
map does and no empty bucket. -/
theorem run_answers (compiler : Compiler) (qs : List Request) :
    ∃ c : Catalogue, Catalogue.Run compiler {} qs (({ compiler } : Registry).answers qs).1 c ∧
      (∀ g, (({ compiler } : Registry).answers qs).2.find? g = c.held.lookup g) ∧
      (({ compiler } : Registry).answers qs).2.size = c.held.keys.card ∧
      ∀ (checksum : UInt32) (b : Bucket),
        (({ compiler } : Registry).answers qs).2.buckets[checksum]? = some b → b ≠ #[] := by
  obtain ⟨c, hrun, h⟩ := (represents_empty compiler).answers qs
  exact ⟨c, hrun, h.holds, h.counts, h.filled⟩

end Registry

end Packrat
