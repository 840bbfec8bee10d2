import Packrat.Proofs.Except

/-!
# Guarded computations

A guarded computation says where a step cannot be taken: a place that is not in a table, a key that
has no entry, an expression that must not stand there, or a recursion that goes on behind its last
level. The definitions elsewhere take a default in such a case. That no fault is met is what makes
the defaults unused.
-/

namespace Packrat

/-- Why a step cannot be taken. -/
inductive Fault where
  | outOfRange
  | noEntry
  | unresolved
  | notLexical
  | symbolInToken
  | overflow
  | endless
  deriving Repr, DecidableEq

/-- A computation that may meet a fault. -/
abbrev Guarded := Except Fault

/-- A guarded computation that may also fail with an error of its own. -/
abbrev Guarded.Failing (ε : Type) := ExceptT ε Guarded

namespace Guarded

variable {α β γ ε : Type}

/-- What has to be there. -/
def demand (fault : Fault) : Option α → Guarded α
  | some a => .ok a
  | none => .error fault

/-- The item at a place of a list. -/
def fetch (l : List α) (i : Nat) : Guarded α := demand .outOfRange l[i]?

/-- What stands in a list before a place. -/
def initial (l : List α) (stop : Nat) : Guarded (List α) :=
  if stop ≤ l.length then .ok (l.take stop) else .error .outOfRange

/-- What stands in a list from a place on. -/
def suffix (l : List α) (start : Nat) : Guarded (List α) :=
  if start ≤ l.length then .ok (l.drop start) else .error .outOfRange

/-- A computation that meets no fault. -/
def lift (x : Except ε α) : Failing ε α := ExceptT.mk (.ok x)

/-- A place in a table is looked up without a fault. -/
theorem fetch_eq {l : List α} {i : Nat} {a : α} (h : l[i]? = some a) : fetch l i = .ok a := by
  rw [fetch, h]
  rfl

/-- A look-up within a list finds what it would find with a default. -/
theorem fetch_eq_getD {l : List α} {i : Nat} (h : i < l.length) (d : α) :
    fetch l i = .ok (l[i]?.getD d) := by
  have hplace := List.getElem?_eq_getElem h
  rw [fetch_eq hplace, hplace, Option.getD_some]

/-- A step without a fault hands on what it came to. -/
theorem ok_bind (a : α) (f : α → Guarded β) : (.ok a : Guarded α) >>= f = f a := rfl

/-- The same in a computation that may fail for reasons of its own. -/
theorem liftM_ok_bind (a : α) (f : α → Failing ε β) :
    (liftM (.ok a : Guarded α) : Failing ε α) >>= f = f a := rfl

/-- Steps without a fault, one for each thing, come to what each comes to. -/
theorem mapM_eq {f : α → Guarded β} {f' : α → β} {l : List α} (h : ∀ a ∈ l, f a = .ok (f' a)) :
    l.mapM f = .ok (l.map f') := by
  induction l with
  | nil => rfl
  | cons a l ih =>
    rw [List.forall_mem_cons] at h
    rw [List.mapM_cons, h.1, ok_bind, ih h.2]
    rfl

/-- The same where something is made of what each item comes to. -/
theorem mapM_map_eq {f : α → Guarded β} {f' : α → β} {k : α → β → γ} {l : List α}
    (h : ∀ a ∈ l, f a = .ok (f' a)) :
    (l.mapM fun a => do return k a (← f a)) = .ok (l.map fun a => k a (f' a)) := by
  refine mapM_eq fun a ha => ?_
  rw [h a ha]
  rfl

/-- The same where there is always something. -/
theorem mapM_eq_filterMap {f : α → Guarded β} {f' : α → Option β} {l : List α}
    (h : ∀ a ∈ l, ∃ b, f' a = some b ∧ f a = .ok b) : l.mapM f = .ok (l.filterMap f') := by
  induction l with
  | nil => rfl
  | cons a l ih =>
    rw [List.forall_mem_cons] at h
    obtain ⟨b, hsome, hok⟩ := h.1
    rw [List.mapM_cons, hok, ok_bind, ih h.2, List.filterMap_cons_some hsome]
    rfl

/-- The same for items with their places. -/
theorem mapM_zipIdx_eq {f : α × Nat → Guarded β} {l : List α} {bs : List β} (start : Nat)
    (hlength : l.length = bs.length)
    (h : ∀ (i : Nat) a b, l[i]? = some a → bs[i]? = some b → f (a, start + i) = .ok b) :
    (l.zipIdx start).mapM f = .ok bs := by
  induction l generalizing bs start with
  | nil =>
    rw [List.length_eq_zero_iff.mp hlength.symm]
    rfl
  | cons a l ih =>
    cases bs with
    | nil => cases hlength
    | cons b bs =>
      have hrest := ih (start + 1) (Nat.succ.inj hlength) fun i a b ha hb => by
        rw [Nat.add_right_comm]
        exact h (i + 1) a b ha hb
      have hfirst : f (a, start) = .ok b := h 0 a b rfl rfl
      rw [List.zipIdx_cons, List.mapM_cons, hfirst, ok_bind, hrest]
      rfl

/-- The same for a thing that may be missing. -/
theorem option_mapM_eq {f : α → Guarded β} {f' : α → β} {o : Option α}
    (h : ∀ a, o = some a → f a = .ok (f' a)) : o.mapM f = .ok (o.map f') := by
  cases o with
  | none => rfl
  | some a =>
    rw [Option.mapM_some, h a rfl]
    rfl

/-- A loop meets no fault if no step does from a state that the steps before can lead to. -/
theorem foldlM_eq {σ : Type} {f : σ → α → Guarded σ} {f' : σ → α → σ} {P : σ → Prop} {l : List α}
    (step : ∀ s, ∀ a ∈ l, P s → f s a = .ok (f' s a) ∧ P (f' s a)) {s : σ} (hs : P s) :
    l.foldlM f s = .ok (l.foldl f' s) ∧ P (l.foldl f' s) := by
  induction l generalizing s with
  | nil => exact ⟨rfl, hs⟩
  | cons a l ih =>
    obtain ⟨ha, hs'⟩ := step s a List.mem_cons_self hs
    rw [List.foldlM_cons, ha]
    exact ih (fun s b hb => step s b (List.mem_cons_of_mem a hb)) hs'

/-- A loop whose steps succeed more often comes to the same. -/
theorem foldlM_mono {σ : Type} {f f' : σ → α → Guarded σ}
    (step : ∀ s a s', f s a = .ok s' → f' s a = .ok s') {l : List α} {s s' : σ}
    (h : l.foldlM f s = .ok s') : l.foldlM f' s = .ok s' := by
  induction l generalizing s with
  | nil => exact h
  | cons a l ih =>
    rw [List.foldlM_cons] at h ⊢
    obtain ⟨s₁, hfirst, hrest⟩ := Except.of_bind_ok h
    rw [step s a s₁ hfirst]
    exact ih hrest

/-- A question that is asked without a fault is asked of some things without a fault. -/
theorem anyM_eq {f : α → Guarded Bool} {f' : α → Bool} {l : List α}
    (h : ∀ a ∈ l, f a = .ok (f' a)) : l.anyM f = .ok (l.any f') := by
  induction l with
  | nil => rfl
  | cons a l ih =>
    rw [List.forall_mem_cons] at h
    rw [List.anyM, h.1, ok_bind, List.any_cons]
    cases f' a with
    | true => rfl
    | false => exact ih h.2

/-- Whether a computation comes to what is right, be it a value or an error. -/
def Yields (P : α → Prop) (Q : ε → Prop) : Except ε α → Prop
  | .ok a => P a
  | .error e => Q e

/-- What is said of a result may be weakened. -/
theorem Yields.imp {P P' : α → Prop} {Q : ε → Prop} {x : Except ε α} (h : Yields P Q x)
    (hP : ∀ a, P a → P' a) : Yields P' Q x := by
  cases x with
  | ok a => exact hP a h
  | error e => exact h

/-- What follows a computation meets no fault if it does not after any value of this. -/
theorem lift_bind {x : Except ε α} {f : α → Failing ε β} {f' : α → Except ε β}
    (h : ∀ a, x = .ok a → f a = lift (f' a)) : lift x >>= f = lift (x >>= f') := by
  cases x with
  | error e => rfl
  | ok a => exact h a rfl

/-- Checks that fail for reasons of their own only do so one after the other. -/
theorem forM_lift {f : α → Failing ε Unit} {f' : α → Except ε Unit} {l : List α}
    (h : ∀ a ∈ l, f a = lift (f' a)) : l.forM f = lift (l.forM f') := by
  induction l with
  | nil => rfl
  | cons a l ih =>
    rw [List.forall_mem_cons] at h
    rw [List.forM, List.forM, h.1, ih h.2]
    cases f' a <;> rfl

/-- The same for a loop that may also fail. -/
theorem foldlM_lift {σ : Type} {f : σ → α → Failing ε σ} {f' : σ → α → Except ε σ} {P : σ → Prop}
    {Q : ε → Prop} {l : List α}
    (step : ∀ s, ∀ a ∈ l, P s → f s a = lift (f' s a) ∧ Yields P Q (f' s a)) {s : σ} (hs : P s) :
    l.foldlM f s = lift (l.foldlM f' s) ∧ Yields P Q (l.foldlM f' s) := by
  induction l generalizing s with
  | nil => exact ⟨rfl, hs⟩
  | cons a l ih =>
    obtain ⟨ha, hyields⟩ := step s a List.mem_cons_self hs
    rw [List.foldlM_cons, List.foldlM_cons, ha]
    cases hx : f' s a with
    | error e =>
      rw [hx] at hyields
      exact ⟨rfl, hyields⟩
    | ok s' =>
      rw [hx] at hyields
      exact ih (fun s b hb => step s b (List.mem_cons_of_mem a hb)) hyields

end Guarded

end Packrat
