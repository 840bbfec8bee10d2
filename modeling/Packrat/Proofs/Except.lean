/-!
# Computations that may fail

What a computation that succeeds was put together from has succeeded, and of what one that fails was
put together from something has failed.
-/

namespace Packrat

namespace Except

variable {α β ε : Type}

/-- Both parts of two computations in order succeed when these do. -/
theorem of_bind_ok {x : Except ε α} {f : α → Except ε β} {b : β} (h : x >>= f = .ok b) :
    ∃ a, x = .ok a ∧ f a = .ok b := by
  cases x with
  | error e => cases h
  | ok a => exact ⟨a, rfl, h⟩

/-- Of two computations in order that fail, the first does or else the second one. -/
theorem of_bind_error {x : Except ε α} {f : α → Except ε β} {e : ε} (h : x >>= f = .error e) :
    x = .error e ∨ ∃ a, x = .ok a ∧ f a = .error e := by
  cases x with
  | error e' =>
    cases h
    exact .inl rfl
  | ok a => exact .inr ⟨a, rfl, h⟩

/-- What follows a computation counts only for the outcome that this has. -/
theorem bind_congr_ok {x : Except ε α} {f g : α → Except ε β} (h : ∀ a, x = .ok a → f a = g a) :
    x >>= f = x >>= g := by
  cases x with
  | error e => rfl
  | ok a => exact h a rfl

/-- What is made of a computation that succeeds is made of its outcome. -/
theorem of_map_ok {x : Except ε α} {f : α → β} {b : β} (h : x.map f = .ok b) :
    ∃ a, x = .ok a ∧ f a = b := by
  cases x with
  | error e => cases h
  | ok a => exact ⟨a, rfl, Except.ok.inj h⟩

/-- A computation of which nothing is made has failed. -/
theorem of_map_error {x : Except ε α} {f : α → β} {e : ε} (h : x.map f = .error e) :
    x = .error e := by
  cases x with
  | error e' => exact congrArg Except.error (Except.error.inj h)
  | ok a => cases h

/-- All steps of a loop that may fail succeed when the loop does. -/
theorem of_forM_ok {f : α → Except ε Unit} {l : List α} (h : l.forM f = .ok ()) :
    ∀ x ∈ l, f x = .ok () := by
  induction l with
  | nil => simp
  | cons a l ih =>
    obtain ⟨⟨⟩, ha, hrest⟩ := of_bind_ok h
    exact List.forall_mem_cons.mpr ⟨ha, ih hrest⟩

/-- A loop that may fail and keeps nothing fails in one of its steps. -/
theorem of_forM_error {f : α → Except ε Unit} {l : List α} {e : ε} (h : l.forM f = .error e) :
    ∃ x ∈ l, f x = .error e := by
  induction l with
  | nil => cases h
  | cons a l ih =>
    rcases of_bind_error h with ha | ⟨_, -, hrest⟩
    · exact ⟨a, List.mem_cons_self, ha⟩
    · obtain ⟨x, hx, hfx⟩ := ih hrest
      exact ⟨x, List.mem_cons_of_mem a hx, hfx⟩

/-- A loop that may fail fails in one of its steps. -/
theorem of_foldlM_error {f : β → α → Except ε β} {l : List α} {b : β} {e : ε}
    (h : l.foldlM f b = .error e) : ∃ b', ∃ x ∈ l, f b' x = .error e := by
  induction l generalizing b with
  | nil => cases h
  | cons a l ih =>
    rw [List.foldlM_cons] at h
    rcases of_bind_error h with ha | ⟨_, -, hrest⟩
    · exact ⟨b, a, List.mem_cons_self, ha⟩
    · obtain ⟨b', x, hx, hfx⟩ := ih hrest
      exact ⟨b', x, List.mem_cons_of_mem a hx, hfx⟩

end Except

end Packrat
