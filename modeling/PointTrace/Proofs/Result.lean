import Mathlib.Tactic

/-! Computations that may fail: where their results come from, and what a run of steps keeps. -/

namespace PointTrace.Result

variable {α β ε δ σ : Type} {r : Except ε α} {b : β}

theorem map_eq_ok_iff {f : α → β} : r.map f = .ok b ↔ ∃ a, r = .ok a ∧ f a = b := by
  cases r <;> simp [Except.map]

theorem bind_eq_ok_iff {f : α → Except ε β} : r >>= f = .ok b ↔ ∃ a, r = .ok a ∧ f a = .ok b := by
  cases r <;> simp [bind, Except.bind]

@[simp] theorem mapError_eq_ok_iff {f : ε → δ} {a : α} : r.mapError f = .ok a ↔ r = .ok a := by
  cases r <;> simp [Except.mapError]

theorem bind_eq_error_iff {f : α → Except ε β} {e : ε} :
    r >>= f = .error e ↔ r = .error e ∨ ∃ a, r = .ok a ∧ f a = .error e := by
  cases r <;> simp [bind, Except.bind]

theorem map_eq_error_iff {f : α → β} {e : ε} : r.map f = .error e ↔ r = .error e := by
  cases r <;> simp [Except.map]

theorem mapError_eq_error_iff {f : ε → δ} {d : δ} :
    r.mapError f = .error d ↔ ∃ e, r = .error e ∧ f e = d := by
  cases r <;> simp [Except.mapError]

/-- A run that fails does so at one item, and what stands before it was read. -/
theorem foldlM_eq_error {f : σ → α → Except ε σ} {xs : List α} {s : σ} {e : ε}
    (h : xs.foldlM f s = .error e) :
    ∃ read a rest t, xs = read ++ a :: rest ∧ read.foldlM f s = .ok t ∧ f t a = .error e := by
  induction xs generalizing s with
  | nil => cases h
  | cons x xs ih =>
    rw [List.foldlM_cons] at h
    obtain hx | ⟨u, hu, hxs⟩ := bind_eq_error_iff.mp h
    · exact ⟨[], x, xs, s, rfl, rfl, hx⟩
    · obtain ⟨read, a, rest, t, rfl, hread, ha⟩ := ih hxs
      refine ⟨x :: read, a, rest, t, rfl, ?_, ha⟩
      rw [List.foldlM_cons]
      exact bind_eq_ok_iff.mpr ⟨u, hu, hread⟩

/-- What holds at the start and survives every step holds of the whole list at the end. -/
theorem foldlM_induction {f : σ → α → Except ε σ} (P : List α → σ → Prop)
    (hstep : ∀ {read s a t}, P read s → f s a = .ok t → P (read ++ [a]) t)
    {xs read : List α} {s t : σ} (hs : P read s) (h : xs.foldlM f s = .ok t) :
    P (read ++ xs) t := by
  induction xs generalizing read s with
  | nil =>
    cases h
    simpa using hs
  | cons a xs ih =>
    rw [List.foldlM_cons] at h
    obtain ⟨u, hu, ht⟩ := bind_eq_ok_iff.mp h
    simpa using ih (hstep hs hu) ht

/-- What holds at the start and survives every step holds at the end. -/
theorem foldlM_invariant {f : σ → α → Except ε σ} (P : σ → Prop)
    (hstep : ∀ {s a t}, P s → f s a = .ok t → P t) {xs : List α} {s t : σ} (hs : P s)
    (h : xs.foldlM f s = .ok t) : P t :=
  @foldlM_induction α ε σ f (fun _ => P) (fun hs h => hstep hs h) xs [] s t hs h

end PointTrace.Result
