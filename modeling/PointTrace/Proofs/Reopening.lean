import Mathlib.Tactic
import PointTrace.Report

/-! Texts in which a style is turned on again after every reset. What is inserted stands right
behind a reset and starts with an escape character, so no sequence is made or broken up by it, and
the text before can be read back. -/

namespace PointTrace.Style

variable {style : Style} {c : Char} {text other front : List Char}

theorem reopen_reset (style : Style) (text : List Char) :
    style.reopen (reset ++ text) = reset ++ style.opening ++ style.reopen text :=
  reopen.eq_1 style text

theorem reopen_cons (h : ¬ reset <+: c :: text) :
    style.reopen (c :: text) = c :: style.reopen text := by
  apply reopen.eq_2
  rintro rest rfl rfl
  exact h ⟨rest, rfl⟩

theorem reopen_of_plain (h : '\x1b' ∉ text) : style.reopen text = text := by
  fun_induction reopen style text with
  | case1 => simp at h
  | case2 c text _ ih =>
    rw [List.mem_cons, not_or] at h
    rw [ih h.2]
  | case3 => rfl

/-- The start of a text, as far as it has no escape character, is left as it is. -/
theorem prefix_reopen_iff (h : '\x1b' ∉ front) : front <+: style.reopen text ↔ front <+: text := by
  induction front generalizing text with
  | nil => simp
  | cons d front ih =>
    rw [List.mem_cons, not_or] at h
    fun_cases reopen style text with
    | case1 rest => simp [reset, List.cons_prefix_cons, Ne.symm h.1]
    | case2 c rest => rw [List.cons_prefix_cons, List.cons_prefix_cons, ih h.2]
    | case3 => rfl

/-- A reset stands in front afterwards if it stood there before. -/
theorem reset_prefix_reopen_iff : reset <+: style.reopen text ↔ reset <+: text := by
  by_cases h : reset <+: text
  · obtain ⟨rest, rfl⟩ := h
    rw [reopen_reset, List.append_assoc]
    simp
  · cases text with
    | nil => rfl
    | cons c text =>
      rw [reopen_cons h, reset, List.cons_prefix_cons, List.cons_prefix_cons,
        prefix_reopen_iff (by decide)]

theorem reset_prefix_congr (h : style.reopen text = style.reopen other) :
    reset <+: text ↔ reset <+: other := by
  rw [← reset_prefix_reopen_iff, h, reset_prefix_reopen_iff]

/-- Reopening loses nothing: two texts with one result have their resets at the same places. -/
theorem eq_of_reopen_eq (h : style.reopen text = style.reopen other) : text = other := by
  have hreset := reset_prefix_congr h
  fun_induction reopen style text generalizing other with
  | case1 text ih =>
    obtain ⟨rest, rfl⟩ := hreset.mp ⟨text, rfl⟩
    rw [reopen_reset, List.append_cancel_left_eq] at h
    rw [ih h (reset_prefix_congr h)]
    rfl
  | case2 c text hno ih =>
    have hother : ¬ reset <+: other := by
      intro hother
      obtain ⟨rest, hrest⟩ := hreset.mpr hother
      obtain ⟨rfl, rfl⟩ := List.cons.inj hrest
      exact hno rest rfl rfl
    cases other with
    | nil => cases h
    | cons d rest =>
      rw [reopen_cons hother, List.cons.injEq] at h
      rw [h.1, ih h.2 (reset_prefix_congr h.2)]
  | case3 =>
    cases other with
    | nil => rfl
    | cons d rest =>
      rw [reopen_cons (mt hreset.mpr (by decide))] at h
      cases h

/-- The words can be read off a painted text, whatever sequences they hold. -/
theorem paint_injective (style : Style) (on : Bool) : Function.Injective (style.paint on) := by
  intro words words' h
  cases on with
  | false => exact h
  | true =>
    have hlist := String.ofList_injective h
    rw [List.append_cancel_right_eq, List.append_cancel_left_eq] at hlist
    exact String.toList_inj.mp (eq_of_reopen_eq hlist)

end PointTrace.Style
