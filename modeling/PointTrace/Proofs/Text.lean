import Mathlib
import PointTrace.Proofs.Json.Printing

/-! Taking texts apart again. A separator that does not occur in front of it splits a text in one
way only, and so do line breaks and the blanks behind a text that does not end in one. -/

namespace PointTrace.Text

variable {c : Char} {xs xs' ys ys' : List Char}

/-- A text splits in one way at a character that is not in its front part. -/
theorem eq_of_append_cons (hxs : c ∉ xs) (hxs' : c ∉ xs') (h : xs ++ c :: ys = xs' ++ c :: ys') :
    xs = xs' ∧ ys = ys' := by
  have hsplit := congrArg (List.splitOn c) h
  rw [List.splitOn_append_cons_self_of_not_mem hxs,
    List.splitOn_append_cons_self_of_not_mem hxs'] at hsplit
  obtain rfl := (List.cons.inj hsplit).1
  exact ⟨rfl, by simpa using h⟩

/-- A text splits in one way at a character that is not in its back part. -/
theorem eq_of_append_cons_back (hys : c ∉ ys) (hys' : c ∉ ys')
    (h : xs ++ c :: ys = xs' ++ c :: ys') : xs = xs' ∧ ys = ys' := by
  have hreverse := congrArg List.reverse h
  simp only [List.reverse_append, List.reverse_cons, List.append_assoc,
    List.singleton_append] at hreverse
  obtain ⟨hback, hfront⟩ := eq_of_append_cons (by simpa using hys) (by simpa using hys') hreverse
  exact ⟨List.reverse_inj.mp hfront, List.reverse_inj.mp hback⟩

/-- A text consists of these lines, and a line break ends each of them. -/
def HasLines (text : String) (lines : List String) : Prop :=
  text.toList.splitOn '\n' = lines.map String.toList ++ [[]]

theorem HasLines.unique {text : String} {lines lines' : List String} (h : HasLines text lines)
    (h' : HasLines text lines') : lines = lines' := by
  have hmap := List.append_cancel_right (h.symm.trans h')
  exact List.map_injective_iff.mpr (fun _ _ => String.toList_inj.mp) hmap

theorem hasLines_join {lines : List String} (h : ∀ line ∈ lines, '\n' ∉ line.toList) :
    HasLines (String.join (lines.map (· ++ "\n"))) lines := by
  induction lines with
  | nil => rfl
  | cons line lines ih =>
    rw [List.forall_mem_cons] at h
    have htext : (String.join ((line :: lines).map (· ++ "\n"))).toList =
        line.toList ++ '\n' :: (String.join (lines.map (· ++ "\n"))).toList := by
      simp
    rw [HasLines, htext, List.splitOn_append_cons_self_of_not_mem h.1, ih h.2]
    rfl

theorem rdropWhile_blanks (hxs : xs.getLast? ≠ some ' ') (n : Nat) :
    (xs ++ List.replicate n ' ').rdropWhile (· == ' ') = xs := by
  induction n with
  | zero =>
    rw [List.replicate_zero, List.append_nil, List.rdropWhile_eq_self_iff]
    intro hne hlast
    rw [List.getLast?_eq_some_getLast hne] at hxs
    exact hxs (congrArg some (eq_of_beq hlast))
  | succ n ih =>
    rw [List.replicate_succ', ← List.append_assoc, List.rdropWhile_concat_pos _ _ _ rfl, ih]

/-- Blanks behind a text do not hide where it ends, as long as it does not end in a blank. -/
theorem eq_of_append_blanks (hxs : xs.getLast? ≠ some ' ') (hys : ys.getLast? ≠ some ' ')
    {m n : Nat} (h : xs ++ List.replicate m ' ' = ys ++ List.replicate n ' ') : xs = ys := by
  rw [← rdropWhile_blanks hxs m, h, rdropWhile_blanks hys]

theorem head?_append {front : String} (h : front.toList.head? = some c) (back : String) :
    (front ++ back).toList.head? = some c := by
  rw [String.toList_append, List.head?_append, h, Option.some_or]

/-- Texts that part behind some words are different. -/
theorem append_ne_of_head? {front a b : String} (h : a.toList.head? ≠ b.toList.head?) :
    front ++ a ≠ front ++ b := by
  intro heq
  exact h (congrArg (·.toList.head?) ((String.append_right_inj front).mp heq))

theorem getLast?_append {back : String} (h : back.toList.getLast? = some c) (front : String) :
    (front ++ back).toList.getLast? = some c := by
  rw [String.toList_append, List.getLast?_append, h, Option.some_or]

/-- A text that ends in a number does not end in a blank. -/
theorem getLast?_append_repr (front : String) (n : Int) :
    (front ++ n.repr).toList.getLast? ≠ some ' ' := by
  have hne : n.repr.toList ≠ [] := by cases n <;> simp [Int.repr]
  have hlast := List.getLast?_eq_some_getLast hne
  rw [getLast?_append hlast, Ne, Option.some.injEq]
  intro hblank
  exact Json.not_mem_repr (by decide) n (hblank ▸ List.getLast_mem hne)

section Words

variable {a a' b b' : String}

/-- Words split a text in one way, if their first character is not in front of them. -/
theorem split_eq_of_front (words : String) (hwords : words.toList.head? = some c)
    (ha : c ∉ a.toList) (ha' : c ∉ a'.toList) (h : a ++ words ++ b = a' ++ words ++ b') :
    a = a' ∧ b = b' := by
  obtain ⟨rest, hrest⟩ := List.head?_eq_some_iff.mp hwords
  have hlist := congrArg String.toList h
  simp only [String.toList_append, hrest, List.append_assoc, List.cons_append] at hlist
  obtain ⟨hfront, hback⟩ := eq_of_append_cons ha ha' hlist
  rw [List.append_cancel_left_eq] at hback
  exact ⟨String.toList_inj.mp hfront, String.toList_inj.mp hback⟩

/-- Words split a text in one way, if their last character is not behind them. -/
theorem split_eq_of_back (words : String) (hwords : words.toList.getLast? = some c)
    (hb : c ∉ b.toList) (hb' : c ∉ b'.toList) (h : a ++ words ++ b = a' ++ words ++ b') :
    a = a' ∧ b = b' := by
  obtain ⟨rest, hrest⟩ := List.getLast?_eq_some_iff.mp hwords
  have hlist := congrArg String.toList h
  simp only [String.toList_append, hrest, List.append_assoc, List.singleton_append] at hlist
  rw [← List.append_assoc, ← List.append_assoc] at hlist
  obtain ⟨hfront, hback⟩ := eq_of_append_cons_back hb hb' hlist
  rw [List.append_cancel_right_eq] at hfront
  exact ⟨String.toList_inj.mp hfront, String.toList_inj.mp hback⟩

end Words

/-- Two numbers between fixed words can be read off, if no number runs into the words between
them. -/
theorem numbers_eq (front middle back : String) {x y x' y' : Int}
    (hmiddle : middle.toList.head? = some c) (hc : c ≠ '-' ∧ c.isDigit = false)
    (h : front ++ x.repr ++ middle ++ y.repr ++ back =
      front ++ x'.repr ++ middle ++ y'.repr ++ back) : x = x' ∧ y = y' := by
  have hsplit : x.repr ++ middle ++ (y.repr ++ back) = x'.repr ++ middle ++ (y'.repr ++ back) := by
    simpa only [String.append_assoc, String.append_right_inj] using h
  obtain ⟨hx, hy⟩ :=
    split_eq_of_front middle hmiddle (Json.not_mem_repr hc x) (Json.not_mem_repr hc x') hsplit
  exact ⟨Int.repr_inj.mp hx, Int.repr_inj.mp ((String.append_left_inj back).mp hy)⟩

end PointTrace.Text
