import PointTrace.Proofs.Reopening

/-! Texts without terminal sequences. A sequence never runs over a line break, so texts that end in
one are stripped one by one, and a painted text is stripped to its words. -/

namespace PointTrace.Style

/-- What follows the digits and semicolons of a sequence and the letter m that ends it. -/
def afterParameters? : List Char → Option (List Char)
  | [] => none
  | c :: rest =>
    if c = 'm' then some rest
    else if c.isDigit ∨ c = ';' then afterParameters? rest
    else none

/-- What follows the sequence that a text starts with. It opens with an escape character and a
bracket. -/
def afterSequence? : List Char → Option (List Char)
  | '\x1b' :: '[' :: rest => afterParameters? rest
  | _ => none

theorem length_afterParameters? {text rest : List Char} (h : afterParameters? text = some rest) :
    rest.length < text.length := by
  fun_induction afterParameters? text with
  | case1 => cases h
  | case2 text =>
    cases h
    simp
  | case3 c text _ _ ih =>
    have := ih h
    simp only [List.length_cons]
    omega
  | case4 => cases h

theorem length_afterSequence? {text rest : List Char} (h : afterSequence? text = some rest) :
    rest.length < text.length := by
  unfold afterSequence? at h
  split at h
  · have := length_afterParameters? h
    simp only [List.length_cons]
    omega
  · cases h

/-- A text without its sequences. What only starts like one stays. -/
def strip : List Char → List Char
  | [] => []
  | c :: text =>
    match _ : afterSequence? (c :: text) with
    | some rest => strip rest
    | none => c :: strip text
termination_by text => text.length
decreasing_by
  · exact length_afterSequence? ‹_›
  · simp

variable {c : Char} {text rest : List Char}

@[simp] theorem strip_nil : strip [] = [] := by
  rw [strip]

theorem strip_of_sequence (h : afterSequence? text = some rest) : strip text = strip rest := by
  cases text with
  | nil => cases h
  | cons c text =>
    rw [strip]
    split
    · next rest' h' =>
      rw [h] at h'
      cases h'
      rfl
    · next h' =>
      rw [h] at h'
      cases h'

theorem strip_cons (h : afterSequence? (c :: text) = none) :
    strip (c :: text) = c :: strip text := by
  rw [strip]
  split
  · next rest h' =>
    rw [h] at h'
    cases h'
  · rfl

theorem afterSequence?_of_ne (h : c ≠ '\x1b') : afterSequence? (c :: text) = none := by
  unfold afterSequence?
  split
  · next heq =>
    cases heq
    exact (h rfl).elim
  · rfl

/-- A text without escape characters has no sequences. -/
theorem strip_append_of_plain (h : '\x1b' ∉ text) : strip (text ++ rest) = text ++ strip rest := by
  induction text with
  | nil => rfl
  | cons c text ih =>
    rw [List.mem_cons, not_or] at h
    rw [List.cons_append, strip_cons (afterSequence?_of_ne (Ne.symm h.1)), ih h.2]
    rfl

theorem strip_opening (style : Style) (rest : List Char) :
    strip (style.opening ++ rest) = strip rest := by
  cases style <;> exact strip_of_sequence rfl

theorem strip_reset (rest : List Char) : strip (reset ++ rest) = strip rest :=
  strip_of_sequence rfl

theorem afterParameters?_line (text rest : List Char) :
    afterParameters? (text ++ '\n' :: rest) = (afterParameters? text).map (· ++ '\n' :: rest) := by
  fun_induction afterParameters? text with
  | case1 => rfl
  | case2 text => rfl
  | case3 c text hm hparam ih => simp [afterParameters?, hm, hparam, ih]
  | case4 c text hm hparam => simp [afterParameters?, hm, hparam]

theorem afterSequence?_line (text rest : List Char) :
    afterSequence? (text ++ '\n' :: rest) = (afterSequence? text).map (· ++ '\n' :: rest) := by
  fun_cases afterSequence? text with
  | case1 text => exact afterParameters?_line text rest
  | case2 text hnot =>
    unfold afterSequence?
    split
    · next heq =>
      rcases text with _ | ⟨c, _ | ⟨d, text⟩⟩
      · cases heq
      · cases heq
      · cases heq
        exact (hnot text rfl).elim
    · rfl

/-- No sequence runs over a line break. -/
theorem strip_line (text rest : List Char) :
    strip (text ++ '\n' :: rest) = strip text ++ '\n' :: strip rest := by
  fun_induction strip text with
  | case1 => exact strip_cons (afterSequence?_of_ne (by decide))
  | case2 c text behind h ih =>
    have hline := afterSequence?_line (c :: text) rest
    rw [h] at hline
    rw [strip_of_sequence hline, ih]
  | case3 c text h ih =>
    have hline := afterSequence?_line (c :: text) rest
    rw [h] at hline
    rw [List.cons_append] at hline ⊢
    rw [strip_cons hline, ih]
    rfl

example : strip "\x1b[1;34ma\x1b[0m\n\x1b[0;".toList = "a\n\x1b[0;".toList := by cbv

/-- No sequence runs over the end of a text, whatever follows it. -/
def Closed (text : String) : Prop :=
  ∀ rest, strip (text.toList ++ rest) = strip text.toList ++ strip rest

theorem Closed.strip_append {a : String} (ha : Closed a) (b : String) :
    strip (a ++ b).toList = strip a.toList ++ strip b.toList := by
  rw [String.toList_append, ha]

theorem closed_empty : Closed "" := fun _ => by simp

theorem closed_ite {P : Prop} [Decidable P] {text : String} (h : Closed text) :
    Closed (if P then text else "") := by
  split
  · exact h
  · exact closed_empty

theorem closed_line (text : String) : Closed (text ++ "\n") := by
  intro rest
  have hrest := strip_line text.toList rest
  have hend := strip_line text.toList []
  simp only [String.toList_append, List.append_assoc]
  change strip (text.toList ++ '\n' :: rest) = strip (text.toList ++ '\n' :: []) ++ _
  rw [hrest, hend]
  simp

theorem Closed.append {a b : String} (ha : Closed a) (hb : Closed b) : Closed (a ++ b) := by
  intro rest
  rw [ha.strip_append, String.toList_append, List.append_assoc, ha, hb, List.append_assoc]

theorem closed_join {texts : List String} (h : ∀ text ∈ texts, Closed text) :
    Closed (String.join texts) := by
  induction texts with
  | nil => exact closed_empty
  | cons text texts ih =>
    rw [List.forall_mem_cons] at h
    rw [String.join_cons]
    exact h.1.append (ih h.2)

section Paint

variable {style : Style} {on : Bool} {words : String}

theorem strip_paint_append (h : '\x1b' ∉ words.toList) (rest : List Char) :
    strip ((style.paint on words).toList ++ rest) = words.toList ++ strip rest := by
  unfold paint
  split
  · rw [String.toList_ofList, reopen_of_plain h, List.append_assoc, List.append_assoc,
      strip_opening, strip_append_of_plain h, strip_reset]
  · exact strip_append_of_plain h

theorem strip_paint (h : '\x1b' ∉ words.toList) :
    strip (style.paint on words).toList = words.toList := by
  simpa using strip_paint_append h []

theorem closed_paint (h : '\x1b' ∉ words.toList) : Closed (style.paint on words) := by
  intro rest
  rw [strip_paint_append h, strip_paint h]

end Paint

end PointTrace.Style
