import PointTrace.CommandLine.UsageError
import PointTrace.Proofs.Text

/-! The words of usage errors. They quote the command line, and a quotation is shown without its
terminal sequences and control characters. Where it has none, the message is shown as it is, and from
the message of a bad number its fault can be told. -/

namespace PointTrace.CommandLine

/-- A text of which no character is dropped. -/
def AllShown (text : String) : Prop := ∀ c ∈ text.toList, Scan.text.shows c = true

instance (text : String) : Decidable (AllShown text) :=
  decidable_of_iff (text.toList.all Scan.text.shows = true) List.all_eq_true

theorem allShown_append {a b : String} : AllShown (a ++ b) ↔ AllShown a ∧ AllShown b := by
  simp [AllShown, or_imp, forall_and]

theorem AllShown.append {a b : String} (ha : AllShown a) (hb : AllShown b) : AllShown (a ++ b) :=
  allShown_append.mpr ⟨ha, hb⟩

/-- A text without the characters that plain text does not show. -/
def dropHidden (text : String) : String := String.ofList (text.toList.filter Scan.text.shows)

theorem dropHidden_append (a b : String) : dropHidden (a ++ b) = dropHidden a ++ dropHidden b := by
  simp [dropHidden]

theorem AllShown.dropHidden_eq {text : String} (h : AllShown text) : dropHidden text = text := by
  rw [dropHidden, List.filter_eq_self.mpr h, String.ofList_toList]

namespace Scan

variable {s : Scan} {c : Char} {cs : List Char}

/-- Only an escape character leads out of plain text. -/
theorem next_text (h : c ≠ '\x1b') : Scan.text.next c = .text := by
  simp [next, h]

/-- Whatever a sequence shows, plain text shows too. -/
theorem shows_text_of_shows (h : s.shows c = true) : Scan.text.shows c = true := by
  cases s with
  | text => exact h
  | escape | mark | control =>
    have hbreak : isBreak c = true := h
    simp [shows, hbreak]
  | title | string => cases h

theorem shows_of_mem_visible (h : c ∈ s.visible cs) : Scan.text.shows c = true := by
  induction cs generalizing s with
  | nil => cases h
  | cons d rest ih =>
    rw [visible] at h
    split at h
    · next hd =>
      obtain rfl | h := List.mem_cons.mp h
      · exact shows_text_of_shows hd
      · exact ih h
    · exact ih h

/-- Without an escape character there is no sequence, so each character is judged alone. -/
theorem visible_eq_filter (h : '\x1b' ∉ cs) :
    Scan.text.visible cs = cs.filter Scan.text.shows := by
  induction cs with
  | nil => rfl
  | cons c rest ih =>
    rw [List.mem_cons, not_or] at h
    rw [visible, next_text (Ne.symm h.1), ih h.2, List.filter_cons]

end Scan

theorem allShown_shownOf (text : String) : AllShown (shownOf text) := by
  intro c hc
  rw [shownOf, String.toList_ofList] at hc
  exact Scan.shows_of_mem_visible hc

theorem shownOf_eq_dropHidden {text : String} (h : '\x1b' ∉ text.toList) :
    shownOf text = dropHidden text := by
  rw [shownOf, Scan.visible_eq_filter h, dropHidden]

theorem AllShown.not_mem {text : String} (h : AllShown text) : '\x1b' ∉ text.toList := by
  intro hc
  exact absurd (h _ hc) (by decide)

theorem AllShown.shownOf_eq {text : String} (h : AllShown text) : shownOf text = text := by
  rw [shownOf_eq_dropHidden h.not_mem, h.dropHidden_eq]

theorem Name.allShown_label (n : Name) : AllShown n.label := by
  rcases n with (_ | _ | _) | ((_ | _ | _ | _) | _) | (_ | _) <;> decide

namespace Numeral.Fault

theorem allShown_message (fault : Fault) : AllShown fault.message := by
  cases fault with
  | outOfRange n =>
    refine AllShown.append (fun c hc => ?_) (by decide)
    obtain rfl | hd := Json.mem_repr hc
    · decide
    · simp only [Char.isDigit, Bool.and_eq_true, decide_eq_true_eq] at hd
      have hlo : 48 ≤ c.toNat := UInt32.le_iff_toNat_le.mp hd.1
      have hhi : c.toNat ≤ 57 := UInt32.le_iff_toNat_le.mp hd.2
      simp only [Scan.shows, Bool.or_eq_true, Bool.and_eq_true, decide_eq_true_eq, bne_iff_ne]
      omega
  | _ => decide

/-- Only the message of a number that is out of range ends in a digit. -/
theorem getLast?_message_outOfRange (n : Int) :
    (outOfRange n).message.toList.getLast? = some '7' :=
  Text.getLast?_append (by decide) _

/-- A fault can be told from its message. -/
theorem message_injective {a b : Fault} (h : a.message = b.message) : a = b := by
  have hlast := congrArg (·.toList.getLast?) h
  cases a with
  | outOfRange n =>
    cases b with
    | outOfRange m =>
      rw [Int.repr_inj.mp ((String.append_left_inj _).mp h)]
    | _ =>
      rw [getLast?_message_outOfRange] at hlast
      exact absurd hlast (by decide)
  | _ =>
    cases b with
    | outOfRange m =>
      rw [getLast?_message_outOfRange] at hlast
      exact absurd hlast (by decide)
    | _ => first | rfl | exact absurd h (by decide)

end Numeral.Fault

namespace UsageError

variable {e : UsageError}

/-- What an error quotes from the command line. -/
def quoted : UsageError → Option String
  | .badNumber _ text _ => some text
  | .valueUnexpected _ value => some value
  | .unexpected argument => some argument
  | _ => none

theorem words_badNumber (f : String → String) (p : Param) (text : String) (fault : Numeral.Fault) :
    (badNumber p text fault).words f = "error: invalid value '" ++ f text ++ "' for '"
      ++ (Name.setting (.number p)).label ++ "': " ++ fault.message := rfl

/-- An error quotes nothing, or one text between words that are all shown. -/
theorem words_cases (e : UsageError) :
    (AllShown e.message ∧ ∀ f, e.words f = e.message) ∨
    ∃ q ∈ e.quoted, ∃ front back, AllShown front ∧ AllShown back ∧
      ∀ f, e.words f = front ++ f q ++ back := by
  cases e with
  | valueMissing s =>
    exact Or.inl ⟨.append (.append (by decide) (Name.allShown_label _)) (by decide), fun _ => rfl⟩
  | repeated n =>
    exact Or.inl ⟨.append (.append (by decide) n.allShown_label) (by decide), fun _ => rfl⟩
  | jsonMissing => exact Or.inl ⟨by decide, fun _ => rfl⟩
  | badNumber p text fault =>
    refine Or.inr ⟨text, rfl, "error: invalid value '",
      "' for '" ++ (Name.setting (.number p)).label ++ "': " ++ fault.message, by decide,
      .append (.append (.append (by decide) (Name.allShown_label _)) (by decide))
        fault.allShown_message, fun f => ?_⟩
    simp only [words_badNumber, String.append_assoc]
  | valueUnexpected n value =>
    refine Or.inr ⟨value, rfl, "error: unexpected value '",
      "' for '" ++ n.label ++ "' found; no more were expected", by decide,
      .append (.append (by decide) n.allShown_label) (by decide), fun f => ?_⟩
    change "error: unexpected value '" ++ f value ++ "' for '" ++ n.label
      ++ "' found; no more were expected" = _
    simp only [String.append_assoc]
  | unexpected argument =>
    exact Or.inr ⟨argument, rfl, _, "' found", by decide, by decide, fun _ => rfl⟩

theorem allShown_paragraph (e : UsageError) : AllShown e.paragraph := by
  obtain ⟨hshown, hwords⟩ | ⟨q, -, front, back, hfront, hback, hwords⟩ := e.words_cases
  · rwa [paragraph, hwords]
  · rw [paragraph, hwords]
    exact (hfront.append (allShown_shownOf q)).append hback

/-- Where a quotation has no terminal sequence, only characters of their own are dropped. -/
theorem paragraph_eq_dropHidden (h : ∀ q ∈ e.quoted, '\x1b' ∉ q.toList) :
    e.paragraph = dropHidden e.message := by
  obtain ⟨hshown, hwords⟩ | ⟨q, hq, front, back, hfront, hback, hwords⟩ := e.words_cases
  · rw [paragraph, hwords, hshown.dropHidden_eq]
  · rw [paragraph, message, hwords, hwords, shownOf_eq_dropHidden (h q hq), dropHidden_append,
      dropHidden_append, hfront.dropHidden_eq, hback.dropHidden_eq, id]

theorem paragraph_eq_message (h : ∀ q ∈ e.quoted, AllShown q) : e.paragraph = e.message := by
  obtain ⟨-, hwords⟩ | ⟨q, hq, front, back, -, -, hwords⟩ := e.words_cases
  · exact hwords shownOf
  · rw [paragraph, message, hwords, hwords, (h q hq).shownOf_eq, id]

theorem head?_paragraph (e : UsageError) : e.paragraph.toList.head? = some 'e' := by
  cases e with
  | valueMissing | repeated | unexpected =>
    exact Text.head?_append (Text.head?_append rfl _) _
  | badNumber =>
    exact Text.head?_append (Text.head?_append (Text.head?_append
      (Text.head?_append (Text.head?_append rfl _) _) _) _) _
  | valueUnexpected =>
    exact Text.head?_append (Text.head?_append (Text.head?_append
      (Text.head?_append rfl _) _) _) _
  | jsonMissing => rfl

end UsageError

end PointTrace.CommandLine
