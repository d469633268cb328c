import Mathlib.Tactic
import PointTrace.CommandLine.Name

/-! How names stand in arguments. An argument shows a name, and a value where an equals sign follows
it. Nothing else has the same shape. -/

namespace PointTrace.CommandLine

/-- The argument that is a name alone. -/
def Name.dashed (n : Name) : String := "--" ++ n.text

/-- The argument that is a name with a value attached to it. -/
def Name.withValue (n : Name) (value : String) : String := n.dashed ++ "=" ++ value

variable {n : Name} {a name : String} {value : Option String} {cs : List Char}

namespace Name

theorem ofText?_text (n : Name) : ofText? n.text = some n := by
  rcases n with (_ | _ | _) | ((_ | _ | _ | _) | _) | (_ | _) <;> rfl

/-- A text is found as a name exactly if the name is spelled so. -/
theorem ofText?_eq_some_iff {t : String} : ofText? t = some n ↔ n.text = t := by
  constructor
  · intro h
    simpa using List.find?_some h
  · rintro rfl
    exact ofText?_text n

end Name

theorem splitValue_append (h : '=' ∉ cs) (v : List Char) :
    splitValue (cs ++ '=' :: v) = (String.ofList cs, some (String.ofList v)) := by
  induction cs with
  | nil => simp [splitValue]
  | cons c cs ih =>
    simp only [List.mem_cons, not_or] at h
    have hc : (c != '=') = true := by simpa using Ne.symm h.1
    have := ih h.2
    simp_all [splitValue]

/-- Both parts of a split give the text back. -/
theorem splitValue_join (cs : List Char) :
    String.ofList cs = (splitValue cs).1 ++ (splitValue cs).2.elim "" ("=" ++ ·) := by
  have happ := List.takeWhile_append_dropWhile (p := (· != '=')) (l := cs)
  apply String.toList_injective
  rw [splitValue]
  split
  · next h => simpa [h] using happ.symm
  · next c v h =>
    have hc : c = '=' := by
      have := List.head_dropWhile_not (p := (· != '=')) (l := cs) (by simp [h])
      simpa [h] using this
    subst hc
    rw [h] at happ
    simpa using happ.symm

namespace Argument

theorem ofString_dashed (n : Name) : ofString n.dashed = .long n.text none := by
  rcases n with (_ | _ | _) | ((_ | _ | _ | _) | _) | (_ | _) <;> rfl

theorem ofString_withValue (n : Name) (v : String) :
    ofString (n.withValue v) = .long n.text (some v) := by
  have hne : '=' ∉ n.text.toList ∧ n.text.toList ≠ [] := by
    rcases n with (_ | _ | _) | ((_ | _ | _ | _) | _) | (_ | _) <;> decide
  have hs := splitValue_append hne.1 v.toList
  have hl : (n.withValue v).toList = '-' :: '-' :: (n.text.toList ++ '=' :: v.toList) := by
    simp [Name.withValue, Name.dashed]
  rw [ofString, hl, ofChars]
  · simp [hs]
  · simp

theorem eq_escape (h : ofString a = .escape) : a = "--" := by
  unfold ofString ofChars at h
  split at h
  · next ha => exact String.toList_injective ha
  all_goals cases h

/-- An argument of the long shape is its name behind two dashes, with its value if it has one. -/
theorem eq_long (h : ofString a = .long name value) :
    a = "--" ++ name ++ value.elim "" ("=" ++ ·) := by
  unfold ofString ofChars at h
  split at h
  · cases h
  · next rest _ ha =>
    simp only [Argument.long.injEq] at h
    obtain ⟨rfl, rfl⟩ := h
    apply String.toList_injective
    have hj := congrArg String.toList (splitValue_join rest)
    simp only [String.toList_ofList, String.toList_append] at hj
    simp only [ha, String.toList_append, List.append_assoc, ← hj]
    rfl
  all_goals cases h

/-- The name of the long shape ends before the first equals sign. -/
theorem not_mem_of_long (h : ofString a = .long name value) : '=' ∉ name.toList := by
  unfold ofString ofChars at h
  split at h
  · cases h
  · next rest _ ha =>
    simp only [Argument.long.injEq] at h
    obtain ⟨rfl, rfl⟩ := h
    intro hmem
    rw [splitValue, String.toList_ofList] at hmem
    simpa using List.all_eq_true.mp List.all_takeWhile _ hmem
  all_goals cases h

theorem eq_short {letter : Char} (h : ofString a = .short letter) :
    letter ≠ '-' ∧ ∃ rest, a = String.ofList ('-' :: letter :: rest) := by
  unfold ofString ofChars at h
  split at h
  · cases h
  · cases h
  · next c rest _ hlong ha =>
    cases h
    refine ⟨?_, rest, by rw [← ha, String.ofList_toList]⟩
    rintro rfl
    exact hlong rfl
  · cases h

theorem toList_of_plain (h : ofString a = .plain) (c : Char) (rest : List Char) :
    a.toList ≠ '-' :: c :: rest := by
  unfold ofString ofChars at h
  split at h
  · cases h
  · cases h
  · cases h
  · next hshort => exact fun ha => hshort c rest ha

end Argument

end PointTrace.CommandLine
