import PointTrace.Proofs.Listing

/-! The arrows of a listing. Each line of a step has one, behind a description that is filled up to a
width of 36. A description that is longer pushes its arrow to the right, so the arrows stand in one
column exactly if every description fits. -/

namespace PointTrace

open Text

namespace Text

/-- Some words stand in a text from that column on. Columns are counted from zero. -/
def StartsAt (words text : String) (k : Nat) : Prop := words.toList <+: text.toList.drop k

/-- Words with a character that is nowhere else start in one column only. -/
theorem startsAt_iff {c : Char} {words front back : String} (before after : List Char)
    (hwords : words.toList = before ++ c :: after) (hbefore : c ∉ before) (hafter : c ∉ after)
    (hfront : c ∉ front.toList) (hback : c ∉ back.toList) (k : Nat) :
    StartsAt words (front ++ words ++ back) k ↔ k = front.length := by
  have htext : (front ++ words ++ back).toList =
      (front.toList ++ before) ++ c :: (after ++ back.toList) := by
    simp [hwords]
  unfold StartsAt
  constructor
  · rintro ⟨rest, hrest⟩
    generalize (front ++ words ++ back).toList = text at htext hrest
    have hk : k < text.length := by
      by_contra hlong
      rw [List.drop_eq_nil_of_le (by omega), hwords] at hrest
      simp at hrest
    have hparts : (front.toList ++ before) ++ c :: (after ++ back.toList) =
        (text.take k ++ before) ++ c :: (after ++ rest) := by
      calc (front.toList ++ before) ++ c :: (after ++ back.toList)
          = text.take k ++ text.drop k := by rw [← htext, List.take_append_drop]
        _ = text.take k ++ (words.toList ++ rest) := by rw [hrest]
        _ = (text.take k ++ before) ++ c :: (after ++ rest) := by simp [hwords]
    have hsame := (List.append_cons_inj_of_notMem (by simp [hfront, hbefore])
      (by simp [hafter, hback])).mp hparts
    have hlength := congrArg List.length (List.append_cancel_right hsame.1)
    rw [List.length_take, String.length_toList] at hlength
    omega
  · rintro rfl
    refine ⟨back.toList, ?_⟩
    simp [← String.length_toList]

end Text

theorem length_padRight (width : Nat) (text : String) :
    (padRight width text).length = max width text.length := by
  simp [padRight]
  omega

namespace Action

/-- How many characters the words of a description take, with the numbers that it shows. -/
theorem length_describe (a : Action) : a.describe.length =
    match a with
    | .declare => 13
    | .assign x y => 22 + (x.toInt.repr.length + y.toInt.repr.length)
    | .init x y => 21 + (x.toInt.repr.length + y.toInt.repr.length)
    | .move dx dy => 15 + (dx.toInt.repr.length + dy.toInt.repr.length) := by
  cases a with
  | declare => rfl
  | assign x y =>
    have hwords : "point.x = ".length = 10 ∧ "; point.y = ".length = 12 := by decide
    simp only [describe_assign, String.length_append, hwords]
    omega
  | init x y =>
    have hwords : "initialize(point, ".length = 18 ∧ ", ".length = 2 ∧ ")".length = 1 := by decide
    simp only [describe_init, String.length_append, hwords]
    omega
  | move dx dy =>
    have hwords : "move(point, ".length = 12 ∧ ", ".length = 2 ∧ ")".length = 1 := by decide
    simp only [describe_move, String.length_append, hwords]
    omega

end Action

namespace Step

/-- The arrow stands behind the number and the description, which takes 36 characters or more. -/
theorem startsAt_arrow_iff (number : Nat) (s : Step) (k : Nat) :
    StartsAt " -> " (s.row number) k ↔
      k = number.repr.length + 4 + max 36 s.action.describe.length := by
  have hdigit : '>' ≠ '-' ∧ '>'.isDigit = false := by decide
  have hfront : '>' ∉ ("  " ++ number.repr ++ ". " ++ padRight 36 s.action.describe).toList := by
    simp only [String.toList_append, List.mem_append, not_or, Json.not_mem_repr_nat hdigit,
      Action.tip_not_mem_padRight, not_false_eq_true, and_true]
    decide
  have hback :
      '>' ∉ ("(" ++ s.point.x.toInt.repr ++ ", " ++ s.point.y.toInt.repr ++ ")").toList := by
    simp [Json.not_mem_repr hdigit]
  have hrow : s.row number = "  " ++ number.repr ++ ". " ++ padRight 36 s.action.describe
      ++ " -> " ++ ("(" ++ s.point.x.toInt.repr ++ ", " ++ s.point.y.toInt.repr ++ ")") := by
    apply String.toList_inj.mp
    simp [row]
  have hlength : ("  " ++ number.repr ++ ". " ++ padRight 36 s.action.describe).length =
      number.repr.length + 4 + max 36 s.action.describe.length := by
    have hwords : "  ".length = 2 ∧ ". ".length = 2 := by decide
    simp only [String.length_append, length_padRight, hwords]
    omega
  rw [hrow, startsAt_iff [' ', '-'] [' '] rfl (by decide) (by decide) hfront hback, hlength]

end Step

namespace Script

/-- When the arrows of a listing line up. The line of each step has one arrow. All four of them
start in the same column exactly if the two numbers of the assignment have no more than 14
characters together, those of the initialization no more than 15, and those of the move no more than
21, each with its minus sign. -/
theorem arrows_aligned_iff (s : Script) :
    ∃ rows : List String, rows.length = 4 ∧
      HasLines (s.run.report false) ("Point fixture" :: rows ++ [s.run.verdict]) ∧
      (∀ row ∈ rows, ∃! k, StartsAt " -> " row k) ∧
      ((∃ k, ∀ row ∈ rows, StartsAt " -> " row k) ↔
        s.direct.1.toInt.repr.length + s.direct.2.toInt.repr.length ≤ 14 ∧
        s.init.1.toInt.repr.length + s.init.2.toInt.repr.length ≤ 15 ∧
        s.delta.1.toInt.repr.length + s.delta.2.toInt.repr.length ≤ 21) := by
  have hlines : s.run.rows false = "Point fixture" ::
      (s.run.steps.mapIdx fun i step => step.row (i + 1)) ++ [s.run.verdict] := rfl
  refine ⟨_, ?_, hlines ▸ s.run.hasLines_report false, ?_, ?_⟩
  · rw [List.length_mapIdx]
    rfl
  · intro row hrow
    obtain ⟨i, hi, rfl⟩ := List.mem_mapIdx.mp hrow
    exact ⟨_, (Step.startsAt_arrow_iff _ _ _).mpr rfl, fun k => (Step.startsAt_arrow_iff _ _ k).mp⟩
  · have hdigits : (1).repr.length = 1 ∧ (2).repr.length = 1 ∧ (3).repr.length = 1 ∧
        (4).repr.length = 1 := by decide
    simp only [steps_run, actions, record, List.mapIdx_cons, List.mapIdx_nil, List.forall_mem_cons,
      List.not_mem_nil, false_implies, implies_true, and_true, Step.startsAt_arrow_iff,
      Action.length_describe, Nat.zero_add, Nat.reduceAdd, hdigits]
    constructor
    · -- the declaration fits, so its arrow fixes the column for the others
      rintro ⟨k, hdeclare, hassign, hinit, hmove⟩
      omega
    · rintro ⟨hassign, hinit, hmove⟩
      exact ⟨41, by omega, by omega, by omega, by omega⟩

end Script

end PointTrace
