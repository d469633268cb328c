import PointTrace.Proofs.Colour
import PointTrace.Proofs.Text

/-! The listing of a trace, taken apart again. Its lines are found at the line breaks, a step is
found in its line, and an action in its description. -/

namespace PointTrace

open Text

namespace Style

variable {style : Style} {on : Bool} {words : String} {text : List Char}

theorem newline_not_mem_opening (style : Style) : '\n' ∉ style.opening := by
  cases style <;> decide

theorem newline_not_mem_reopen (h : '\n' ∉ text) : '\n' ∉ style.reopen text := by
  fun_induction reopen style text with
  | case1 text ih =>
    simp only [List.mem_cons, not_or] at h
    simp only [List.mem_append, not_or]
    exact ⟨⟨by decide, style.newline_not_mem_opening⟩, ih h.2.2.2.2⟩
  | case2 c text _ ih =>
    rw [List.mem_cons, not_or] at h ⊢
    exact ⟨h.1, ih h.2⟩
  | case3 => exact h

/-- Painting breaks no line. -/
theorem newline_not_mem_paint (h : '\n' ∉ words.toList) : '\n' ∉ (style.paint on words).toList := by
  unfold paint
  split
  · simp only [String.toList_ofList, List.mem_append, not_or]
    exact ⟨⟨style.newline_not_mem_opening, newline_not_mem_reopen h⟩, by decide⟩
  · exact h

end Style

namespace Action

/-- The letter that the description of an action starts with. It tells the kinds apart. -/
def initial : Action → Char
  | .declare => 'd'
  | .assign .. => 'p'
  | .init .. => 'i'
  | .move .. => 'm'

theorem describe_assign (x y : Int32) : (assign x y).describe =
    "point.x = " ++ x.toInt.repr ++ "; point.y = " ++ y.toInt.repr := rfl

theorem describe_init (x y : Int32) : (init x y).describe =
    "initialize(point, " ++ x.toInt.repr ++ ", " ++ y.toInt.repr ++ ")" := rfl

theorem describe_move (dx dy : Int32) : (move dx dy).describe =
    "move(point, " ++ dx.toInt.repr ++ ", " ++ dy.toInt.repr ++ ")" := rfl

theorem head?_describe (a : Action) : a.describe.toList.head? = some a.initial := by
  cases a with
  | declare => rfl
  | assign x y => exact head?_append (head?_append (head?_append rfl _) _) _
  | init x y | move x y =>
    exact head?_append (head?_append (head?_append (head?_append rfl _) _) _) _

theorem describe_injective {a b : Action} (h : a.describe = b.describe) : a = b := by
  have hinitial : a.initial = b.initial := by
    rw [← Option.some.injEq, ← head?_describe, h, head?_describe]
  cases a with
  | declare =>
    cases b with
    | declare => rfl
    | assign | init | move => simp [initial] at hinitial
  | assign x y =>
    cases b with
    | declare | init | move => simp [initial] at hinitial
    | assign x' y' =>
      have h : "point.x = " ++ x.toInt.repr ++ "; point.y = " ++ y.toInt.repr ++ "" =
          "point.x = " ++ x'.toInt.repr ++ "; point.y = " ++ y'.toInt.repr ++ "" := by
        rw [String.append_empty, String.append_empty]
        exact h
      obtain ⟨hx, hy⟩ := numbers_eq (c := ';') _ _ _ (by decide) (by decide) h
      rw [Int32.toInt_inj.mp hx, Int32.toInt_inj.mp hy]
  | init x y =>
    cases b with
    | declare | assign | move => simp [initial] at hinitial
    | init x' y' =>
      obtain ⟨hx, hy⟩ := numbers_eq (c := ',') "initialize(point, " ", " ")" (by decide)
        (by decide) h
      rw [Int32.toInt_inj.mp hx, Int32.toInt_inj.mp hy]
  | move dx dy =>
    cases b with
    | declare | assign | init => simp [initial] at hinitial
    | move dx' dy' =>
      obtain ⟨hx, hy⟩ := numbers_eq (c := ',') "move(point, " ", " ")" (by decide)
        (by decide) h
      rw [Int32.toInt_inj.mp hx, Int32.toInt_inj.mp hy]

/-- A description has no line break or escape character in it, and no tip of an arrow. -/
theorem not_mem_describe {c : Char} (hc : c ∈ ['>', '\n', '\x1b']) (a : Action) :
    c ∉ a.describe.toList := by
  simp only [List.mem_cons, List.not_mem_nil, or_false] at hc
  have hnumber : ∀ n : Int, c ∉ n.repr.toList :=
    Json.not_mem_repr (by rcases hc with rfl | rfl | rfl <;> decide)
  cases a with
  | declare => rcases hc with rfl | rfl | rfl <;> decide
  | assign x y | init x y | move x y =>
    simp only [describe_assign, describe_init, describe_move, String.toList_append,
      List.mem_append, not_or, hnumber, not_false_eq_true, and_true]
    rcases hc with rfl | rfl | rfl <;> decide

theorem tip_not_mem_padRight (width : Nat) (a : Action) :
    '>' ∉ (padRight width a.describe).toList := by
  have hwords : '>' ∉ a.describe.toList := not_mem_describe (by decide) a
  simp [padRight, hwords]

theorem getLast?_describe (a : Action) : a.describe.toList.getLast? ≠ some ' ' := by
  cases a with
  | declare => decide
  | assign x y =>
    rw [describe_assign]
    exact getLast?_append_repr _ _
  | init x y | move x y =>
    have hlast : ")".toList.getLast? = some ')' := by decide
    simp only [describe_init, describe_move, getLast?_append hlast]
    decide

end Action

namespace Step

variable {number : Nat} {s s' : Step}

theorem not_mem_row {c : Char} (hc : c = '\n' ∨ c = '\x1b') (number : Nat) (s : Step) :
    c ∉ (s.row number).toList := by
  have hdigit : c ≠ '-' ∧ c.isDigit = false := by rcases hc with rfl | rfl <;> decide
  have haction : c ∉ s.action.describe.toList :=
    Action.not_mem_describe (by rcases hc with rfl | rfl <;> decide) _
  have hpad : ∀ n, c ∉ List.replicate n ' ' := by
    rcases hc with rfl | rfl <;> simp
  simp only [row, padRight, String.toList_append, String.toList_ofList, List.mem_append, not_or,
    Json.not_mem_repr hdigit, Json.not_mem_repr_nat hdigit, haction, hpad, not_false_eq_true,
    and_true]
  rcases hc with rfl | rfl <;> decide

/-- The arrow of a row stands behind the description and in front of the point. -/
theorem row_toList (number : Nat) (s : Step) :
    (s.row number).toList = ("  " ++ number.repr ++ ". ").toList ++
      ((padRight 36 s.action.describe ++ " -").toList ++
        '>' :: (" (" ++ s.point.x.toInt.repr ++ ", " ++ s.point.y.toInt.repr ++ ")").toList) := by
  simp [row]

/-- A step can be read off its row. -/
theorem row_injective (h : s.row number = s'.row number) : s = s' := by
  have harrow : ∀ s : Step, '>' ∉ (padRight 36 s.action.describe ++ " -").toList := by
    intro s
    rw [String.toList_append, List.mem_append, not_or]
    exact ⟨s.action.tip_not_mem_padRight 36, by decide⟩
  have hlist := congrArg String.toList h
  rw [row_toList, row_toList, List.append_cancel_left_eq] at hlist
  obtain ⟨hfront, hpoint⟩ := eq_of_append_cons (harrow s) (harrow s') hlist
  have haction : s.action = s'.action := by
    simp only [padRight, String.toList_append, String.toList_ofList,
      List.append_cancel_right_eq] at hfront
    apply Action.describe_injective
    apply String.toList_inj.mp
    exact eq_of_append_blanks s.action.getLast?_describe s'.action.getLast?_describe hfront
  obtain ⟨hx, hy⟩ := numbers_eq (c := ',') " (" ", " ")" (by decide) (by decide)
    (String.toList_inj.mp hpoint)
  rcases s with ⟨action, x, y⟩
  rcases s' with ⟨action', x', y'⟩
  cases haction
  cases Int32.toInt_inj.mp hx
  cases Int32.toInt_inj.mp hy
  rfl

end Step

namespace Trace

/-- The lines of a listing, without their line breaks. -/
def rows (t : Trace) (colour : Bool) : List String :=
  Style.boldBlue.paint colour "Point fixture" ::
    (t.steps.mapIdx (fun i s => s.row (i + 1)) ++ [Style.green.paint colour t.verdict])

theorem lines_eq (number : Nat) (steps : List Step) :
    lines number steps = (steps.mapIdx fun i s => s.row (i + number)).map (· ++ "\n") := by
  induction steps generalizing number with
  | nil => rfl
  | cons s steps ih =>
    rw [lines, ih, List.mapIdx_cons, List.map_cons, Step.line, Nat.zero_add]
    simp only [Nat.add_assoc, Nat.add_comm 1]

theorem report_eq_join (t : Trace) (colour : Bool) :
    t.report colour = String.join ((t.rows colour).map (· ++ "\n")) := by
  simp [report, rows, lines_eq, String.append_assoc]

theorem hasLines_report (t : Trace) (colour : Bool) :
    HasLines (t.report colour) (t.rows colour) := by
  rw [report_eq_join]
  refine hasLines_join fun line hline => ?_
  simp only [rows, List.mem_cons, List.mem_append, List.mem_mapIdx, List.not_mem_nil,
    or_false] at hline
  obtain rfl | ⟨i, _, rfl⟩ | rfl := hline
  · exact Style.newline_not_mem_paint (by decide)
  · exact Step.not_mem_row (Or.inl rfl) _ _
  · exact Style.newline_not_mem_paint (t.not_mem_verdict (Or.inl rfl))

theorem verdict_injective {a b : Trace} (h : a.verdict = b.verdict) :
    a.result = b.result ∧ a.status = b.status := by
  have htext : ∀ t : Trace, t.verdict = "result: " ++ t.result.toInt.repr ++ " (exit code "
      ++ (Int.ofNat t.status.toNat).repr ++ ")" := fun _ => rfl
  rw [htext, htext] at h
  obtain ⟨hresult, hstatus⟩ := numbers_eq (c := ' ') _ _ _ (by decide) (by decide) h
  exact ⟨Int32.toInt_inj.mp hresult, UInt8.toNat_inj.mp (Int.ofNat.inj hstatus)⟩

theorem report_injective {a b : Trace} {colour : Bool} (h : a.report colour = b.report colour) :
    a = b := by
  have hrows : a.rows colour = b.rows colour :=
    (a.hasLines_report colour).unique (h ▸ b.hasLines_report colour)
  rw [rows, rows, List.cons.injEq] at hrows
  obtain ⟨hsteps, hverdict⟩ := List.append_inj' hrows.2 (by simp)
  have hsteps : a.steps = b.steps := by
    apply List.ext_getElem?
    intro i
    have hi := congrArg (·[i]?) hsteps
    simp only [List.getElem?_mapIdx] at hi
    exact Option.map_injective (fun _ _ => Step.row_injective) hi
  rw [List.cons.injEq] at hverdict
  obtain ⟨hresult, hstatus⟩ := verdict_injective (Style.paint_injective _ _ hverdict.1)
  cases a
  cases b
  simp_all

/-- The listing of a trace loses nothing, with colours or without: different traces have different
listings. Without colours it has two lines more than there are steps, and each step has a line with
its number, its description, blanks up to the width of 36 and then the point that it left. -/
theorem report_faithful (a : Trace) (colour : Bool) :
    (∀ b : Trace, a.report colour = b.report colour ↔ a = b) ∧
    ∃ lines, HasLines (a.report false) lines ∧ lines.length = a.steps.length + 2 ∧
      ∀ i s, a.steps[i]? = some s → lines[i + 1]? = some ("  " ++ (i + 1).repr ++ ". "
        ++ (s.action.describe
          ++ String.ofList (List.replicate (36 - s.action.describe.length) ' '))
        ++ " -> (" ++ s.point.x.toInt.repr ++ ", " ++ s.point.y.toInt.repr ++ ")") := by
  refine ⟨fun b => ⟨report_injective, fun h => by rw [h]⟩, a.rows false, a.hasLines_report false,
    by simp [rows], fun i s hs => ?_⟩
  have hlt : i < a.steps.length := (List.getElem?_eq_some_iff.mp hs).1
  have hrow : (a.rows false)[i + 1]? = some (s.row (i + 1)) := by
    rw [rows, List.getElem?_cons_succ, List.getElem?_append_left (by simpa using hlt),
      List.getElem?_mapIdx, hs, Option.map_some]
  rw [hrow, Step.row, padRight]

end Trace

end PointTrace
