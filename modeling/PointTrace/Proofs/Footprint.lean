import Mathlib.Tactic
import PointTrace.Session

/-! What the commands of a session touch. A command changes at most one point in place, and it takes
over the value of at most one, so a point that is never taken over can be changed or not: nothing
but the point itself shows it. -/

namespace PointTrace.Session

/-- The point that a command changes in place. -/
def Command.target? : Command → Option Nat
  | .assign p _ | .set p _ _ | .init p _ _ | .callInit p _ _ | .move p _ _ | .callMove p _ _
  | .fill p _ | .write p _ _ => some p
  | .new .. | .origin | .copy _ | .read .. | .same .. | .status _ => none

/-- The point whose value a command takes over. -/
def Command.source? : Command → Option Nat
  | .copy p | .assign _ p => some p
  | _ => none

/-- The points that a reply is read from. -/
def Command.inspected : Command → List Nat
  | .read p _ | .write p _ _ | .status p => [p]
  | .same p q => [p, q]
  | _ => []

/-- All positions that a command names. -/
def Command.positions (c : Command) : List Nat :=
  c.target?.toList ++ c.source?.toList ++ c.inspected

/-- Every command of a session that starts with these points names points that are there. -/
def InRange (points : List Point) : List Command → Prop
  | [] => True
  | c :: rest => (∀ i ∈ c.positions, i < points.length) ∧ InRange (c.apply points) rest

instance InRange.decidable : (points : List Point) → (commands : List Command) →
    Decidable (InRange points commands)
  | _, [] => inferInstanceAs (Decidable True)
  | points, c :: rest =>
    have := InRange.decidable (c.apply points) rest
    inferInstanceAs (Decidable (_ ∧ _))

/-- The points at the end of a session: those of its last answer. -/
def finalPoints (commands : List Command) : List Point :=
  ((run commands).getLast?.map Entry.points).getD []

/-- A session without the commands that change one point in place. -/
def sparing (j : Nat) (commands : List Command) : List Command :=
  commands.filter (·.target? != some j)

section Answers

variable (points : List Point) (commands : List Command)

theorem length_answers : (answers points commands).length = commands.length := by
  induction commands generalizing points with
  | nil => rfl
  | cons c rest ih => simp [answers, ih]

theorem answers_append (more : List Command) :
    answers points (commands ++ more) =
      answers points commands ++ answers (commands.foldl Command.apply points) more := by
  induction commands generalizing points with
  | nil => rfl
  | cons c rest ih => simp [answers, ih]

/-- An answer shows the points after its command and a reply read from those before it. -/
theorem answers_getElem? (c : Command) (rest : List Command) :
    (answers points (commands ++ c :: rest))[commands.length]? =
      some ⟨c.apply (commands.foldl Command.apply points),
        c.reply (commands.foldl Command.apply points)⟩ := by
  rw [answers_append, List.getElem?_append_right (length_answers _ _).le, length_answers,
    Nat.sub_self]
  rfl

theorem finalPoints_eq : finalPoints commands = commands.foldl Command.apply [] := by
  unfold finalPoints run
  cases commands using List.reverseRecOn with
  | nil => rfl
  | append_singleton commands c =>
    rw [answers_append, List.foldl_append]
    simp [answers]

end Answers

/-- As many points in both lists, and the same ones except at one position. -/
structure AgreeBut (j : Nat) (points others : List Point) : Prop where
  length : points.length = others.length
  get : ∀ i ≠ j, points[i]? = others[i]?

namespace AgreeBut

variable {j : Nat} {points others : List Point} {c : Command}

theorem refl (j : Nat) (points : List Point) : AgreeBut j points points := ⟨rfl, fun _ _ => rfl⟩

theorem append (h : AgreeBut j points others) (new : List Point) :
    AgreeBut j (points ++ new) (others ++ new) := by
  refine ⟨by simp [h.length], fun i hi => ?_⟩
  simp only [List.getElem?_append, h.length, h.get i hi]

theorem modify (h : AgreeBut j points others) (p : Nat) (f : Point → Point) :
    AgreeBut j (points.modify p f) (others.modify p f) := by
  refine ⟨by simp [h.length], fun i hi => ?_⟩
  simp only [List.getElem?_modify, h.get i hi]

theorem modify_left (h : AgreeBut j points others) (f : Point → Point) :
    AgreeBut j (points.modify j f) others := by
  refine ⟨by simp [h.length], fun i hi => ?_⟩
  rw [List.getElem?_modify_ne f points hi.symm, h.get i hi]

/-- A command that takes nothing over from the odd point does the same to both lists. -/
theorem apply (h : AgreeBut j points others) (hsource : c.source? ≠ some j) :
    AgreeBut j (c.apply points) (c.apply others) := by
  cases c with
  | new x y => exact h.append [⟨x, y⟩]
  | origin => exact h.append [{}]
  | copy p =>
    have hp : points[p]? = others[p]? := h.get p fun hj => hsource (congrArg some hj)
    simp only [Command.apply, hp]
    exact h.append _
  | assign p source =>
    have hp : points[source]? = others[source]? := h.get source fun hj => hsource (congrArg some hj)
    simp only [Command.apply, hp, List.set_eq_modify]
    cases others[source]? with
    | none => exact h
    | some a => exact h.modify p _
  | set p | init p | callInit p | move p | callMove p | fill p | write p => exact h.modify p _
  | read | same | status => exact h

/-- A command that changes the odd point in place is seen nowhere else. -/
theorem apply_left (h : AgreeBut j points others) (htarget : c.target? = some j) :
    AgreeBut j (c.apply points) others := by
  cases c with
  | new | origin | copy | read | same | status => cases htarget
  | assign p source =>
    cases htarget
    simp only [Command.apply, List.set_eq_modify]
    cases points[source]? with
    | none => exact h
    | some a => exact h.modify_left _
  | set | init | callInit | move | callMove | fill | write =>
    cases htarget
    exact h.modify_left _

/-- A reply that is not read from the odd point is the same. -/
theorem reply (h : AgreeBut j points others) (hseen : j ∉ c.inspected) :
    c.reply points = c.reply others := by
  cases c with
  | read p | write p | status p =>
    simp only [Command.inspected, List.mem_singleton] at hseen
    simp only [Command.reply, h.get p (Ne.symm hseen)]
  | same p q =>
    simp only [Command.inspected, List.mem_cons, List.not_mem_nil, or_false, not_or] at hseen
    simp only [Command.reply, h.get p (Ne.symm hseen.1), h.get q (Ne.symm hseen.2)]
  | new | origin | copy | assign | set | init | callInit | move | callMove | fill => rfl

/-- Over a whole session, sparing the odd point leaves everything else as it is. -/
theorem foldl_sparing (h : AgreeBut j points others) {commands : List Command}
    (hsource : ∀ c ∈ commands, c.source? ≠ some j) :
    AgreeBut j (commands.foldl Command.apply points)
      ((sparing j commands).foldl Command.apply others) := by
  induction commands generalizing points others with
  | nil => exact h
  | cons c rest ih =>
    rw [List.forall_mem_cons] at hsource
    by_cases htarget : c.target? = some j
    · simpa [sparing, htarget] using ih (h.apply_left htarget) hsource.2
    · simpa [sparing, htarget] using ih (h.apply hsource.1) hsource.2

theorem inRange_sparing (h : AgreeBut j points others) {commands : List Command}
    (hsource : ∀ c ∈ commands, c.source? ≠ some j) (hrange : InRange points commands) :
    InRange others (sparing j commands) := by
  induction commands generalizing points others with
  | nil => trivial
  | cons c rest ih =>
    rw [List.forall_mem_cons] at hsource
    obtain ⟨hc, hrest⟩ := hrange
    by_cases htarget : c.target? = some j
    · simpa [sparing, htarget] using ih (h.apply_left htarget) hsource.2 hrest
    · have hkept := ih (h.apply hsource.1) hsource.2 hrest
      rw [h.length] at hc
      simpa [sparing, htarget, InRange] using ⟨hc, hkept⟩

end AgreeBut

/-- Points never alias. If no command takes over the value of point `j`, then leaving out every
command that changes `j` in place changes neither the number of points nor the final value of any
other point, and each command that stays and does not look at `j` has the same reply. The shorter
session names no point that is not there, if the longer one names none. -/
theorem sparing_unaliased (commands : List Command) (j : Nat)
    (hsource : ∀ c ∈ commands, c.source? ≠ some j) :
    (finalPoints (sparing j commands)).length = (finalPoints commands).length ∧
    (∀ i ≠ j, (finalPoints (sparing j commands))[i]? = (finalPoints commands)[i]?) ∧
    (∀ before c after, commands = before ++ c :: after → c.target? ≠ some j → j ∉ c.inspected →
      ∃ e e', (run commands)[before.length]? = some e ∧
        (run (sparing j commands))[(sparing j before).length]? = some e' ∧ e'.reply = e.reply) ∧
    (InRange [] commands → InRange [] (sparing j commands)) := by
  have hstart := AgreeBut.refl j []
  have hfinal := hstart.foldl_sparing hsource
  rw [finalPoints_eq, finalPoints_eq]
  refine ⟨hfinal.length.symm, fun i hi => (hfinal.get i hi).symm, ?_,
    hstart.inRange_sparing hsource⟩
  rintro before c after rfl htarget hseen
  have hbefore : AgreeBut j (before.foldl Command.apply [])
      ((sparing j before).foldl Command.apply []) :=
    hstart.foldl_sparing fun d hd => hsource d (List.mem_append_left _ hd)
  have hsplit : sparing j (before ++ c :: after) = sparing j before ++ c :: sparing j after := by
    simp [sparing, htarget]
  have hkept := answers_getElem? [] (sparing j before) c (sparing j after)
  rw [← hsplit] at hkept
  exact ⟨_, _, answers_getElem? [] before c after, hkept, (hbefore.reply hseen).symm⟩

/-- A copy taken before its source moves, and a point that is overwritten by the copy. -/
theorem sparing_unaliased_copy :
    let commands : List Command := [.new 1 2, .new 3 4, .copy 1, .move 1 10 10, .assign 0 2,
      .callMove 0 5 5, .same 1 2, .write 0 1 9, .status 0, .read 2 1]
    (∀ c ∈ commands, c.source? ≠ some 0) ∧ InRange [] commands ∧
      sparing 0 commands =
        [.new 1 2, .new 3 4, .copy 1, .move 1 10 10, .same 1 2, .status 0, .read 2 1] ∧
      finalPoints commands = [⟨8, 9⟩, ⟨13, 14⟩, ⟨3, 4⟩] ∧
      (finalPoints (sparing 0 commands))[1]? = some ⟨13, 14⟩ ∧
      InRange [] (sparing 0 commands) := by
  intro commands
  have hsource : ∀ c ∈ commands, c.source? ≠ some 0 := by decide
  have hrange : InRange [] commands := by decide
  have hpoints : finalPoints commands = [⟨8, 9⟩, ⟨13, 14⟩, ⟨3, 4⟩] := by decide
  obtain ⟨-, hget, -, hkept⟩ := sparing_unaliased commands 0 hsource
  refine ⟨hsource, hrange, by decide, hpoints, ?_, hkept hrange⟩
  rw [hget 1 (by decide), hpoints]
  rfl

end PointTrace.Session
