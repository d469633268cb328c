import PointTrace.Proofs.Footprint
import PointTrace.Proofs.Replay

/-! Where moves take a point. Every move wraps on its own, but a wrapped sum is the reduction of the
true one, so however many moves there are, one reduction at the end gives the same coordinates. -/

namespace PointTrace.Session

/-- A distance on each axis. -/
abbrev Delta : Type := Int32 × Int32

/-- The point of which a command overwrites a coordinate. An index that names no coordinate
overwrites nothing. -/
def Command.overwritten? : Command → Option Nat
  | .assign p _ | .set p _ _ | .init p _ _ | .callInit p _ _ | .fill p _ => some p
  | .write p i _ => (Axis.ofIndex? i).map fun _ => p
  | _ => none

/-- How far a command moves a point. -/
def Command.delta? (p : Nat) : Command → Option Delta
  | .move q dx dy | .callMove q dx dy => if q = p then some (dx, dy) else none
  | _ => none

/-- The moves of one point in a session. -/
def moves (p : Nat) (commands : List Command) : List Delta := commands.filterMap (·.delta? p)

/-- One move that stands for several. -/
def merge (deltas : List Delta) : Delta :=
  ((deltas.map Prod.fst).sum, (deltas.map Prod.snd).sum)

/-- How far some moves go on one axis, over the integers. -/
def total (axis : Delta → Int32) (deltas : List Delta) : Int :=
  (deltas.map fun d => (axis d).toInt).sum

section Sums

variable (axis : Delta → Int32)

theorem ofInt_total (deltas : List Delta) :
    Int32.ofInt (total axis deltas) = (deltas.map axis).sum := by
  induction deltas with
  | nil => rfl
  | cons d deltas ih =>
    rw [total, List.map_cons, List.sum_cons, Int32.ofInt_add, Int32.ofInt_toInt, ← total, ih]
    rfl

theorem total_append (deltas more : List Delta) :
    total axis (deltas ++ more) = total axis deltas + total axis more := by
  simp [total]

/-- Merged moves go as far as all of them, up to wrapping. -/
theorem ofInt_total_merge (haxis : ∀ ds, axis (merge ds) = (ds.map axis).sum)
    (groups : List (List Delta)) :
    Int32.ofInt (total axis (groups.map merge)) = Int32.ofInt (total axis groups.flatten) := by
  induction groups with
  | nil => rfl
  | cons ds groups ih =>
    rw [List.flatten_cons, total_append, Int32.ofInt_add, ← ih, ofInt_total axis ds, ← haxis,
      ofInt_total, ofInt_total]
    rfl

/-- Moving step by step comes to adding everything up first. -/
theorem foldl_shift (deltas : List Delta) (q : Point) :
    deltas.foldl (fun q d => q.shift d.1 d.2) q =
      ⟨.ofInt (q.x.toInt + total Prod.fst deltas), .ofInt (q.y.toInt + total Prod.snd deltas)⟩ := by
  induction deltas generalizing q with
  | nil => simp [total]
  | cons d deltas ih =>
    rw [List.foldl_cons, ih]
    simp only [Point.shift, total, List.map_cons, List.sum_cons, Int32.ofInt_add,
      Int32.ofInt_toInt, Int32.add_assoc]

end Sums

variable {points : List Point} {p : Nat} {q : Point} {c : Command} {commands : List Command}

/-- A command leaves every point as it is that it does not change in place. -/
theorem getElem?_apply_of_ne (hq : points[p]? = some q) (hc : c.target? ≠ some p) :
    (c.apply points)[p]? = some q := by
  have hlt : p < points.length := (List.getElem?_eq_some_iff.mp hq).1
  cases htarget : c.target? with
  | some j =>
    have hne : p ≠ j := by
      rintro rfl
      exact hc htarget
    rw [((AgreeBut.refl j points).apply_left htarget).get p hne, hq]
  | none =>
    cases c with
    | new | origin | copy => rw [Command.apply, List.getElem?_append_left hlt, hq]
    | read | same | status => exact hq
    | _ => cases htarget

/-- A command that overwrites nothing of a point moves it or leaves it as it is. -/
theorem getElem?_apply (hq : points[p]? = some q) (hc : c.overwritten? ≠ some p) :
    (c.apply points)[p]? = some ((c.delta? p).elim q fun d => q.shift d.1 d.2) := by
  by_cases htarget : c.target? = some p
  · cases c with
    | new | origin | copy | read | same | status => cases htarget
    | assign | set | init | callInit | fill => exact (hc htarget).elim
    | move | callMove =>
      cases htarget
      simp [Command.apply, Command.delta?, hq]
    | write r i v =>
      cases htarget
      have hindex : Axis.ofIndex? i = none := by
        simpa [Command.overwritten?, Option.eq_none_iff_forall_ne_some] using hc
      simp [Command.apply, Command.delta?, Point.set?, hindex, hq]
  · have hdelta : c.delta? p = none := by
      cases c <;> simp_all [Command.delta?, Command.target?]
    rw [getElem?_apply_of_ne hq htarget, hdelta]
    rfl

/-- Over a whole session, a point of which nothing is overwritten makes all its moves in turn. -/
theorem getElem?_foldl_apply (hq : points[p]? = some q)
    (hc : ∀ c ∈ commands, c.overwritten? ≠ some p) :
    (commands.foldl Command.apply points)[p]? =
      some ((moves p commands).foldl (fun q d => q.shift d.1 d.2) q) := by
  induction commands generalizing points q with
  | nil => exact hq
  | cons c commands ih =>
    rw [List.forall_mem_cons] at hc
    rw [List.foldl_cons, ih (getElem?_apply hq hc.1) hc.2]
    cases hdelta : c.delta? p <;> simp [moves, hdelta]

/-- A point that stands at `start` and of which nothing is overwritten afterwards. -/
theorem getElem?_finalPoints {before after : List Command} {start : Point}
    (hstart : (finalPoints before)[p]? = some start)
    (hmoves : ∀ c ∈ after, c.overwritten? ≠ some p) :
    (finalPoints (before ++ after))[p]? =
      some ⟨.ofInt (start.x.toInt + total Prod.fst (moves p after)),
        .ofInt (start.y.toInt + total Prod.snd (moves p after))⟩ := by
  rw [finalPoints_eq] at hstart ⊢
  rw [List.foldl_append, getElem?_foldl_apply hstart hmoves, foldl_shift]

/-- Moves add up. If a point stands at `start`, and later commands overwrite none of its
coordinates, then it ends at `start` plus the sum of its moves, taken over the integers and reduced
once. Merging the moves in any order and grouping ends at the same place, and the status of the
point is that sum modulo 256. -/
theorem moves_add_up {before after : List Command} {p : Nat} {start : Point}
    (hstart : (finalPoints before)[p]? = some start)
    (hmoves : ∀ c ∈ after, c.overwritten? ≠ some p) :
    let x := start.x.toInt + ((moves p after).map fun d => d.1.toInt).sum
    let y := start.y.toInt + ((moves p after).map fun d => d.2.toInt).sum
    (∃ q, (finalPoints (before ++ after))[p]? = some q ∧
      q.x.toInt = x.bmod (2 ^ 32) ∧ q.y.toInt = y.bmod (2 ^ 32)) ∧
    (∀ (other : List Command) (groups : List (List Delta)), (∀ c ∈ other, c.overwritten? ≠ some p) →
      groups.flatten.Perm (moves p after) → moves p other = groups.map merge →
      (finalPoints (before ++ other))[p]? = (finalPoints (before ++ after))[p]?) ∧
    ∃ entry code, (run (before ++ after ++ [.status p])).getLast? = some entry ∧
      entry.reply = .status code ∧ (code.toNat : Int) = x % 256 := by
  intro x y
  have hend : (finalPoints (before ++ after))[p]? = some ⟨.ofInt x, .ofInt y⟩ :=
    getElem?_finalPoints hstart hmoves
  refine ⟨⟨_, hend, Int32.toInt_ofInt, Int32.toInt_ofInt⟩, ?_, ?_⟩
  · intro other groups hother hperm hmerge
    have htotal : ∀ axis, total axis groups.flatten = total axis (moves p after) :=
      fun _ => (hperm.map _).sum_eq
    rw [getElem?_finalPoints hstart hmoves, getElem?_finalPoints hstart hother, hmerge]
    simp only [Int32.ofInt_add, ofInt_total_merge Prod.fst (fun _ => rfl),
      ofInt_total_merge Prod.snd (fun _ => rfl), htotal]
  · have hlast : (run (before ++ after ++ [.status p])).getLast? =
        some ⟨finalPoints (before ++ after),
          (Command.status p).reply (finalPoints (before ++ after))⟩ := by
      rw [run, answers_append, finalPoints_eq]
      exact List.getLast?_concat
    refine ⟨_, exitStatus (.ofInt x), hlast, ?_, ?_⟩
    · simp only [Command.reply, hend]
    · rw [exitStatus_toNat, Int32.toInt_ofInt]
      exact bmod_emod_256 x

/-- Moves that leave the range on both axes, between commands that look at the point or change
others, and the same moves merged in another order. -/
theorem moves_add_up_overflow :
    let before : List Command := [.origin, .new 2147483647 (-2147483648)]
    let after : List Command := [.move 1 1 (-1), .copy 1, .callMove 1 2147483647 (-2147483648),
      .init 0 5 5, .write 1 2 7, .read 1 0, .move 2 9 9, .assign 0 1, .callMove 1 (-3) 4]
    let other : List Command := [.callMove 1 (-2) 3, .fill 0 1, .move 1 2147483647 (-2147483648)]
    (finalPoints before)[1]? = some ⟨2147483647, -2147483648⟩ ∧
      (∀ c ∈ after, c.overwritten? ≠ some 1) ∧ InRange [] (before ++ after) ∧
      moves 1 after = [(1, -1), (2147483647, -2147483648), (-3, 4)] ∧
      (∃ q, (finalPoints (before ++ after))[1]? = some q ∧ q.x.toInt = -4 ∧ q.y.toInt = 3) ∧
      (finalPoints (before ++ other))[1]? = (finalPoints (before ++ after))[1]? ∧
      ∃ entry code, (run (before ++ after ++ [.status 1])).getLast? = some entry ∧
        entry.reply = .status code ∧ (code.toNat : Int) = 4294967292 % 256 := by
  intro before after other
  have hstart : (finalPoints before)[1]? = some ⟨2147483647, -2147483648⟩ := by decide
  have hmoves : ∀ c ∈ after, c.overwritten? ≠ some 1 := by decide
  obtain ⟨hend, hmerge, hstatus⟩ := moves_add_up hstart hmoves
  exact ⟨hstart, hmoves, by decide, by decide, hend,
    hmerge other [[(-3, 4), (1, -1)], [(2147483647, -2147483648)]] (by decide) (by decide)
      (by decide), hstatus⟩

end PointTrace.Session
