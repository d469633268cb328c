import Mathlib.Tactic
import PointTrace.Trace

/-! Runs over the integers. A coordinate is a sum reduced to 32 bits, and a status keeps eight of
them, so nothing is lost of the sum modulo 256. The recorded actions alone give back every recorded
point, and nothing else than the script decides what is recorded. -/

namespace PointTrace

/-- A signed reduction to 32 bits keeps the low eight. -/
theorem bmod_emod_256 (z : Int) : z.bmod (2 ^ 32) % 256 = z % 256 := by
  rw [Int.bmod_eq_emod]
  split <;> omega

/-- The status is the remainder of the result, also where the result is negative. -/
theorem exitStatus_toNat (v : Int32) : ((exitStatus v).toNat : Int) = v.toInt % 256 := by
  rw [exitStatus, UInt32.toNat_toUInt8, ← Int32.toNat_toBitVec, ← Int32.toInt_toBitVec,
    BitVec.toInt_eq_toNat_bmod, bmod_emod_256]
  rfl

/-- Wrapping does not reach the low eight bits. -/
theorem exitStatus_add (a b : Int32) :
    ((exitStatus (a + b)).toNat : Int) = (a.toInt + b.toInt) % 256 := by
  rw [exitStatus_toNat, Int32.toInt_add, bmod_emod_256]

/-- The coordinates of a point as integers. -/
def Point.toInts (p : Point) : Int × Int := (p.x.toInt, p.y.toInt)

/-- What an action makes of two integers. A declaration, an assignment and an initialization forget
them, and a move adds to them and reduces the sums to the signed 32-bit range. -/
def Action.replay : Action → Int × Int → Int × Int
  | .declare, _ => (0, 0)
  | .assign x y, _ | .init x y, _ => (x.toInt, y.toInt)
  | .move dx dy, (x, y) => ((x + dx.toInt).bmod (2 ^ 32), (y + dy.toInt).bmod (2 ^ 32))

/-- The integers after each of some actions. -/
def replay (start : Int × Int) : List Action → List (Int × Int)
  | [] => []
  | a :: rest => a.replay start :: replay (a.replay start) rest

theorem Action.replay_toInts (a : Action) (p : Point) : a.replay p.toInts = (a.apply p).toInts := by
  cases a with
  | declare | assign | init => rfl
  | move dx dy =>
    simp only [replay, apply, Point.shift, Point.toInts, Int32.toInt_add]

namespace Script

/-- The actions of a run, in order. -/
def actions (s : Script) : List Action :=
  [.declare, .assign s.direct.1 s.direct.2, .init s.init.1 s.init.2, .move s.delta.1 s.delta.2]

/-- The steps of actions that are applied one after the other. -/
def record (p : Point) : List Action → List Step
  | [] => []
  | a :: rest => ⟨a, a.apply p⟩ :: record (a.apply p) rest

/-- A run notes each action beside the point that the action itself leaves. -/
theorem steps_run (s : Script) : s.run.steps = record {} s.actions := rfl

/-- Only the first coordinates of the initialization and the move reach the status. -/
theorem status_run (s : Script) :
    (s.run.status.toNat : Int) = (s.init.1.toInt + s.delta.1.toInt) % 256 :=
  exitStatus_add s.init.1 s.delta.1

theorem map_action_record (p : Point) (actions : List Action) :
    (record p actions).map Step.action = actions := by
  induction actions generalizing p with
  | nil => rfl
  | cons a actions ih => rw [record, List.map_cons, ih]

/-- Every recorded point is where the recorded actions lead. -/
theorem replay_record (p : Point) (actions : List Action) :
    replay p.toInts actions = (record p actions).map (·.point.toInts) := by
  induction actions generalizing p with
  | nil => rfl
  | cons a actions ih => rw [replay, record, List.map_cons, a.replay_toInts, ih]

theorem actions_injective {s t : Script} (h : s.actions = t.actions) : s = t := by
  rcases s with ⟨⟨x, y⟩, ⟨x', y'⟩, ⟨dx, dy⟩⟩
  rcases t with ⟨⟨u, v⟩, ⟨u', v'⟩, ⟨du, dv⟩⟩
  simpa [actions, and_assoc] using h

theorem run_injective {s t : Script} (h : s.run = t.run) : s = t := by
  apply actions_injective
  rw [← map_action_record {} s.actions, ← map_action_record {} t.actions, ← steps_run, ← steps_run, h]

/-- Traces are faithful. From any start, the recorded actions of a run lead to the recorded points
one after the other. The result is the first coordinate of the last of them, the reduced sum of what
the initialization and the move give for it, and the status is that sum modulo 256. So two scripts
that agree on these have the same result and status, but only one script has the same trace. -/
theorem run_traced_faithfully (s : Script) :
    (∀ start, replay start (s.run.steps.map Step.action) = s.run.steps.map (·.point.toInts)) ∧
    s.run.steps.getLast?.map (·.point.x) = some s.run.result ∧
    s.run.result.toInt = (s.init.1.toInt + s.delta.1.toInt).bmod (2 ^ 32) ∧
    (s.run.status.toNat : Int) = (s.init.1.toInt + s.delta.1.toInt) % 256 ∧
    ∀ t : Script,
      (t.init.1 = s.init.1 → t.delta.1 = s.delta.1 →
        t.run.result = s.run.result ∧ t.run.status = s.run.status) ∧
      (s.run = t.run ↔ s = t) := by
  have hresult : ∀ t : Script, t.run.result = t.init.1 + t.delta.1 := fun _ => rfl
  have hstatus : ∀ t : Script, t.run.status = exitStatus t.run.result := fun _ => rfl
  refine ⟨fun start => ?_, rfl, Int32.toInt_add _ _, s.status_run, fun t => ⟨?_, ?_⟩⟩
  · -- the first action is a declaration, so the start does not matter
    have hdeclare : replay start s.actions = replay (Point.toInts {}) s.actions := rfl
    rw [steps_run, map_action_record, hdeclare, replay_record]
  · intro hinit hdelta
    rw [hstatus, hstatus, hresult, hresult, hinit, hdelta]
    exact ⟨rfl, rfl⟩
  · exact ⟨run_injective, fun h => by rw [h]⟩

end Script

end PointTrace
