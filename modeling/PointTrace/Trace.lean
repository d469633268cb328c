import PointTrace.Point

/-! Scripts and their traces. A script fixes the arguments of one run: a direct assignment, an
initialization that overwrites it, and a move. A trace has each action beside the point that it
left. -/

namespace PointTrace

/-- One thing that happens to the point of a run. -/
inductive Action where
  | declare
  | assign (x y : Int32)
  | init (x y : Int32)
  | move (dx dy : Int32)
  deriving DecidableEq, Repr

/-- The point after an action. A declaration forgets the point before it. -/
def Action.apply : Action → Point → Point
  | .declare, _ => {}
  | .assign x y, p => (p.set .x x).set .y y
  | .init x y, p => p.place x y
  | .move dx dy, p => p.shift dx dy

/-- An action together with the point that it left. -/
structure Step where
  action : Action
  point : Point
  deriving DecidableEq, Repr

/-- A list of steps with a result and a status. Nothing ties the three together: a trace can also
be put together by hand. -/
structure Trace where
  steps : List Step
  result : Int32
  status : UInt8
  deriving DecidableEq, Repr

/-- The process status that stands for a result: its low eight bits. -/
def exitStatus (result : Int32) : UInt8 := result.toUInt32.toUInt8

structure Script where
  direct : Int32 × Int32 := (128, 65536)
  init : Int32 × Int32 := (16, 32)
  delta : Int32 × Int32 := (32, 16)
  deriving DecidableEq, Repr

/-- The trace of a run. Its result is the first coordinate of the point at the end. -/
def Script.run (s : Script) : Trace := Id.run do
  let mut steps : Array Step := #[]
  let mut point : Point := {}
  steps := steps.push ⟨.declare, point⟩
  -- Both coordinates are written directly, and then overwritten.
  let (x, y) := s.direct
  point := point.set .x x
  point := point.set .y y
  steps := steps.push ⟨.assign x y, point⟩
  let (x, y) := s.init
  point := point.place x y
  steps := steps.push ⟨.init x y, point⟩
  let (dx, dy) := s.delta
  point := point.shift dx dy
  steps := steps.push ⟨.move dx dy, point⟩
  return ⟨steps.toList, point.x, exitStatus point.x⟩

end PointTrace
