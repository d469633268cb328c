import PointTrace.Point

/-! Memory layouts of records: which field lies where, and how many bytes it takes. -/

namespace PointTrace

/-- One field of a record. Its index is a number of its own and need not be its position. -/
structure Layout.Field where
  name : String
  index : UInt64
  offset : UInt64
  size : UInt64
  deriving DecidableEq, Repr

structure Layout where
  name : String
  size : UInt64
  align : UInt64
  fields : List Layout.Field
  deriving DecidableEq, Repr

namespace Layout

/-- The first field of that name. Names are compared character by character. -/
def named? (l : Layout) (name : String) : Option Field := l.fields.find? (·.name == name)

/-- The first field that carries that index. -/
def indexed? (l : Layout) (index : UInt64) : Option Field := l.fields.find? (·.index == index)

end Layout

/-- Two packed 32-bit fields, in storage order. -/
def Point.layout : Layout where
  name := "Point"
  size := 8
  align := 4
  fields := [⟨Axis.x.name, 0, 0, 4⟩, ⟨Axis.y.name, 1, 4, 4⟩]

end PointTrace
