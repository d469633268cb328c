/-! A point with two 32-bit coordinates. Arithmetic on a coordinate wraps at 32 bits. -/

namespace PointTrace

/-- The coordinates of a point, in storage order. -/
inductive Axis where
  | x
  | y
  deriving DecidableEq, Repr

namespace Axis

def name : Axis → String
  | .x => "x"
  | .y => "y"

/-- Element index 0 is the first coordinate and 1 the second. No other index names one. -/
def ofIndex? (i : UInt64) : Option Axis :=
  if i = 0 then some .x else if i = 1 then some .y else none

end Axis

/-- A fresh point stands at the origin. -/
structure Point where
  x : Int32 := 0
  y : Int32 := 0
  deriving DecidableEq, Repr

namespace Point

/-- The coordinate on an axis. -/
def get (p : Point) : Axis → Int32
  | .x => p.x
  | .y => p.y

/-- Overwrites the coordinate on one axis and keeps the other. -/
def set (p : Point) : Axis → Int32 → Point
  | .x, v => { p with x := v }
  | .y, v => { p with y := v }

/-- Overwrites both coordinates, whatever they were. -/
def place (_ : Point) (x y : Int32) : Point := ⟨x, y⟩

/-- Adds a delta to each coordinate. A sum outside the 32-bit range wraps. -/
def shift (p : Point) (dx dy : Int32) : Point := ⟨p.x + dx, p.y + dy⟩

/-- Reads a coordinate through its element index. -/
def get? (p : Point) (i : UInt64) : Option Int32 := (Axis.ofIndex? i).map p.get

/-- Writes a coordinate through its element index. An index that names none writes nothing. -/
def set? (p : Point) (i : UInt64) (v : Int32) : Option Point :=
  (Axis.ofIndex? i).map (p.set · v)

/-- Stores one value through both element indices in turn. -/
def fill (p : Point) (v : Int32) : Point :=
  [0, 1].foldl (fun q i => (q.set? i v).getD q) p

end Point

end PointTrace
