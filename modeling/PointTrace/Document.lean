import PointTrace.Json.Printer
import PointTrace.Json.Reader
import PointTrace.Layout
import PointTrace.Trace

/-! The JSON documents of traces, layouts and scripts, and how to read them back. -/

namespace PointTrace

namespace Json

def ofInt32 (v : Int32) : Json := .int v.toInt

def ofUInt64 (n : UInt64) : Json := .int n.toNat

/-- An integer in the signed 32-bit range. -/
def toInt32? : Json → Option Int32
  | .int n => if -2147483648 ≤ n ∧ n ≤ 2147483647 then some (Int32.ofInt n) else none
  | _ => none

/-- An integer in the unsigned 64-bit range. -/
def toUInt64? : Json → Option UInt64
  | .int (.ofNat n) => if n < 18446744073709551616 then some (UInt64.ofNat n) else none
  | _ => none

def toUInt8? : Json → Option UInt8
  | .int (.ofNat n) => if n < 256 then some (UInt8.ofNat n) else none
  | _ => none

def toString? : Json → Option String
  | .str s => some s
  | _ => none

end Json

def Point.toJson (p : Point) : Json := .obj [("x", .ofInt32 p.x), ("y", .ofInt32 p.y)]

def Point.ofJson? : Json → Option Point
  | .obj [("x", x), ("y", y)] => do some ⟨← x.toInt32?, ← y.toInt32?⟩
  | _ => none

/-- The tag of an action comes first, then its arguments. -/
def Action.toJson : Action → Json
  | .declare => .obj [("op", .str "declare")]
  | .assign x y => .obj [("op", .str "assign_fields"), ("x", .ofInt32 x), ("y", .ofInt32 y)]
  | .init x y => .obj [("op", .str "initialize"), ("x", .ofInt32 x), ("y", .ofInt32 y)]
  | .move dx dy => .obj [("op", .str "move"), ("dx", .ofInt32 dx), ("dy", .ofInt32 dy)]

def Action.ofJson? : Json → Option Action
  | .obj [("op", .str "declare")] => some .declare
  | .obj [("op", .str "assign_fields"), ("x", x), ("y", y)] => do
    some (.assign (← x.toInt32?) (← y.toInt32?))
  | .obj [("op", .str "initialize"), ("x", x), ("y", y)] => do
    some (.init (← x.toInt32?) (← y.toInt32?))
  | .obj [("op", .str "move"), ("dx", dx), ("dy", dy)] => do
    some (.move (← dx.toInt32?) (← dy.toInt32?))
  | _ => none

def Step.toJson (s : Step) : Json :=
  .obj [("action", s.action.toJson), ("point", s.point.toJson)]

def Step.ofJson? : Json → Option Step
  | .obj [("action", action), ("point", point)] => do
    some ⟨← Action.ofJson? action, ← Point.ofJson? point⟩
  | _ => none

namespace Trace

def toJson (t : Trace) : Json :=
  .obj [("steps", .arr (t.steps.map Step.toJson)), ("result", .ofInt32 t.result),
    ("exit_code", .int t.status.toNat)]

def ofJson? : Json → Option Trace
  | .obj [("steps", .arr steps), ("result", result), ("exit_code", status)] => do
    some ⟨← steps.mapM Step.ofJson?, ← result.toInt32?, ← status.toUInt8?⟩
  | _ => none

/-- The pieces of the indented document, without its final newline. -/
def pieces (t : Trace) : List String := t.toJson.pieces .indented 0

/-- The indented document, which ends in a newline. -/
def document (t : Trace) : String := t.toJson.render .indented ++ "\n"

end Trace

namespace Layout

def Field.toJson (f : Field) : Json :=
  .obj [("name", .str f.name), ("index", .ofUInt64 f.index), ("offset", .ofUInt64 f.offset),
    ("size", .ofUInt64 f.size)]

def Field.ofJson? : Json → Option Field
  | .obj [("name", name), ("index", index), ("offset", offset), ("size", size)] => do
    some ⟨← name.toString?, ← index.toUInt64?, ← offset.toUInt64?, ← size.toUInt64?⟩
  | _ => none

def toJson (l : Layout) : Json :=
  .obj [("name", .str l.name), ("size", .ofUInt64 l.size), ("align", .ofUInt64 l.align),
    ("fields", .arr (l.fields.map Field.toJson))]

def ofJson? : Json → Option Layout
  | .obj [("name", name), ("size", size), ("align", align), ("fields", .arr fields)] => do
    some ⟨← name.toString?, ← size.toUInt64?, ← align.toUInt64?, ← fields.mapM Field.ofJson?⟩
  | _ => none

/-- The compact document. -/
def document (l : Layout) : String := l.toJson.render .compact

end Layout

namespace Script

/-- A pair is a list of two numbers. -/
def pairToJson (p : Int32 × Int32) : Json := .arr [.ofInt32 p.1, .ofInt32 p.2]

def pairOfJson? : Json → Option (Int32 × Int32)
  | .arr [a, b] => do some (← a.toInt32?, ← b.toInt32?)
  | _ => none

def toJson (s : Script) : Json :=
  .obj [("direct", pairToJson s.direct), ("init", pairToJson s.init),
    ("delta", pairToJson s.delta)]

def ofJson? : Json → Option Script
  | .obj [("direct", direct), ("init", init), ("delta", delta)] => do
    some ⟨← pairOfJson? direct, ← pairOfJson? init, ← pairOfJson? delta⟩
  | _ => none

/-- The compact document. -/
def document (s : Script) : String := s.toJson.render .compact

end Script

end PointTrace
