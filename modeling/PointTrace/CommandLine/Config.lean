import PointTrace.CommandLine.Name
import PointTrace.Trace

/-! What a command line asks for. -/

namespace PointTrace.CommandLine

/-- One thing that was given and found good. -/
inductive Entry where
  | flag (f : Flag)
  | number (p : Param) (v : Int32)
  | out (path : String)
  deriving DecidableEq, Repr

def Entry.name : Entry → Name
  | .flag f => .flag f
  | .number p _ => .setting (.number p)
  | .out _ => .setting .out

structure Config where
  trace : Bool := false
  json : Bool := false
  layout : Bool := false
  out : Option String := none
  x : Int32 := 16
  y : Int32 := 32
  dx : Int32 := 32
  dy : Int32 := 16
  deriving DecidableEq, Repr

namespace Config

/-- Enters one thing into a configuration. -/
def enter (c : Config) : Entry → Config
  | .flag .trace => { c with trace := true }
  | .flag .json => { c with json := true }
  | .flag .layout => { c with layout := true }
  | .number .x v => { c with x := v }
  | .number .y v => { c with y := v }
  | .number .dx v => { c with dx := v }
  | .number .dy v => { c with dy := v }
  | .out path => { c with out := some path }

/-- The configuration of these entries. What is not among them keeps its default. -/
def ofEntries (entries : List Entry) : Config := entries.foldl enter {}

/-- The script of the run. The direct assignment cannot be chosen. -/
def script (c : Config) : Script := { init := (c.x, c.y), delta := (c.dx, c.dy) }

end Config

end PointTrace.CommandLine
