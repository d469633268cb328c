import PointTrace.Trace

/-! Sessions: commands over a growing list of points. A command names points by their position.
Points are values, so a copy shares nothing with its source. -/

namespace PointTrace.Session

/-- The commands of a session. Some come in two spellings, a method and a call. -/
inductive Command where
  | new (x y : Int32)
  | origin
  | copy (p : Nat)
  | assign (p source : Nat)
  | set (p : Nat) (x y : Int32)
  | init (p : Nat) (x y : Int32)
  | callInit (p : Nat) (x y : Int32)
  | move (p : Nat) (dx dy : Int32)
  | callMove (p : Nat) (dx dy : Int32)
  | fill (p : Nat) (v : Int32)
  | read (p : Nat) (index : UInt64)
  | write (p : Nat) (index : UInt64) (v : Int32)
  | same (p q : Nat)
  | status (p : Nat)
  deriving DecidableEq, Repr

/-- What a command answers. -/
inductive Reply where
  | silent
  | coordinate (v : Int32)
  | truth (b : Bool)
  | status (code : UInt8)
  deriving DecidableEq, Repr

/-- The coordinate that was found, or no answer. -/
def Reply.ofCoordinate? : Option Int32 → Reply
  | some v => .coordinate v
  | none => .silent

/-- The reply of a command, read from the points before it. A position out of range has none. -/
def Command.reply (points : List Point) : Command → Reply
  | .read p i | .write p i _ => .ofCoordinate? (points[p]?.bind (·.get? i))
  | .same p q =>
    match points[p]?, points[q]? with
    | some a, some b => .truth (a == b)
    | _, _ => .silent
  | .status p =>
    match points[p]? with
    | some a => .status (exitStatus a.x)
    | none => .silent
  | _ => .silent

/-- The points after a command. -/
def Command.apply (points : List Point) : Command → List Point
  | .new x y => points ++ [⟨x, y⟩]
  | .origin => points ++ [{}]
  | .copy p => points ++ points[p]?.toList
  | .assign p source =>
    match points[source]? with
    | some a => points.set p a
    | none => points
  | .set p x y => points.modify p (fun a => (a.set .x x).set .y y)
  | .init p x y | .callInit p x y => points.modify p (·.place x y)
  | .move p dx dy | .callMove p dx dy => points.modify p (·.shift dx dy)
  | .fill p v => points.modify p (·.fill v)
  | .write p i v => points.modify p (fun a => (a.set? i v).getD a)
  | .read .. | .same .. | .status .. => points

/-- One line of a session's answer: all points after a command, and its reply. -/
structure Entry where
  points : List Point
  reply : Reply
  deriving DecidableEq, Repr

/-- The answers of a session that starts with these points. -/
def answers (points : List Point) : List Command → List Entry
  | [] => []
  | c :: rest => ⟨c.apply points, c.reply points⟩ :: answers (c.apply points) rest

/-- The answers of a session that starts with no point. -/
def run (commands : List Command) : List Entry := answers [] commands

end PointTrace.Session
