import PointTrace.Layout
import PointTrace.Trace

/-! Text listings of traces and layouts, and the terminal styles in them. Only headings and the last
line of a trace have a style. -/

namespace PointTrace

inductive Style where
  | boldBlue
  | green
  | yellow
  deriving DecidableEq, Repr

namespace Style

/-- The sequence that turns a style on. -/
def opening : Style → List Char
  | .boldBlue => ['\x1b', '[', '1', ';', '3', '4', 'm']
  | .green => ['\x1b', '[', '3', '2', 'm']
  | .yellow => ['\x1b', '[', '3', '3', 'm']

/-- The sequence that turns every style off. -/
def reset : List Char := ['\x1b', '[', '0', 'm']

/-- Turns the style on again after each reset inside a text. -/
def reopen (style : Style) : List Char → List Char
  | '\x1b' :: '[' :: '0' :: 'm' :: rest => reset ++ style.opening ++ style.reopen rest
  | c :: rest => c :: style.reopen rest
  | [] => []

/-- The text in a style, or as it is where styles are off. -/
def paint (style : Style) (on : Bool) (text : String) : String :=
  if on then String.ofList (style.opening ++ style.reopen text.toList ++ reset) else text

end Style

/-- An action as the listing shows it. -/
def Action.describe : Action → String
  | .declare => "declare point"
  | .assign x y => "point.x = " ++ x.toInt.repr ++ "; point.y = " ++ y.toInt.repr
  | .init x y => "initialize(point, " ++ x.toInt.repr ++ ", " ++ y.toInt.repr ++ ")"
  | .move dx dy => "move(point, " ++ dx.toInt.repr ++ ", " ++ dy.toInt.repr ++ ")"

/-- Fills a text with blanks on the right to at least `width` characters, and cuts nothing. -/
def padRight (width : Nat) (text : String) : String :=
  text ++ String.ofList (List.replicate (width - text.length) ' ')

/-- The line of the step with that number, without the line break. -/
def Step.row (number : Nat) (s : Step) : String :=
  "  " ++ number.repr ++ ". " ++ padRight 36 s.action.describe ++ " -> ("
    ++ s.point.x.toInt.repr ++ ", " ++ s.point.y.toInt.repr ++ ")"

def Step.line (number : Nat) (s : Step) : String := s.row number ++ "\n"

namespace Trace

/-- The lines of the steps, numbered from `number` on. -/
def lines (number : Nat) : List Step → List String
  | [] => []
  | s :: rest => s.line number :: lines (number + 1) rest

def verdict (t : Trace) : String :=
  "result: " ++ t.result.toInt.repr ++ " (exit code " ++ t.status.toNat.repr ++ ")"

/-- A heading, a line for each step, and the verdict. -/
def report (t : Trace) (colour : Bool) : String :=
  Style.boldBlue.paint colour "Point fixture" ++ "\n" ++ String.join (lines 1 t.steps)
    ++ Style.green.paint colour t.verdict ++ "\n"

end Trace

namespace Layout

/-- The line of a field without the line break. -/
def Field.row (f : Field) : String :=
  "  [" ++ f.index.toNat.repr ++ "] " ++ f.name ++ ": offset " ++ f.offset.toNat.repr ++ ", size "
    ++ f.size.toNat.repr

def Field.line (f : Field) : String := f.row ++ "\n"

def heading (l : Layout) : String :=
  "struct " ++ l.name ++ " (size " ++ l.size.toNat.repr ++ ", align " ++ l.align.toNat.repr ++ ")"

/-- A heading and a line for each field, in order. -/
def report (l : Layout) (colour : Bool) : String :=
  Style.boldBlue.paint colour l.heading ++ "\n" ++ String.join (l.fields.map Field.line)

end Layout

end PointTrace
