/-! The names that a command line may use, and the shapes of its arguments. Names are compared
exactly: no abbreviation stands for one, and case matters. -/

namespace PointTrace.CommandLine

/-- Switches, off unless given. -/
inductive Flag where
  | trace
  | json
  | layout
  deriving DecidableEq, Repr

/-- The numbers of a run. -/
inductive Param where
  | x
  | y
  | dx
  | dy
  deriving DecidableEq, Repr

/-- Names that take a value. -/
inductive Setting where
  | number (p : Param)
  | out
  deriving DecidableEq, Repr

/-- Names that ask for a text in place of a run. -/
inductive Notice where
  | help
  | version
  deriving DecidableEq, Repr

inductive Name where
  | flag (f : Flag)
  | setting (s : Setting)
  | notice (n : Notice)
  deriving DecidableEq, Repr

namespace Name

/-- The name without its dashes. -/
def text : Name → String
  | .flag .trace => "trace"
  | .flag .json => "json"
  | .flag .layout => "layout"
  | .setting (.number .x) => "x"
  | .setting (.number .y) => "y"
  | .setting (.number .dx) => "dx"
  | .setting (.number .dy) => "dy"
  | .setting .out => "out"
  | .notice .help => "help"
  | .notice .version => "version"

/-- Every name once. -/
def all : List Name :=
  [.flag .trace, .flag .json, .flag .layout, .setting (.number .x), .setting (.number .y),
    .setting (.number .dx), .setting (.number .dy), .setting .out, .notice .help, .notice .version]

/-- The name that is spelled so. -/
def ofText? (text : String) : Option Name := all.find? (·.text == text)

/-- The name as errors show it, with the kind of value that it takes. -/
def label : Name → String
  | .setting (.number .x) => "--x <X>"
  | .setting (.number .y) => "--y <Y>"
  | .setting (.number .dx) => "--dx <DX>"
  | .setting (.number .dy) => "--dy <DY>"
  | .setting .out => "--out <file>"
  | n => "--" ++ n.text

end Name

/-- Whether a setting takes an argument that stands after it as its value. A number takes any. A
file takes none that looks like an option, and a lone dash does not. -/
def Setting.takes : Setting → String → Bool
  | .number _, _ => true
  | .out, argument =>
    match argument.toList with
    | '-' :: _ :: _ => false
    | _ => true

/-- The shapes of a single argument. -/
inductive Argument where
  /-- Two dashes alone. -/
  | escape
  /-- Two dashes and a name. A value may follow the first equals sign, and it may be empty. -/
  | long (name : String) (value : Option String)
  /-- One dash and letters. Only the first letter matters, since every letter ends the reading. -/
  | short (letter : Char)
  /-- Anything else, a lone dash and the empty text included. -/
  | plain
  deriving DecidableEq, Repr

/-- Splits at the first equals sign. Without one there is no value. -/
def splitValue (text : List Char) : String × Option String :=
  (String.ofList (text.takeWhile (· != '=')),
    match text.dropWhile (· != '=') with
    | [] => none
    | _ :: value => some (String.ofList value))

/-- The shape of a list of characters. -/
def Argument.ofChars : List Char → Argument
  | ['-', '-'] => .escape
  | '-' :: '-' :: rest => .long (splitValue rest).1 (splitValue rest).2
  | '-' :: letter :: _ => .short letter
  | _ => .plain

def Argument.ofString (argument : String) : Argument := .ofChars argument.toList

end PointTrace.CommandLine
