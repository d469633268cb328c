import PointTrace.CommandLine.Name
import PointTrace.CommandLine.Config
import PointTrace.CommandLine.UsageError

/-! Reading a command line, one argument after the other. A value that follows its setting as an
argument of its own is checked late: when the next known name is read, or at the end. Until then
it is pending, and an argument that nothing knows is reported before it. -/

namespace PointTrace.CommandLine

/-- A setting whose value is not checked yet. -/
inductive Pending where
  | nothing
  | opened (s : Setting)
  | held (s : Setting) (value : String)
  deriving DecidableEq, Repr

/-- What was read so far. A closed command line has had its two dashes. -/
structure State where
  entries : List Entry := []
  pending : Pending := .nothing
  closed : Bool := false
  deriving DecidableEq, Repr

/-- Why reading ends without a configuration. -/
inductive Halt where
  | notice (n : Notice)
  | usage (e : UsageError)
  deriving DecidableEq, Repr

/-- The entry of a setting and its value. An empty file name counts as none. -/
def Entry.ofValue : Setting → String → Except UsageError Entry
  | .number p, value =>
    match Numeral.read value with
    | .ok v => .ok (.number p v)
    | .error fault => .error (.badNumber p value fault)
  | .out, value => if value = "" then .error (.valueMissing .out) else .ok (.out value)

namespace State

def given (s : State) (n : Name) : Bool := s.entries.any (·.name == n)

/-- Enters what a name stands for. A name given twice is reported before a bad value. -/
def enter (s : State) (n : Name) (entry : Except UsageError Entry) : Except UsageError State :=
  if s.given n then .error (.repeated n)
  else entry.map fun e => { s with entries := s.entries ++ [e] }

def accept (s : State) (setting : Setting) (value : String) : Except UsageError State :=
  s.enter (.setting setting) (Entry.ofValue setting value)

/-- Checks what is pending. -/
def settle (s : State) : Except UsageError State :=
  match s.pending with
  | .nothing => .ok s
  | .opened setting => .error (.valueMissing setting)
  | .held setting value => { s with pending := .nothing }.accept setting value

/-- Acts on a known name and the value attached to it. A value that is not wanted is reported
before what is pending. -/
def known (s : State) : Name → Option String → Except Halt State
  | .setting setting, none =>
    (s.settle.map fun t => { t with pending := .opened setting }).mapError .usage
  | .setting setting, some value =>
    (s.settle >>= fun t => t.accept setting value).mapError .usage
  | n, some value => .error (.usage (.valueUnexpected n value))
  | .flag f, none => (s.settle >>= fun t => t.enter (.flag f) (.ok (.flag f))).mapError .usage
  | .notice n, none => s.settle.mapError .usage >>= fun _ => .error (.notice n)

/-- Reads an argument that is nobody's value. -/
def read (s : State) (argument : String) : Except Halt State :=
  match Argument.ofString argument with
  | .escape => .ok { s with closed := true }
  | .long name value =>
    match Name.ofText? name with
    | some n => s.known n value
    | none => .error (.usage (.unexpected ("--" ++ name)))
  | .short 'h' => s.known (.notice .help) none
  | .short 'V' => s.known (.notice .version) none
  | .short letter => .error (.usage (.unexpected (String.ofList ['-', letter])))
  | .plain => .error (.usage (.unexpected argument))

/-- Reads one argument, as the value of an open setting where it takes it. -/
def step (s : State) (argument : String) : Except Halt State :=
  if s.closed then .error (.usage (.unexpected argument))
  else
    match s.pending with
    | .opened setting =>
      if setting.takes argument then .ok { s with pending := .held setting argument }
      else s.read argument
    | _ => s.read argument

/-- Ends the reading. A file can only be given for JSON. -/
def finish (s : State) : Except Halt Config := do
  let t ← s.settle.mapError .usage
  if t.given (.setting .out) && !t.given (.flag .json) then .error (.usage .jsonMissing)
  else .ok (.ofEntries t.entries)

end State

/-- The configuration that these arguments ask for. -/
def parse (arguments : List String) : Except Halt Config :=
  arguments.foldlM State.step {} >>= State.finish

end PointTrace.CommandLine
