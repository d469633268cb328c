import PointTrace.CommandLine.Parser
import PointTrace.Disk
import PointTrace.Output.Save
import PointTrace.Report

/-! The program: what a command line prints and writes. A plan is settled by the arguments and the
environment alone. Only carrying it out needs a disk. -/

namespace PointTrace

/-- The variables that programs look at for colours. -/
structure Environment where
  noColor : Option String := none
  cliColor : Option String := none
  cliColorForce : Option String := none
  deriving DecidableEq, Repr

namespace Environment

/-- What is asked for wherever the output goes. Force comes first. A wish for no colour counts
whatever its value is. -/
def asked? (env : Environment) : Option Bool :=
  if env.cliColorForce.any (· != "0") then some true
  else if env.noColor.isSome then some false
  else none

/-- Whether texts are painted. Where nothing else is asked for, they are on a terminal, unless that
is switched off. -/
def paints (env : Environment) (terminal : Bool) : Bool :=
  env.asked?.getD (terminal && env.cliColor.all (· != "0"))

/-- Whether texts are painted here, where output goes to no terminal. -/
def colour (env : Environment) : Bool := env.paints false

end Environment

/-- The text of a notice, as it reads where colours are off. -/
def CommandLine.Notice.text : CommandLine.Notice → String
  | .version => "point-fixture 0.1.0\n"
  | .help =>
    "Run the Point struct fixture and exit with its result\n\n"
    ++ "Usage: point-fixture [OPTIONS]\n\n"
    ++ "Options:\n"
    ++ "      --trace       Print each step of the run\n"
    ++ "      --json        Emit the run as JSON\n"
    ++ "      --out <file>  Output file for JSON (default stdout)\n"
    ++ "      --layout      Print the memory layout of Point\n"
    ++ "      --x <X>       x passed to initialize [default: 16]\n"
    ++ "      --y <Y>       y passed to initialize [default: 32]\n"
    ++ "      --dx <DX>     x delta passed to move [default: 32]\n"
    ++ "      --dy <DY>     y delta passed to move [default: 16]\n"
    ++ "  -h, --help        Print help\n"
    ++ "  -V, --version     Print version\n"

/-- What a configuration asks to be listed: the layout and then the trace. -/
def CommandLine.Config.listings (c : CommandLine.Config) (colour : Bool) : String :=
  (if c.layout then Point.layout.report colour else "")
    ++ (if c.trace then c.script.run.report colour else "")

/-- The line that tells of a file that was written. -/
def fileNotice (path : String) (colour : Bool) : String :=
  Style.yellow.paint colour ("Wrote trace to " ++ path) ++ "\n"

/-- What is left to do once the command line is read. -/
inductive Plan where
  | print (status : UInt8) (out : String)
  /-- Tells of a usage error. -/
  | refuse (e : CommandLine.UsageError)
  /-- Prints, and then saves a trace to the standard output. -/
  | emit (trace : Trace) (out : String)
  /-- Prints, saves a trace to a file, and then gives notice of it. -/
  | save (trace : Trace) (path out notice : String)
  deriving DecidableEq, Repr

namespace Plan

/-- The plan of a configuration. The layout comes before the trace, and JSON last. -/
def ofConfig (c : CommandLine.Config) (colour : Bool) : Plan :=
  match c.json, c.out with
  | true, some path => .save c.script.run path (c.listings colour) (fileNotice path colour)
  | true, none => .emit c.script.run (c.listings colour)
  | false, _ => .print c.script.run.status (c.listings colour)

/-- The plan of a command line. -/
def ofArguments (arguments : List String) (env : Environment) : Plan :=
  match CommandLine.parse arguments with
  | .ok c => ofConfig c env.colour
  | .error (.notice n) => .print 0 n.text
  | .error (.usage e) => .refuse e

end Plan

/-- A file that cannot be opened. -/
def OpenFault.failure (fault : OpenFault) (path : String) : Failure :=
  ⟨"Failed to create " ++ path, some fault.message⟩

/-- What a run leaves behind. Both streams are pipes, which take everything. Of a usage error only
`UsageError.paragraph` counts as standard error: the first paragraph, without the tips and usage
lines below it, and as it reads where colours are off. -/
structure Outcome where
  status : UInt8
  out : String
  err : String
  disk : Disk
  deriving DecidableEq, Repr

/-- Carries a plan out. Any failure has status 1 and keeps what was printed before it. A trace that
is saved to a stream comes after what was printed and before the notice. A file is emptied when it
is opened, so one that cannot take the whole trace is left with the front of it. -/
def Plan.perform (disk : Disk) : Plan → Outcome
  | .print status out => ⟨status, out, "", disk⟩
  | .refuse e => ⟨2, "", e.paragraph, disk⟩
  | .emit trace out =>
    match trace.save {} with
    | (sink, none) => ⟨trace.status, out ++ sink.text?.getD "", "", disk⟩
    | (sink, some e) => ⟨1, out ++ sink.text?.getD "", e.failure.report, disk⟩
  | .save trace path out notice =>
    match disk.locate path with
    | .error fault => ⟨1, out, (fault.failure path).report, disk⟩
    | .ok target =>
      match trace.save (disk.sink target) with
      | (sink, none) =>
        let text := sink.text?.getD ""
        ⟨trace.status, out ++ disk.echo target .out text, disk.echo target .err text ++ notice,
          disk.store target sink.taken⟩
      | (sink, some e) => ⟨1, out, e.failure.report, disk.store target sink.taken⟩

/-- Runs the program. -/
def run (arguments : List String) (env : Environment) (disk : Disk) : Outcome :=
  (Plan.ofArguments arguments env).perform disk

end PointTrace
