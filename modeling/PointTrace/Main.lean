import PointTrace.Program

/-! The program as a process. -/

namespace PointTrace

/-- The fault behind an error of the system that opens a file, where it is one of those known
here. -/
def openFault? : IO.Error → Option OpenFault
  | .noFileOrDirectory _ 2 _ => some .missing
  | .inappropriateType _ 20 _ => some .notDirectory
  | .inappropriateType _ 21 _ => some .isDirectory
  | .invalidArgument _ 36 _ => some .nameTooLong
  | _ => none

/-- Saves a trace through a writer of the system. Where that has no space left, the trace is saved
to a sink without room, so that the failure is the same. -/
def Trace.saveThrough (t : Trace) (write : ByteArray → IO Unit) : IO (Option SaveError) := do
  let (sink, fault) := t.save {}
  match ← (write ⟨sink.taken⟩).toBaseIO with
  | .ok _ => return fault
  | .error (.resourceExhausted _ 28 _) =>
    return (t.save { limit := some 0, refusal := .noSpace }).2
  | .error e => throw e

/-- Tells how saving went, and returns the status. -/
def Trace.conclude (t : Trace) (notice : String) : Option SaveError → IO UInt32
  | none => do
    IO.eprint notice
    return t.status.toUInt32
  | some e => do
    IO.eprint e.failure.report
    return 1

/-- Carries a plan out on the system's own files. -/
def Plan.execute : Plan → IO UInt32
  | .print status out => do
    IO.print out
    return status.toUInt32
  | .refuse e => do
    IO.eprintln e.paragraph
    return 2
  | .emit trace out => do
    IO.print out
    let stdout ← IO.getStdout
    trace.conclude "" (← trace.saveThrough fun bytes => do stdout.write bytes; stdout.flush)
  | .save trace path out notice => do
    IO.print out
    (← IO.getStdout).flush
    match ← (IO.FS.Handle.mk path .write).toBaseIO with
    | .error e =>
      let some fault := openFault? e | throw e
      IO.eprint (fault.failure path).report
      return 1
    | .ok handle =>
      trace.conclude notice (← trace.saveThrough fun bytes => do handle.write bytes; handle.flush)

end PointTrace

def main (arguments : List String) : IO UInt32 := do
  let env : PointTrace.Environment := {
    noColor := ← IO.getEnv "NO_COLOR"
    cliColor := ← IO.getEnv "CLICOLOR"
    cliColorForce := ← IO.getEnv "CLICOLOR_FORCE" }
  (PointTrace.Plan.ofArguments arguments env).execute
