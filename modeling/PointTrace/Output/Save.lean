import PointTrace.Document
import PointTrace.Output.Buffer

/-! Saving the document of a trace through a buffer, and how a user hears of a failure. -/

namespace PointTrace

/-- What failed, and what made it fail where that is another thing. -/
structure Failure where
  message : String
  cause : Option String := none
  deriving DecidableEq, Repr

namespace Failure

/-- The messages from the outermost to the cause. -/
def chain (f : Failure) : List String := f.message :: f.cause.toList

/-- The text for standard error. -/
def report (f : Failure) : String :=
  match f.cause with
  | none => "Error: " ++ f.message ++ "\n"
  | some cause => "Error: " ++ f.message ++ "\n\nCaused by:\n    " ++ cause ++ "\n"

end Failure

/-- Where saving failed: while the document was encoded, or after its last piece. -/
inductive SaveError where
  | encoding (cause : Output.Fault)
  | closing (cause : Output.Fault)
  deriving DecidableEq, Repr

def SaveError.failure : SaveError → Failure
  | .encoding cause => ⟨"Failed to serialize trace", some cause.message⟩
  | .closing cause => ⟨cause.message, none⟩

open Output in
/-- Writes the document piece by piece, then its final newline, and flushes. The buffer is let go in
every case, so the sink that is left may have been offered bytes again after a failure. -/
def Trace.save (t : Trace) (sink : Sink) : Sink × Option SaveError :=
  match ({ sink } : Buffer).writeAll (t.pieces.map utf8) with
  | (b, some fault) => (b.release, some (.encoding fault))
  | (b, none) =>
    match b.write (utf8 "\n") with
    | (b, some fault) => (b.release, some (.closing fault))
    | (b, none) =>
      match b.flush with
      | (b, fault) => (b.release, fault.map .closing)

end PointTrace
