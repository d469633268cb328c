/-! Byte sinks that may take few bytes at a time, stop at a limit, or fail to flush. -/

namespace PointTrace.Output

/-- The bytes of a text. -/
def utf8 (text : String) : List UInt8 := text.toUTF8.data.toList

/-- Why bytes did not arrive. -/
inductive Fault where
  | sinkFull
  | nothingTaken
  | flushFailed
  | noSpace
  deriving DecidableEq, Repr

def Fault.message : Fault → String
  | .sinkFull => "sink full"
  | .nothingTaken => "failed to write the buffered data"
  | .flushFailed => "sink flush failed"
  | .noSpace => "No space left on device (os error 28)"

/-- A sink takes at most `chunk` bytes in one call and `limit` bytes in all. Where nothing fits it
answers with its refusal. -/
structure Sink where
  chunk : Option Nat := none
  limit : Option Nat := none
  refusal : Fault := .sinkFull
  flushFault : Option Fault := none
  taken : Array UInt8 := #[]
  deriving DecidableEq, Repr

namespace Sink

/-- How many bytes the next call takes at most. Without a bound it takes all. -/
def room (s : Sink) : Option Nat := s.chunk.merge min (s.limit.map (· - s.taken.size))

def take (s : Sink) (bytes : List UInt8) : Sink := { s with taken := s.taken ++ bytes.toArray }

/-- Offers bytes until all are taken or the sink refuses. -/
def drain (s : Sink) : List UInt8 → Sink × Option Fault
  | [] => (s, none)
  | b :: rest =>
    match s.room with
    | none => (s.take (b :: rest), none)
    | some 0 => (s, some s.refusal)
    | some (k + 1) => (s.take (b :: rest.take k)).drain (rest.drop k)
termination_by bytes => bytes.length
decreasing_by simp only [List.length_drop, List.length_cons]; omega

/-- The text that was taken, where the bytes are one. -/
def text? (s : Sink) : Option String := String.fromUTF8? ⟨s.taken⟩

end Sink

end PointTrace.Output
