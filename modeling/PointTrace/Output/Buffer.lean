import PointTrace.Output.Sink

/-! A buffer in front of a sink. It holds pieces back and drains when the next one does not fit in
the space left. Every operation answers with the buffer it leaves, so that a failure does not hide
what the sink took before it. -/

namespace PointTrace.Output

structure Buffer where
  sink : Sink
  held : Array UInt8 := #[]
  deriving DecidableEq, Repr

namespace Buffer

/-- How many bytes a buffer holds at most. -/
def capacity : Nat := 8192

/-- Passes everything held on to the sink. Where the sink refuses, what it did not take stays
held. -/
def drain (b : Buffer) : Buffer × Option Fault :=
  match b.sink.drain b.held.toList with
  | (sink, none) => ({ sink }, none)
  | (sink, some fault) =>
    ({ sink, held := b.held.extract (sink.taken.size - b.sink.taken.size) }, some fault)

/-- Holds a piece, or passes it straight on where no buffer could hold it. -/
def hold (b : Buffer) (piece : List UInt8) : Buffer × Option Fault :=
  if capacity ≤ piece.length then
    match b.sink.drain piece with
    | (sink, fault) => ({ b with sink }, fault)
  else ({ b with held := b.held ++ piece.toArray }, none)

/-- Writes one piece. The buffer drains first if the piece is longer than the space left. -/
def write (b : Buffer) (piece : List UInt8) : Buffer × Option Fault :=
  if capacity < b.held.size + piece.length then
    match b.drain with
    | (b, none) => b.hold piece
    | failed => failed
  else b.hold piece

/-- Writes pieces in order, up to the first failure. -/
def writeAll (b : Buffer) : List (List UInt8) → Buffer × Option Fault
  | [] => (b, none)
  | piece :: rest =>
    match b.write piece with
    | (b, none) => b.writeAll rest
    | failed => failed

/-- Drains and flushes the sink. The flush comes last, so a refusal wins over its fault. -/
def flush (b : Buffer) : Buffer × Option Fault :=
  match b.drain with
  | (b, none) => (b, b.sink.flushFault)
  | failed => failed

/-- Lets go of a buffer. Bytes that it still holds are offered once more, and nobody hears of a
refusal. -/
def release (b : Buffer) : Sink := b.drain.1.sink

end Buffer

end PointTrace.Output
