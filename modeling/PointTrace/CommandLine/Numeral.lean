/-! Numbers on the command line: an optional sign and decimal digits, read from left to right.
The first thing that is wrong decides the fault. -/

namespace PointTrace.CommandLine.Numeral

/-- Why a text is no number in the 32-bit range. -/
inductive Fault where
  | empty
  | invalidDigit
  | tooLarge
  | tooSmall
  | outOfRange (n : Int)
  deriving DecidableEq, Repr

def Fault.message : Fault → String
  | .empty => "cannot parse integer from empty string"
  | .invalidDigit => "invalid digit found in string"
  | .tooLarge => "number too large to fit in target type"
  | .tooSmall => "number too small to fit in target type"
  | .outOfRange n => n.repr ++ " is not in -2147483648..=2147483647"

/-- Reads digits after the value `n` of those before them. A digit that takes the value over the
limit ends the reading, whatever follows it. -/
def digits (limit : Nat) (excess : Fault) (n : Nat) : List Char → Except Fault Nat
  | [] => .ok n
  | c :: rest =>
    if c.isDigit then
      if limit < 10 * n + (c.toNat - 48) then .error excess
      else digits limit excess (10 * n + (c.toNat - 48)) rest
    else .error .invalidDigit

/-- A sign alone is no number. -/
def magnitude (limit : Nat) (excess : Fault) : List Char → Except Fault Nat
  | [] => .error .invalidDigit
  | c :: rest => digits limit excess 0 (c :: rest)

/-- The value of a text in the 64-bit range. -/
def integer : List Char → Except Fault Int
  | [] => .error .empty
  | '-' :: rest => (magnitude 9223372036854775808 .tooSmall rest).map fun n : Nat => -(n : Int)
  | '+' :: rest => (magnitude 9223372036854775807 .tooLarge rest).map Int.ofNat
  | c :: rest => (magnitude 9223372036854775807 .tooLarge (c :: rest)).map Int.ofNat

/-- Narrows a value to the 32-bit range. -/
def narrow (n : Int) : Except Fault Int32 :=
  if -2147483648 ≤ n ∧ n ≤ 2147483647 then .ok (Int32.ofInt n) else .error (.outOfRange n)

/-- The 32-bit value of a text. -/
def read (text : String) : Except Fault Int32 := integer text.toList >>= narrow

end PointTrace.CommandLine.Numeral
