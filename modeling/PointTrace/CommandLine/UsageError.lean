import PointTrace.CommandLine.Name
import PointTrace.CommandLine.Numeral

/-! What can be wrong with a command line, and how a user is told. -/

namespace PointTrace.CommandLine

inductive UsageError where
  | valueMissing (s : Setting)
  | repeated (n : Name)
  | badNumber (p : Param) (text : String) (fault : Numeral.Fault)
  | valueUnexpected (n : Name) (value : String)
  | unexpected (argument : String)
  | jsonMissing
  deriving DecidableEq, Repr

/-- Where a reader of terminal sequences stands: in plain text, or inside a sequence. -/
inductive Scan where
  | text
  /-- Behind an escape character. -/
  | escape
  /-- Behind an escape character and a mark that asks for one more character. -/
  | mark
  /-- In a control sequence, which goes on to its final letter. -/
  | control
  /-- In a title, which goes on to a bell or to the next escape character. -/
  | title
  /-- In any other string, which goes on to the next escape character. -/
  | string
  deriving DecidableEq, Repr

namespace Scan

/-- Tabs, and what ends a line or a page. -/
def isBreak (c : Char) : Bool := c == '\t' || c == '\n' || c == '\x0c' || c == '\r'

/-- Where the reader stands behind a character. An escape character starts a new sequence, and a
cancel or a substitute ends any. -/
def next (s : Scan) (c : Char) : Scan :=
  if c = '\x1b' then .escape
  else if c = '\x18' ∨ c = '\x1a' then .text
  else
    match s with
    | .text => .text
    | .escape =>
      if c = '[' then .control
      else if c = ']' then .title
      else if c ∈ ['P', 'X', '^', '_'] then .string
      else if ' ' ≤ c ∧ c ≤ '/' then .mark
      else if isBreak c ∨ '0' ≤ c ∧ c ≤ '~' then .text
      else .escape
    | .mark => if isBreak c ∨ '0' ≤ c ∧ c ≤ '~' then .text else .mark
    | .control => if isBreak c ∨ '@' ≤ c ∧ c ≤ '~' then .text else .control
    | .title => if c = '\x07' then .text else .title
    | .string => .string

/-- Whether a character is shown. In plain text a control character is not, unless it is a break,
and a sequence shows no more than the break that cuts it short. -/
def shows (s : Scan) (c : Char) : Bool :=
  match s with
  | .text => isBreak c || (32 ≤ c.toNat && c.toNat != 127)
  | .escape | .mark | .control => isBreak c
  | .title | .string => false

/-- What is shown of some characters. -/
def visible (s : Scan) : List Char → List Char
  | [] => []
  | c :: rest => if s.shows c then c :: visible (s.next c) rest else visible (s.next c) rest

end Scan

/-- What is shown of a text where colours are off. -/
def shownOf (text : String) : String := String.ofList (Scan.text.visible text.toList)

namespace UsageError

/-- The words of an error. What they quote from the command line goes through `quote`. -/
def words (quote : String → String) : UsageError → String
  | .valueMissing s =>
    "error: a value is required for '" ++ (Name.setting s).label ++ "' but none was supplied"
  | .repeated n => "error: the argument '" ++ n.label ++ "' cannot be used multiple times"
  | .badNumber p text fault =>
    "error: invalid value '" ++ quote text ++ "' for '" ++ (Name.setting (.number p)).label
      ++ "': " ++ fault.message
  | .valueUnexpected n value =>
    "error: unexpected value '" ++ quote value ++ "' for '" ++ n.label
      ++ "' found; no more were expected"
  | .unexpected argument => "error: unexpected argument '" ++ quote argument ++ "' found"
  | .jsonMissing => "error: the following required arguments were not provided:\n  --json"

/-- The message, which quotes the command line as it is. -/
def message (e : UsageError) : String := e.words id

/-- The first paragraph that a user reads where colours are off: the message, in which each
quotation has its sequences and control characters taken out. Tips and usage lines follow it in
paragraphs of their own. -/
def paragraph (e : UsageError) : String := e.words shownOf

end UsageError

end PointTrace.CommandLine
