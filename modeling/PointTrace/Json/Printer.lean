/-! JSON values and their texts, compact or indented. A text is printed as a list of pieces, so that
a writer can take them one by one. -/

namespace PointTrace

/-- JSON values, as far as documents here need them. An object keeps its members in the order in
which they are written. -/
inductive Json where
  | int (n : Int)
  | str (s : String)
  | arr (items : List Json)
  | obj (members : List (String × Json))

namespace Json

/-- The hexadecimal digit of a number below sixteen, in lower case. -/
def hexDigit (n : Nat) : Char := if n < 10 then Char.ofNat (48 + n) else Char.ofNat (87 + n)

/-- How a character is written inside a string. Quotes, backslashes and characters below U+0020 are
escaped, and all others stand for themselves. -/
def escapeChar (c : Char) : List Char :=
  if c = '"' then ['\\', '"']
  else if c = '\\' then ['\\', '\\']
  else if c = '\x08' then ['\\', 'b']
  else if c = '\t' then ['\\', 't']
  else if c = '\n' then ['\\', 'n']
  else if c = '\x0c' then ['\\', 'f']
  else if c = '\r' then ['\\', 'r']
  else if c.toNat < 32 then ['\\', 'u', '0', '0', hexDigit (c.toNat / 16), hexDigit (c.toNat % 16)]
  else [c]

def escape (s : String) : String := String.ofList (s.toList.flatMap escapeChar)

/-- A compact text has no blanks. An indented one has each item on a line of its own, two blanks
further in at each level. -/
inductive Format where
  | compact
  | indented
  deriving DecidableEq, Repr

namespace Format

/-- A new line after `first`, at some level. -/
def line (f : Format) (first : String) (level : Nat) : List String :=
  match f with
  | .compact => [first]
  | .indented => (first ++ "\n") :: List.replicate level "  "

def colon : Format → String
  | .compact => ":"
  | .indented => ": "

end Format

def stringPieces (s : String) : List String := ["\"", escape s, "\""]

mutual

/-- The pieces of a value whose own line stands at `level`. -/
def pieces (f : Format) (level : Nat) : Json → List String
  | .int n => [n.repr]
  | .str s => stringPieces s
  | .arr [] => ["[", "]"]
  | .arr (v :: rest) =>
    "[" :: f.line "" (level + 1) ++ pieces f (level + 1) v ++ itemPieces f level rest
  | .obj [] => ["\x7b", "\x7d"]
  | .obj (m :: rest) =>
    "\x7b" :: f.line "" (level + 1) ++ memberPieces f (level + 1) m ++ restPieces f level rest

/-- The pieces after an item of a list, down to its closing bracket. -/
def itemPieces (f : Format) (level : Nat) : List Json → List String
  | [] => f.line "" level ++ ["]"]
  | v :: rest => f.line "," (level + 1) ++ pieces f (level + 1) v ++ itemPieces f level rest

def memberPieces (f : Format) (level : Nat) : String × Json → List String
  | (key, v) => stringPieces key ++ f.colon :: pieces f level v

/-- The pieces after a member of an object, down to its closing brace. -/
def restPieces (f : Format) (level : Nat) : List (String × Json) → List String
  | [] => f.line "" level ++ ["\x7d"]
  | m :: rest =>
    f.line "," (level + 1) ++ memberPieces f (level + 1) m ++ restPieces f level rest

end

/-- The text of a document. -/
def render (f : Format) (j : Json) : String := String.join (j.pieces f 0)

end Json

end PointTrace
