import PointTrace.Output.Sink

/-! A tree of directories, regular files and devices, without links. Paths are looked up as an
operating system does that opens a file for writing and makes it where it is missing. -/

namespace PointTrace

/-- The names from the root down. -/
abbrev Path := List String

/-- The streams that a process prints to. -/
inductive Stream where
  | out
  | err
  deriving DecidableEq, Repr

inductive Node where
  | directory
  | file (content : Array UInt8)
  /-- Takes everything and keeps nothing. -/
  | null
  /-- Has no room for a single byte. -/
  | full
  /-- Shows everything on a stream of the process and keeps nothing. -/
  | stream (s : Stream)
  deriving DecidableEq, Repr

/-- The nodes of a tree, with the directory where relative paths start. The root itself is always
there and not listed. A file that is written can take as many bytes as there is room for, or any
number of them. -/
structure Disk where
  nodes : List (Path × Node)
  home : Path
  room : Option Nat := none
  deriving DecidableEq, Repr

/-- Why a path cannot be opened. -/
inductive OpenFault where
  | missing
  | notDirectory
  | isDirectory
  | nameTooLong
  deriving DecidableEq, Repr

def OpenFault.message : OpenFault → String
  | .missing => "No such file or directory (os error 2)"
  | .notDirectory => "Not a directory (os error 20)"
  | .isDirectory => "Is a directory (os error 21)"
  | .nameTooLong => "File name too long (os error 36)"

/-- Splits at slashes. Between two slashes there is an empty part. -/
def splitSlashes : List Char → List (List Char)
  | [] => [[]]
  | c :: rest =>
    if c = '/' then [] :: splitSlashes rest
    else
      match splitSlashes rest with
      | [] => [[c]]
      | part :: parts => (c :: part) :: parts

/-- The names in a path, without empty parts. -/
def pathNames (path : String) : List String :=
  ((splitSlashes path.toList).filter (· != [])).map String.ofList

namespace Disk

def node? (d : Disk) (p : Path) : Option Node :=
  if p = [] then some .directory else d.nodes.lookup p

/-- Puts a node at a path, in place of what was there. -/
def put (d : Disk) (p : Path) (n : Node) : Disk :=
  { d with nodes := (p, n) :: d.nodes.filter (·.1 != p) }

/-- Goes from a directory to the one of that name. -/
def enter (d : Disk) (p : Path) (name : String) : Except OpenFault Path :=
  if name = "." then .ok p
  else if name = ".." then .ok p.dropLast
  else if 255 < name.utf8ByteSize then .error .nameTooLong
  else
    match d.node? (p ++ [name]) with
    | none => .error .missing
    | some .directory => .ok (p ++ [name])
    | some _ => .error .notDirectory

/-- Opens the last name of a path in its directory. A slash behind it asks for a directory. -/
def openLast (d : Disk) (parent : Path) (name : String) (slash : Bool) : Except OpenFault Path :=
  if name = "." ∨ name = ".." ∨ slash then .error .isDirectory
  else if 255 < name.utf8ByteSize then .error .nameTooLong
  else if d.node? (parent ++ [name]) = some .directory then .error .isDirectory
  else .ok (parent ++ [name])

/-- Where a path leads when it is opened for writing. Nothing is made yet. -/
def locate (d : Disk) (path : String) : Except OpenFault Path :=
  if path = "" then .error .missing
  else if 4096 ≤ path.utf8ByteSize then .error .nameTooLong
  else
    match (pathNames path).getLast? with
    | none => .error .isDirectory
    | some name => do
      let start := if path.toList.head? = some '/' then [] else d.home
      let parent ← (pathNames path).dropLast.foldlM d.enter start
      d.openLast parent name (path.toList.getLast? = some '/')

/-- How many bytes can be written at a path. -/
def limit (d : Disk) (p : Path) : Option Nat :=
  match d.node? p with
  | some .full => some 0
  | some .null | some (.stream _) => none
  | _ => d.room

/-- The sink of what is at a path. -/
def sink (d : Disk) (p : Path) : Output.Sink := { limit := d.limit p, refusal := .noSpace }

/-- Leaves bytes at a path, in place of what a file had. A device keeps none of them. -/
def store (d : Disk) (p : Path) (content : Array UInt8) : Disk :=
  match d.node? p with
  | some .null | some .full | some (.stream _) => d
  | _ => d.put p (.file content)

/-- What a text that is written at a path shows on a stream. -/
def echo (d : Disk) (p : Path) (s : Stream) (text : String) : String :=
  if d.node? p = some (.stream s) then text else ""

/-- The path as seen from a directory above it. -/
def relative? : Path → Path → Option Path
  | [], p => some p
  | _, [] => none
  | a :: above, b :: p => if a = b then relative? above p else none

/-- The regular files below the home directory, by their path from there. -/
def files (d : Disk) : List (String × Array UInt8) :=
  d.nodes.filterMap fun (p, n) =>
    match n, relative? d.home p with
    | .file content, some names => some ("/".intercalate names, content)
    | _, _ => none

/-- An empty home directory beside the devices. -/
def fresh : Disk where
  nodes := [(["dev"], .directory), (["dev", "null"], .null), (["dev", "zero"], .null),
    (["dev", "full"], .full), (["dev", "stdout"], .stream .out), (["dev", "stderr"], .stream .err),
    (["dev", "fd"], .directory), (["dev", "fd", "1"], .stream .out),
    (["dev", "fd", "2"], .stream .err), (["tmp"], .directory), (["tmp", "home"], .directory)]
  home := ["tmp", "home"]

/-- Goes from a directory to the one of that name, which is made where it is missing. -/
def makeDir : Disk × Path → String → Disk × Path
  | (d, p), name =>
    if name = "." then (d, p)
    else if name = ".." then (d, p.dropLast)
    else if (d.node? (p ++ [name])).isSome then (d, p ++ [name])
    else (d.put (p ++ [name]) .directory, p ++ [name])

/-- Makes directories one inside the other, from the home directory on, and returns the last. -/
def makeDirs (d : Disk) (names : List String) : Disk × Path := names.foldl makeDir (d, d.home)

/-- Makes a directory below the home directory. -/
def addDir (d : Disk) (path : String) : Disk := (d.makeDirs (pathNames path)).1

/-- Makes a file below the home directory, and the directories above it. -/
def addFile (d : Disk) (path content : String) : Disk :=
  match d.makeDirs (pathNames path).dropLast, (pathNames path).getLast? with
  | (d, p), some name => d.put (p ++ [name]) (.file content.toUTF8.data)
  | (d, _), none => d

end Disk

end PointTrace
