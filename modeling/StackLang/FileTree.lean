import StackLang.Compile
import StackLang.Text.Lines
import StackLang.Text.Quoted
import StackLang.Text.Utf8

/-!
# Files

The files a command may read and write, as a value. Paths are relative to the working directory
unless they start with a slash.
-/

namespace StackLang

/-- A path in its shortest form: no empty parts and no `.` parts. A part `..` stays. -/
structure Path where
  /-- Empty for a path from the working directory, otherwise one or two slashes. -/
  root : String
  parts : List String
deriving DecidableEq

namespace Path

def split (s : String) : List String :=
  (s.toList.splitOn '/').map String.ofList

def ofString (s : String) : Path :=
  let root :=
    match (s.toList.takeWhile (· == '/')).length with
    | 0 => ""
    | 2 => "//"
    | _ => "/"
  ⟨root, (split s).filter fun part => part != "" && part != "."⟩

def text (p : Path) : String :=
  let body := String.intercalate "/" p.parts
  if p.root == "" && body == "" then "." else p.root ++ body

end Path

inductive FileNode where
  | text (content : String)
  | bytes (content : List UInt8)
  | directory
deriving DecidableEq

namespace FileNode

def isDirectory : FileNode → Bool
  | .directory => true
  | _ => false

def toBytes : FileNode → List UInt8
  | .text content => content.toUTF8.toList
  | .bytes content => content
  | .directory => []

end FileNode

/-- Files by path. A path that leads to a file leads through directories. -/
structure FileTree where
  entries : List (String × FileNode) := []
deriving DecidableEq

inductive Lookup where
  | found (key : String) (node : FileNode)
  /-- There is no such file, but there is a directory for it. -/
  | vacant (key : String)
  /-- A directory on the way does not exist. -/
  | missing
  /-- A file stands in the place of a directory on the way. -/
  | blocked
  /-- The path, or a name on the way, has more bytes than a file system takes. -/
  | tooLong
deriving DecidableEq

namespace FileTree

def key (absolute : Bool) (parts : List String) : String :=
  (if absolute then "/" else "") ++ String.intercalate "/" parts

/-- What is at a place. The working directory, its ancestors and the root always exist. -/
def node? (t : FileTree) (absolute : Bool) (parts : List String) : Option FileNode :=
  if parts.all (· == "..") then some .directory
  else
    let name := key absolute parts
    match t.entries.find? fun e => e.1 == name with
    | some e => some e.2
    | none =>
      let within := (name ++ "/").toList
      if t.entries.any fun e => within.isPrefixOf e.1.toList then some .directory else none

def parent (absolute : Bool) (parts : List String) : List String :=
  match parts.getLast? with
  | none => if absolute then [] else [".."]
  | some ".." => parts ++ [".."]
  | some _ => parts.dropLast

def maxNameBytes : Nat := 255

def maxPathBytes : Nat := 4095

def walk (t : FileTree) (absolute : Bool) (place : List String) (node : FileNode) :
    List String → Lookup
  | [] => .found (key absolute place) node
  | part :: rest =>
    if !node.isDirectory then .blocked
    else if part == "." || part == "" then walk t absolute place node rest
    else if part == ".." then walk t absolute (parent absolute place) .directory rest
    else if maxNameBytes < part.utf8ByteSize then .tooLong
    else
      let next := place ++ [part]
      match t.node? absolute next with
      | some node => walk t absolute next node rest
      | none => if rest.isEmpty then .vacant (key absolute next) else .missing

/-- No file system takes a null character in a path. -/
def holdsNull (path : String) : Bool :=
  path.toList.contains '\x00'

/-- Where a path leads as it is written. A slash at its end asks for a directory. -/
def lookupRaw (t : FileTree) (path : String) : Lookup :=
  if path.isEmpty || holdsNull path then .missing
  else if maxPathBytes < path.utf8ByteSize then .tooLong
  else
    let absolute := path.toList.head? == some '/'
    t.walk absolute [] .directory (Path.split path)

def lookup (t : FileTree) (path : Path) : Lookup :=
  if holdsNull path.text then .missing
  else if maxPathBytes < path.text.utf8ByteSize then .tooLong
  else t.walk (path.root != "") [] .directory path.parts

def put (t : FileTree) (name : String) (node : FileNode) : FileTree :=
  if t.entries.any fun e => e.1 == name then
    ⟨t.entries.map fun e => if e.1 == name then (name, node) else e⟩
  else ⟨t.entries ++ [(name, node)]⟩

/-! ## Reading and writing -/

def noSuchFile (path : Path) : Failure :=
  .missingFile ("[Errno 2] No such file or directory: " ++ Text.quote path.text)

def isADirectory (path : Path) : Failure :=
  .directoryFile ("[Errno 21] Is a directory: " ++ Text.quote path.text)

def notADirectory (path : Path) : Failure :=
  .notDirectory ("[Errno 20] Not a directory: " ++ Text.quote path.text)

def nameTooLong (path : Path) : Failure :=
  .longPath ("[Errno 36] File name too long: " ++ Text.quote path.text)

/-- Reads a text file, with every line ending made a line feed. -/
def readText (t : FileTree) (path : Path) : Except Failure String :=
  match t.lookup path with
  | .found _ .directory => .error (isADirectory path)
  | .found _ (.text content) => .ok (String.ofList (Text.unifyReturns content.toList))
  | .found _ (.bytes content) =>
    match Text.decodeUtf8 content with
    | .ok content => .ok (String.ofList (Text.unifyReturns content.toList))
    | .error fault => .error (.undecodable fault)
  | .vacant _ | .missing => .error (noSuchFile path)
  | .blocked => .error (notADirectory path)
  | .tooLong => .error (nameTooLong path)

def writeText (t : FileTree) (path : Path) (content : String) : Except Failure FileTree :=
  match t.lookup path with
  | .found _ .directory => .error (isADirectory path)
  | .found name _ | .vacant name => .ok (t.put name (.text content))
  | .missing => .error (noSuchFile path)
  | .blocked => .error (notADirectory path)
  | .tooLong => .error (nameTooLong path)

/-- A key of something in the working directory, or in a directory below it. -/
def isWithin (name : String) : Bool :=
  let first := name.toList.takeWhile (· != '/')
  !first.isEmpty && first != ['.', '.']

/-- The text files of `after` that are new or have other content than in `before`. -/
def changes (before after : FileTree) : List (String × String) :=
  after.entries.filterMap fun (name, node) =>
    match node with
    | .text content =>
      match before.entries.find? fun e => e.1 == name with
      | some e => if e.2.toBytes == node.toBytes then none else some (name, content)
      | none => some (name, content)
    | _ => none

end FileTree

/-- Compiles a file. Options are checked before the file is looked at. -/
def compileFile (t : FileTree) (path : String) (o : RoutineOptions := {}) :
    Except Failure Compilation :=
  match o.fault? with
  | some fault => .error fault.failure
  | none =>
    let p := Path.ofString path
    match t.lookup p with
    | .vacant _ | .missing | .blocked =>
      .error (.missingFile ("Source file not found: " ++ path))
    | .tooLong => .error (FileTree.nameTooLong p)
    | .found _ _ => do
      let source ← t.readText p
      (compileWithEvents source path o).2

end StackLang
