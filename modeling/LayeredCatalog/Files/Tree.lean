import LayeredCatalog.Files.Surroundings
import LayeredCatalog.Table
/-!
# Files in memory

A `FileTree` holds files in and around a working directory, and what is written to
the standard output. A directory is there if it is one of the surroundings or some
file is below it. A path is followed step by step, from the root or from the working
directory.
-/

namespace LayeredCatalog

/-- Files in memory, and the standard output. -/
structure FileTree where
  /-- The files, each under the names that lead to it from the root. -/
  files : Table (List String) ByteArray := .empty
  /-- What has been written to the standard output as to a file. -/
  output : String := ""

namespace FileTree

/-- No files. -/
def empty : FileTree := {}

/-- The names in a path, as it is spelled. -/
def names (p : Path) : List String :=
  p.parts.filterMap fun
    | .name s => some s
    | _ => none

/-- The files of a list of paths from the working directory, and contents. -/
def ofList (files : List (Path × ByteArray)) : FileTree :=
  { files := .ofList (files.map fun f => (Place.workingDirectory ++ names f.1, f.2)) }

def isDirectory (t : FileTree) (dir : List String) : Bool :=
  Place.isStanding dir || t.files.keys.any fun f => dir.isPrefixOf f && dir.length < f.length

/-- What names from the root lead to, the last of them being a name in a directory. -/
def look? (t : FileTree) (names : List String) : Option Place :=
  match Place.known.lookup names with
  | some place => some place
  | none =>
    if t.files.contains names then some (.file names)
    else if t.isDirectory names then some (.directory names)
    else none

def nameLimit : Nat := 255

def pathLimit : Nat := 4095

/-- Follows the segments of a path from a place. Above the root is the root. -/
def follow (t : FileTree) : Place → List (List Char) → Except FileFault Place
  | place, [] => .ok place
  | .directory dir, s :: segments =>
    match Path.Part.ofSegment? s with
    | some (.name n) =>
      if n.utf8ByteSize ≤ nameLimit then
        match t.look? (dir ++ [n]) with
        | some place => t.follow place segments
        | none => .error .notFound
      else .error .tooLong
    | some .parent => t.follow (.directory dir.dropLast) segments
    | _ => t.follow (.directory dir) segments
  | _, _ :: _ => .error .notDirectory

/-- The place that a path begins at. -/
def start (p : Path) : Place := .directory (if p.isAbsolute then [] else Place.workingDirectory)

/-- Finds what a path leads to. The empty path leads nowhere. -/
def find (t : FileTree) (p : Path) : Except FileFault Place :=
  if p.text.contains '\x00' then .error .ended
  else if p.text.isEmpty then .error .notFound
  else if p.text.utf8ByteSize ≤ pathLimit then t.follow (start p) (Text.segments p.text.toList)
  else .error .tooLong

def read (t : FileTree) (p : Path) : Except FileFault String :=
  match t.find p with
  | .error e => .error e
  | .ok (.file names) =>
    match (t.files.get? names).bind String.fromUTF8? with
    | some s => .ok s
    | none => .error .notText
  | .ok (.directory _) => .error .isDirectory
  | .ok (.fixed s) => .ok s
  | .ok (.device .endless) | .ok (.device .full) => .error .endless
  | .ok (.device _) => .ok ""

/-- Creates a file with a text in it. It needs a directory that is there, and a name
at the end of its path. -/
def create (t : FileTree) (p : Path) (s : String) : Except FileFault FileTree :=
  match (Text.segments p.text.toList).reverse with
  | [] => .error .notFound
  | last :: above =>
    match t.follow (start p) above.reverse, Path.Part.ofSegment? last with
    | .ok (.directory dir), some (.name n) =>
      if Place.isWritable dir then
        .ok { t with files := t.files.insert (dir ++ [n]) s.toUTF8 }
      else .error .denied
    | .ok _, _ => .error .isDirectory
    | .error e, _ => .error e

def write (t : FileTree) (p : Path) (s : String) : Except FileFault FileTree :=
  match t.find p with
  | .ok (.file names) => .ok { t with files := t.files.insert names s.toUTF8 }
  | .ok (.directory _) => .error .isDirectory
  | .ok (.fixed _) => .error .denied
  | .ok (.device .full) => .error .noRoom
  | .ok (.device .output) => .ok { t with output := t.output ++ s }
  | .ok (.device _) => .ok t
  | .error .notFound => t.create p s
  | .error e => .error e

def access : FileAccess (StateM FileTree) where
  read p := do return (← get).read p
  write p s := do
    match (← get).write p s with
    | .ok t => set t; return .ok ()
    | .error e => return .error e

end FileTree

end LayeredCatalog
