import LayeredCatalog.Text.Segments
/-!
# Paths

A path is kept as it is spelled. What it names is the list of its parts
(`Path.parts`), in which doubled slashes, a trailing slash and dots that are not
the first part do not show; paths are compared by their parts.
-/

namespace LayeredCatalog

/-- A path, as it is spelled. -/
structure Path where
  text : String
deriving DecidableEq, Inhabited

namespace Path

/-- One step of a path. -/
inductive Part where
  /-- The slash that a path from the root begins with. -/
  | root
  /-- A dot at the beginning. -/
  | current
  /-- Two dots. -/
  | parent
  | name (s : String)
deriving DecidableEq

/-- A text that orders parts: the root, a dot, two dots, then names. -/
def Part.key : Part → String
  | .root => "0"
  | .current => "1"
  | .parent => "2"
  | .name s => "3" ++ s

theorem Part.eq_of_key {a b : Part} (h : a.key = b.key) : a = b := by
  have hlist := congrArg String.toList h
  cases a <;> cases b <;> simp [Part.key] at hlist
  · rfl
  · rfl
  · rfl
  · rw [String.toList_inj.1 hlist]

instance : Ord Part := ⟨compareOn Part.key⟩

instance : Std.TransOrd Part := inferInstanceAs (Std.TransCmp (compareOn Part.key))

instance : Std.LawfulEqOrd Part where
  eq_of_compare {a b} h :=
    Part.eq_of_key (Std.LawfulEqCmp.eq_of_compare (show compare a.key b.key = .eq from h))

/-- The part that a segment stands for; empty segments and dots stand for none. -/
def Part.ofSegment? : List Char → Option Part
  | [] => none
  | ['.'] => none
  | ['.', '.'] => some .parent
  | cs => some (.name (String.ofList cs))

/-- Whether a path begins at the root. -/
def isAbsolute (p : Path) : Bool := p.text.toList.head? = some '/'

/-- The segments of a path behind the root, each with the part it stands for. -/
def pieces (p : Path) : List (List Char × Option Part) :=
  match p.text.toList with
  | '/' :: cs => (Text.segments cs).map fun s => (s, Part.ofSegment? s)
  | cs =>
    match Text.segments cs with
    | ['.'] :: ss => (['.'], some .current) :: ss.map fun s => (s, Part.ofSegment? s)
    | ss => ss.map fun s => (s, Part.ofSegment? s)

def parts (p : Path) : List Part :=
  (if p.isAbsolute then [.root] else []) ++ p.pieces.filterMap (·.2)

/-- The path from `base` to what `s` names there. A path from the root stands for
itself, and an empty one adds a slash at most. -/
def join (base : Path) (s : String) : Path :=
  if s.toList.head? = some '/' then ⟨s⟩
  else if base.text.isEmpty || base.text.toList.getLast? = some '/' then ⟨base.text ++ s⟩
  else ⟨base.text ++ "/" ++ s⟩

/-- The path without its last part; the root and the empty path have none. What
remains is spelled as it was. -/
def parent? (p : Path) : Option Path :=
  match p.pieces.reverse.dropWhile (·.2.isNone) with
  | [] => none
  | _ :: rest =>
    let kept := (rest.dropWhile (·.2.isNone)).reverse.map (String.ofList ·.1)
    some ⟨(if p.isAbsolute then "/" else "") ++ "/".intercalate kept⟩

/-- The last part, if it is a name. -/
def fileName? (p : Path) : Option String :=
  match p.parts.reverse with
  | .name s :: _ => some s
  | _ => none

/-- The last part up to its last dot. A name that has no dot, or none but the one
it begins with, is its own stem. -/
def fileStem? (p : Path) : Option String :=
  p.fileName?.map fun s =>
    let cs := s.toList.reverse
    match cs.dropWhile (· ≠ '.') with
    | _ :: stem => if stem.isEmpty then s else String.ofList stem.reverse
    | [] => s

end Path

end LayeredCatalog
