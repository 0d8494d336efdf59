/-!
# Tags

A tag says what a node is meant to be. It is kept as bytes: percent signs may write
bytes that have the outline of UTF-8 and still are no text. A zero byte ends what
is written of a tag.
-/

namespace LayeredCatalog.Yaml

/-- The tag of a node. -/
structure Tag where
  bytes : List UInt8
deriving DecidableEq

namespace Tag

def bytesOf (s : String) : List UInt8 := s.toUTF8.data.toList

/-- The tag with this spelling. -/
def ofText (s : String) : Tag := ⟨bytesOf s⟩

def upToZero (bytes : List UInt8) : List UInt8 := bytes.takeWhile (· ≠ 0)

/-- The tag that two parts make. -/
def join (front rest : List UInt8) : Tag := ⟨upToZero front ++ upToZero rest⟩

/-- Whether the tag begins with an exclamation mark. -/
def isLocal (t : Tag) : Bool := t.bytes.head? = some 33

/-- The text behind the exclamation mark of a local tag, or the mark itself if it
stands alone. -/
def name? (t : Tag) : Option String :=
  match t.bytes with
  | [33] => some "!"
  | 33 :: name => String.fromUTF8? ⟨name.toArray⟩
  | _ => none

def null : Tag := ofText "tag:yaml.org,2002:null"

/-- The tag of truth values. -/
def bool : Tag := ofText "tag:yaml.org,2002:bool"

/-- The tag of whole numbers. -/
def int : Tag := ofText "tag:yaml.org,2002:int"

/-- The tag of decimal numbers. -/
def float : Tag := ofText "tag:yaml.org,2002:float"

end Tag

end LayeredCatalog.Yaml
