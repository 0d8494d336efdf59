import LayeredCatalog.Component
import LayeredCatalog.Digest
/-!
# What an artifact is named by

A component and what fills its inputs are written as one text, and the artifact
is named by the digest of that text. The text is a list of lines; a line is a tag
and fields, each behind its length in bytes, so that no field can pass for the
end of a line or for another field. An input that the catalog fills enters with
the digest of its own artifact.
-/

namespace LayeredCatalog

/-- What fills an input, as far as the artifact depends on it. -/
inductive InputHandle where
  | artifact (digest : Digest)
  /-- Something from outside the catalog. -/
  | external (id : String)
deriving DecidableEq

namespace Encoding

def field (s : String) : String := s!" {s.utf8ByteSize}:{s}"

/-- A line: a tag and its fields. -/
def line (tag : String) (fields : List String) : String :=
  tag ++ String.join (fields.map field) ++ "\n"

def inputLine : String × InputHandle → String
  | (slot, .artifact digest) => line "input" [slot, digest.hex]
  | (slot, .external id) => line "external" [slot, id]

/-- The text of a component and of what fills its inputs, slot by slot. -/
def encode (c : Component) (inputs : List (String × InputHandle)) : String :=
  line "name" [c.name] ++ line "version" [c.version] ++ line "builder" [c.builder] ++
    String.join (c.params.toList.map fun e => line "param" [e.1, e.2]) ++
    String.join (c.patches.map fun p => line "patch" [p]) ++
    String.join (c.excludedTests.map fun t => line "exclude" [t]) ++
    String.join (c.postBuild.map fun s => line "post" [s]) ++
    String.join (inputs.map inputLine)

end Encoding

end LayeredCatalog
