import LayeredCatalog.Text.Quoted
/-!
# Refusals

A text that cannot be read is refused. A `Refusal` says what was being read and
why it does not do; `Refusal.message` is its one wording.
-/

namespace LayeredCatalog

/-- What a reader of references asked for at the place where it stopped. -/
inductive Expected where
  | word
  /-- The dot between a view and a name. -/
  | dot
  | nameChar
  /-- The end of the text. -/
  | nothing
deriving DecidableEq

def Expected.label : Expected → String
  | .word => "Tag"
  | .dot => "Char"
  | .nameChar => "TakeWhile1"
  | .nothing => "Eof"

/-- What a text was meant to be. -/
inductive Subject where
  | digest
  | logLevel
  | inputReference (text : String)
  | origin (text : String)
  | catalog
  | layer (name : String)
  | deploymentConfiguration
  | secretReferences
  /-- The document in the file at this path. -/
  | file (path : String)
deriving DecidableEq

/-- The subject as diagnostics name it. -/
def Subject.words : Subject → String
  | .digest => "SHA-256 digest"
  | .logLevel => "log level"
  | .inputReference text => s!"input reference \"{text}\""
  | .origin text => s!"origin \"{text}\""
  | .catalog => "catalog"
  | .layer name => s!"layer \"{name}\""
  | .deploymentConfiguration => "deployment configuration"
  | .secretReferences => "secret references"
  | .file path => path

/-- Why a text was refused. -/
inductive Reason where
  | invalidName (name : String)
  /-- The text is not a digest in hexadecimal digits. -/
  | invalidHex (text : String)
  | unknownLevel (text : String)
  /-- An entry of a layer document is not exactly one of its three kinds. -/
  | notOneKind (entry : String)
  /-- A reference does not follow its grammar from `rest` on. -/
  | mismatch (rest : List Char) (expected : Expected)
  /-- The document is malformed or does not have the form that its subject asks
  for. -/
  | malformed
deriving DecidableEq

def Reason.message : Reason → String
  | .invalidName name => s!"invalid component name \"{name}\""
  | .invalidHex text => s!"invalid hex string: {text}"
  | .unknownLevel text => s!"unknown level \"{text}\""
  | .notOneKind entry => s!"entry \"{entry}\" must have exactly one of set, modify, derive"
  | .mismatch rest expected =>
    "Parsing Error: Error \x7b input: " ++ Text.quoted rest ++ ", code: " ++ expected.label ++ " \x7d"
  | .malformed => "malformed document"

/-- A text that was refused. -/
structure Refusal where
  /-- What the text was meant to be. -/
  subject : Subject
  /-- Why it is not that. -/
  reason : Reason
deriving DecidableEq

def Refusal.message (r : Refusal) : String :=
  s!"failed to parse {r.subject.words}: {r.reason.message}"

end LayeredCatalog
