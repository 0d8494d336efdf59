import LayeredCatalog.Catalog.Document
import LayeredCatalog.Deployment.Config.Document
import LayeredCatalog.Files
import LayeredCatalog.Layer.Document
import LayeredCatalog.Project
/-!
# Loading documents from files

Each kind of document is read from the file at a path. A layer that does not name
itself is named for its file.
-/

namespace LayeredCatalog

/-- Why a document cannot be loaded. -/
inductive LoadError where
  /-- The file at the path cannot be read. -/
  | fault (path : Path) (cause : FileFault)
  /-- The catalog is not a JSON object of components. -/
  | malformedCatalog
  | refused (refusal : Refusal)
deriving DecidableEq

namespace LoadError

def message : LoadError → String
  | .fault path cause => s!"I/O error at {path.text}: {cause.message}"
  | .malformedCatalog => "malformed catalog"
  | .refused refusal => refusal.message

/-- The error that an error of a catalog document is. -/
def ofDocumentError : Catalog.DocumentError → LoadError
  | .malformed => .malformedCatalog
  | .refused refusal => .refused refusal

end LoadError

namespace FileAccess

variable {m : Type → Type} [Monad m]

/-- Reads the file at a path and makes a value of its text. -/
def load {α : Type} (files : FileAccess m) (path : Path) (parse : String → Except LoadError α) :
    ExceptT LoadError m α := do
  match ← files.read path with
  | .ok s => parse s
  | .error cause => throw (.fault path cause)

def loadCatalog (files : FileAccess m) (path : Path) : ExceptT LoadError m Catalog :=
  files.load path fun s => (Catalog.parse s).mapError .ofDocumentError

def loadLayer (files : FileAccess m) (path : Path) : ExceptT LoadError m Layer :=
  files.load path fun s => (Layer.parse s (path.fileStem?.getD path.text)).mapError .refused

def loadDeployment (files : FileAccess m) (path : Path) : ExceptT LoadError m DeploymentConfig :=
  files.load path fun s => (DeploymentConfig.parse s).mapError .refused

def loadSecrets (files : FileAccess m) (path : Path) : ExceptT LoadError m SecretSet :=
  files.load path fun s => (SecretSet.parse s).mapError .refused

def loadProject (files : FileAccess m) (path : Path) : ExceptT LoadError m Project :=
  files.load path fun s => (Project.parse s path).mapError .refused

end FileAccess

end LayeredCatalog
