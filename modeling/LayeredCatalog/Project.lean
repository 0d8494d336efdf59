import LayeredCatalog.Path
import LayeredCatalog.Refusal
import LayeredCatalog.Yaml.Datum
/-!
# Projects

A project names the files that a deployment is made from: a base catalog, the
layers above it, and perhaps a configuration and a set of secrets. Its manifest
names them as seen from the directory of the manifest.
-/

namespace LayeredCatalog

open Yaml (Node)

/-- The files of a project. -/
structure Project where
  catalog : Path := ⟨""⟩
  /-- The layers, lowest first. -/
  layers : List Path := []
  deployment : Option Path := none
  secrets : Option Path := none
deriving DecidableEq

namespace Project

def ofNode? (n : Node) : Option Project := do
  let path? (n : Node) : Option Path := (Datum.text? n).map Path.mk
  let fields ← Datum.record? ["catalog", "layers", "deployment", "secrets"] n
  let catalog ← Datum.field? fields "catalog" path? ⟨""⟩
  let layers ← Datum.field? fields "layers" (fun n => do (← Datum.items? n).mapM path?) []
  let deployment ← Datum.field? fields "deployment" (Node.optional? path?) none
  let secrets ← Datum.field? fields "secrets" (Node.optional? path?) none
  some { catalog, layers, deployment, secrets }

/-- The project whose files are named as seen from `base`. -/
def rebase (p : Project) (base : Path) : Project :=
  { catalog := base.join p.catalog.text
    layers := p.layers.map fun l => base.join l.text
    deployment := p.deployment.map fun d => base.join d.text
    secrets := p.secrets.map fun s => base.join s.text }

def directory (manifest : Path) : Path := manifest.parent?.getD ⟨"."⟩

/-- Reads the text of the manifest at a path. -/
def parse (s : String) (manifest : Path) : Except Refusal Project :=
  match (Node.parse? s).bind ofNode? with
  | some p => .ok (p.rebase (directory manifest))
  | none => .error ⟨.file manifest.text, .malformed⟩

end Project

end LayeredCatalog
