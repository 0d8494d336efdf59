import LayeredCatalog.Catalog
import LayeredCatalog.Component.Document
/-!
# Catalogs in documents

A catalog document is a JSON object with a component under each name. The keys
must be component names, and the component takes the name of its key whatever
name it holds itself.
-/

namespace LayeredCatalog.Catalog

/-- Why a catalog document is no catalog. -/
inductive DocumentError where
  /-- The text is not a JSON object of components. -/
  | malformed
  /-- A key is no component name. -/
  | refused (refusal : Refusal)
deriving DecidableEq

/-- Takes components under the names of their keys, if all keys are component
names. Of several bad keys the first one is reported. -/
def ofTable (t : Table String Component) : Except DocumentError Catalog :=
  match t.keys.find? (!Name.isValid ·) with
  | some name => .error (.refused ⟨.catalog, .invalidName name⟩)
  | none => .ok (t.map fun name c => { c with name })

def parse (s : String) : Except DocumentError Catalog :=
  match (Json.parse? s).bind (Datum.table? Component.ofDatum?) with
  | none => .error .malformed
  | some t => ofTable t

end LayeredCatalog.Catalog
