import LayeredCatalog.Component
import LayeredCatalog.Json.Datum
import LayeredCatalog.Json.Reader
/-!
# Components in documents

A component is a record of its eight fields, any of which may be left out. An
input is the written form of its reference, so a document that is read holds
valid references only.
-/

namespace LayeredCatalog

namespace InputRef

def ofDatum? {δ : Type} [Datum δ] (d : δ) : Option InputRef :=
  (Datum.text? d).bind fun s => (InputRef.parse s).toOption

end InputRef

namespace Component

/-- The keys of the record, in their order. -/
def keys : List String :=
  ["name", "version", "builder", "inputs", "params", "patches", "excluded_tests", "post_build"]

def ofDatum? {δ : Type} [Datum δ] (d : δ) : Option Component := do
  let fields ← Datum.record? keys d
  let name ← Datum.field? fields "name" Datum.text? ""
  let version ← Datum.field? fields "version" Datum.text? ""
  let builder ← Datum.field? fields "builder" Datum.text? ""
  let inputs ← Datum.field? fields "inputs" (Datum.table? InputRef.ofDatum?) .empty
  let params ← Datum.field? fields "params" (Datum.table? Datum.text?) .empty
  let patches ← Datum.field? fields "patches" Datum.texts? []
  let excludedTests ← Datum.field? fields "excluded_tests" Datum.texts? []
  let postBuild ← Datum.field? fields "post_build" Datum.texts? []
  some { name, version, builder, inputs, params, patches, excludedTests, postBuild }

def toJson (c : Component) : Json :=
  .object [
    ("name", .string c.name),
    ("version", .string c.version),
    ("builder", .string c.builder),
    ("inputs", .object (c.inputs.toList.map fun e => (e.1, .string e.2.render))),
    ("params", .object (c.params.toList.map fun e => (e.1, .string e.2))),
    ("patches", .strings c.patches),
    ("excluded_tests", .strings c.excludedTests),
    ("post_build", .strings c.postBuild)]

/-- The text of a component, without blanks. -/
def render (c : Component) : String := c.toJson.compact

def parse? (s : String) : Option Component := (Json.parse? s).bind ofDatum?

end Component

end LayeredCatalog
