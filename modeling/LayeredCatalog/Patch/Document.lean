import LayeredCatalog.Component.Document
import LayeredCatalog.Patch
import LayeredCatalog.Yaml.Datum
/-!
# Patches in documents

A patch is a record of seven fields, any of which may be left out. The edit of a
list is written as a mapping with the one key `union` or `replace` and the items,
or as a bare list, which says nothing about merging. The items of an edit must
look like texts.
-/

namespace LayeredCatalog

open Yaml (Node)

namespace ListEdit

/-- The items of a list, all of which look like texts. -/
def items? : Node → Option (List String)
  | .list tag items => if (Node.localTag? tag).isSome then none else items.mapM Node.strictText?
  | _ => none

def ofNode? : Node → Option ListEdit
  | .mapping tag [(key, items)] =>
    if (Node.localTag? tag).isSome then none
    else match key.strictKey? ["union", "replace"] with
      | some "union" => (items? items).map .union
      | some "replace" => (items? items).map .replace
      | _ => none
  | n => (items? n).map .unannotated

end ListEdit

namespace Patch

def keys : List String :=
  ["version", "builder", "inputs", "params", "patches", "excluded_tests", "post_build"]

def ofNode? (n : Node) : Option Patch := do
  let fields ← Datum.record? keys n
  let version ← Datum.field? fields "version" (Node.optional? Datum.text?) none
  let builder ← Datum.field? fields "builder" (Node.optional? Datum.text?) none
  let inputs ← Datum.field? fields "inputs" (Datum.table? InputRef.ofDatum?) .empty
  let params ← Datum.field? fields "params" (Datum.table? Datum.text?) .empty
  let patches ← Datum.field? fields "patches" ListEdit.ofNode? .keep
  let excludedTests ← Datum.field? fields "excluded_tests" ListEdit.ofNode? .keep
  let postBuild ← Datum.field? fields "post_build" ListEdit.ofNode? .keep
  some { version, builder, inputs, params, patches, excludedTests, postBuild }

def parse? (s : String) : Option Patch := (Node.parse? s).bind ofNode?

end Patch

end LayeredCatalog
