import LayeredCatalog.Layer
import LayeredCatalog.Patch.Document
/-!
# Layers in documents

A layer document names the layer, or leaves its name to a fallback, and says for
each component one of three things: the component is set, the previous one of the
same name is modified by a patch, or it is derived from the component at an origin
by a patch.

`Layer.ofDocument` turns a document into a layer. It goes through the entries in
the order of their keys and stops at the first fault; a key that is no component
name comes before a fault of its entry.
-/

namespace LayeredCatalog

open Yaml (Node)

/-- What a document says about one component: each of the three kinds, if it is
there. -/
structure LayerEntry where
  set : Option Component := none
  modify : Option Patch := none
  /-- The written form of an origin, and a patch. -/
  derive : Option (String × Patch) := none

/-- A layer document. -/
structure LayerDocument where
  name : Option String := none
  entries : Table String LayerEntry := .empty

namespace LayerEntry

/-- Reads what a component is derived from and how. -/
def deriveOfNode? (n : Node) : Option (String × Patch) := do
  let fields ← Datum.record? ["from", "patch"] n
  let source ← Datum.required? fields "from" Datum.text?
  let patch ← Datum.field? fields "patch" Patch.ofNode? {}
  some (source, patch)

def ofNode? (n : Node) : Option LayerEntry := do
  let fields ← Datum.record? ["set", "modify", "derive"] n
  let set ← Datum.field? fields "set" (Node.optional? Component.ofDatum?) none
  let modify ← Datum.field? fields "modify" (Node.optional? Patch.ofNode?) none
  let derive ← Datum.field? fields "derive" (Node.optional? deriveOfNode?) none
  some { set, modify, derive }

/-- The contribution that an entry makes to the component `key` in the layer
`layer`. An entry must be of exactly one kind. -/
def contribution (e : LayerEntry) (layer key : String) : Except Refusal Contribution :=
  match e.set, e.modify, e.derive with
  | some component, none, none => .ok (.constant component)
  | none, some patch, none => .ok (.derive ⟨.previous, key⟩ (.merge patch))
  | none, none, some (source, patch) =>
    (Origin.parse source).map fun origin => .derive origin (.merge patch)
  | _, _, _ => .error ⟨.layer layer, .notOneKind key⟩

end LayerEntry

namespace LayerDocument

def ofNode? (n : Node) : Option LayerDocument := do
  let fields ← Datum.record? ["name", "components"] n
  let name ← Datum.field? fields "name" (Node.optional? Datum.text?) none
  let entries ← Datum.field? fields "components" (Datum.table? LayerEntry.ofNode?) .empty
  some { name, entries }

end LayerDocument

namespace Layer

/-- The contributions of a list of entries, up to the first fault. -/
def contributions (layer : String) :
    List (String × LayerEntry) → Except Refusal (List (String × Contribution))
  | [] => .ok []
  | (key, e) :: entries =>
    if !Name.isValid key then .error ⟨.layer layer, .invalidName key⟩
    else match e.contribution layer key with
      | .error refusal => .error refusal
      | .ok contribution =>
        match contributions layer entries with
        | .error refusal => .error refusal
        | .ok contributions => .ok ((key, contribution) :: contributions)

/-- The layer that a document describes; `fallback` names it if the document does
not. -/
def ofDocument (d : LayerDocument) (fallback : String) : Except Refusal Layer :=
  let name := d.name.getD fallback
  match contributions name d.entries.toList with
  | .error refusal => .error refusal
  | .ok contributions => .ok ⟨name, .ofList contributions⟩

def parse (s fallback : String) : Except Refusal Layer :=
  match (Node.parse? s).bind LayerDocument.ofNode? with
  | none => .error ⟨.layer fallback, .malformed⟩
  | some d => ofDocument d fallback

end Layer

end LayeredCatalog
