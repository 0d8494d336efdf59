import LayeredCatalog.Catalog
import LayeredCatalog.Layer
/-!
# Compositions

A composition is a base catalog under a list of layers. Each name is defined in
some of its slots, the base and the layers, and those slots are ordered from the
base upwards. The final view of a name is its last slot; the previous view, as
seen from a layer, is the last slot below that layer.
-/

namespace LayeredCatalog

/-- A base catalog and the layers above it, lowest first. -/
structure Composition where
  base : Catalog
  layers : List Layer

/-- A place that can define names. -/
inductive Slot where
  | base
  | layer (index : Nat)
deriving DecidableEq, Repr

namespace Slot

/-- Whether a slot lies below a layer. The base lies below every layer. -/
def isBelow : Slot → Nat → Bool
  | .base, _ => true
  | .layer j, i => j < i

/-- The order of slots, from the base upwards. -/
def lt : Slot → Slot → Prop
  | .base, .layer _ => True
  | .layer i, .layer j => i < j
  | _, .base => False

end Slot

namespace Composition

/-- Whether some slot defines the name. -/
def contains (c : Composition) (name : String) : Bool :=
  c.base.contains name || c.layers.any (·.overlay.contains name)

/-- Every name that some slot defines, in order. -/
def names (c : Composition) : List String :=
  (c.layers.foldl (fun t l => t.insertMany (l.overlay.toList.map fun e => (e.1, ())))
    (c.base.map fun _ _ => ())).keys

theorem contains_iff_mem_names {c : Composition} {name : String} :
    c.contains name ↔ name ∈ c.names := by
  have h (layers : List Layer) (t : Table String Unit) :
      ((layers.foldl (fun t l => t.insertMany (l.overlay.toList.map fun e => (e.1, ()))) t).contains
        name) = (t.contains name || layers.any (·.overlay.contains name)) := by
    induction layers generalizing t with
    | nil => simp
    | cons l layers ih =>
      rw [List.foldl_cons, ih, Table.contains_insertMany, List.any_cons, Bool.or_assoc]
      congr 2
      rw [Bool.eq_iff_iff, Table.contains_iff_mem_keys, Table.keys]
      simp
  rw [names, ← Table.contains_iff_mem_keys, h, contains]
  have hb : (c.base.map fun _ _ => ()).contains name = c.base.contains name := by
    rw [Bool.eq_iff_iff, Table.contains_iff_mem_keys, Table.contains_iff_mem_keys]
    simp [Table.keys, Table.map]
  rw [hb]

/-- The indices of the layers that assign a name, from `i` on, lowest first. -/
def layersAssigning (name : String) (i : Nat) : List Layer → List Slot
  | [] => []
  | l :: layers =>
    if l.overlay.contains name then .layer i :: layersAssigning name (i + 1) layers
    else layersAssigning name (i + 1) layers

/-- The slots that define a name, lowest first. -/
def slots (c : Composition) (name : String) : List Slot :=
  (if c.base.contains name then [.base] else []) ++ layersAssigning name 0 c.layers

/-- The slot that defines a name in the final view. -/
def lastSlot? (c : Composition) (name : String) : Option Slot := (c.slots name).getLast?

/-- The slot that defines a name in the previous view, as seen from a layer. -/
def slotBelow? (c : Composition) (layer : Nat) (name : String) : Option Slot :=
  (c.slots name).reverse.find? (·.isBelow layer)

/-- The slot that defines a name in a view, as seen from a layer. -/
def slotIn? (c : Composition) (layer : Nat) (o : Origin) : Option Slot :=
  match o.view with
  | .previous => c.slotBelow? layer o.name
  | .final => c.lastSlot? o.name

/-- The layer with an index and its contribution for a name. -/
def contribution? (c : Composition) (layer : Nat) (name : String) :
    Option (Layer × Contribution) :=
  match c.layers[layer]? with
  | some l => (l.overlay.get? name).map (l, ·)
  | none => none

/-- All pairs of a name and a layer that assigns it. -/
def cells (c : Composition) : List (String × Nat) :=
  c.layers.zipIdx.flatMap fun l => l.1.overlay.keys.map (·, l.2)

theorem mem_cells_of_contribution? {c : Composition} {layer : Nat} {name : String}
    {x : Layer × Contribution} (h : c.contribution? layer name = some x) :
    (name, layer) ∈ c.cells := by
  unfold contribution? at h
  split at h
  · rename_i l hl
    obtain ⟨v, hv, rfl⟩ := Option.map_eq_some_iff.1 h
    refine List.mem_flatMap.2 ⟨(l, layer), ?_, ?_⟩
    · rw [List.mem_zipIdx_iff_getElem?]
      exact hl
    · refine List.mem_map.2 ⟨name, ?_, rfl⟩
      exact List.mem_map.2 ⟨(name, v), Table.get?_eq_some_iff.1 hv, rfl⟩
  · cases h

end Composition

end LayeredCatalog
