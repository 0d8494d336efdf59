import LayeredCatalog.Resolution.Error
/-!
# Layers

A layer assigns contributions to names. A contribution is a constant component,
a component computed from what the layer reads (`Reading`), or an existing
component passed through a transform. Which names a layer assigns is known
without evaluating anything.

A computed contribution is a `Reading`: a tree of questions, each answered by
the composition that the layer is part of. So the same value can be run by an
evaluator and be reasoned about.
-/

namespace LayeredCatalog

/-- How a layer's contribution can fail. -/
inductive LayerFailure where
  /-- A fault of the composition, or an error from outside it
  (`ResolutionError.refused`), passed on as it is. -/
  | fault (error : ResolutionError)
  /-- The view does not define the name that was read. -/
  | missing (name : String) (view : View)
  /-- A patch does not say how to merge this list. -/
  | ambiguous (field : ListField)
  | failed (reason : String)
deriving DecidableEq

namespace LayerFailure

/-- The wording of a failure before it is attributed to a layer. -/
def message : LayerFailure → String
  | .fault error => error.message
  | .missing name view => s!"{view.word}.{name} is not defined"
  | .ambiguous field => s!"ambiguous edit of \"{field.name}\""
  | .failed reason => reason

/-- The list field that an ambiguous patch leaves open. -/
def ambiguousField? : LayerFailure → Option ListField
  | .ambiguous field => some field
  | _ => none

/-- The failure as a fault of the composition, attributed to the contribution of
a layer for a name. -/
def blame (failure : LayerFailure) (name : String) (layer : Nat) (layerName : String) :
    ResolutionError :=
  match failure with
  | .fault error => error
  | .missing target view => .danglingOrigin target view name layer layerName
  | .ambiguous field => .mergeAmbiguity name field layer
  | .failed reason => .layerFailed name layer layerName reason

end LayerFailure

/-- A computation that asks a composition questions: the value of a name in a
view, and whether the layers below define a name. -/
inductive Reading (α : Type) where
  | done (result : α)
  | read (origin : Origin) (next : Except LayerFailure Component → Reading α)
  | definedBelow (name : String) (next : Bool → Reading α)

namespace Reading

/-- Goes on with `f` once a result is there. -/
def bind {α β : Type} : Reading α → (α → Reading β) → Reading β
  | .done a, f => f a
  | .read origin next, f => .read origin fun answer => (next answer).bind f
  | .definedBelow name next, f => .definedBelow name fun answer => (next answer).bind f

instance : Monad Reading where
  pure := .done
  bind := .bind

/-- Runs a computation on a state that answering a question may change. -/
def run {α σ : Type} (answer : Origin → σ → Except LayerFailure Component × σ)
    (isDefinedBelow : String → Bool) : Reading α → σ → α × σ
  | .done a, s => (a, s)
  | .read origin next, s =>
    (next (answer origin s).1).run answer isDefinedBelow (answer origin s).2
  | .definedBelow name next, s => (next (isDefinedBelow name)).run answer isDefinedBelow s

end Reading

/-- How an existing component becomes a new one. -/
inductive Transform where
  /-- A function whose result is taken as it is. -/
  | replace (f : Component → Except LayerFailure Component)
  /-- A patch. -/
  | merge (patch : Patch)

/-- The transformed component. -/
def Transform.apply : Transform → Component → Except LayerFailure Component
  | .replace f, old => f old
  | .merge patch, old => (patch.apply old).mapError .ambiguous

/-- What a layer assigns to one name. -/
inductive Contribution where
  | constant (component : Component)
  /-- A component computed from what the layer reads; the computation is told the
  index of its layer. -/
  | compute (body : Nat → Reading (Except LayerFailure Component))
  /-- An existing component passed through a transform. -/
  | derive (origin : Origin) (transform : Transform)

/-- The contributions of a layer, by name. -/
abbrev Overlay := Table String Contribution

namespace Overlay

/-- Assigns a constant component. -/
def set (o : Overlay) (name : String) (component : Component) : Overlay :=
  o.insert name (.constant component)

/-- Assigns a computed component. -/
def define (o : Overlay) (name : String)
    (body : Nat → Reading (Except LayerFailure Component)) : Overlay :=
  o.insert name (.compute body)

/-- Assigns the component at an origin, transformed. -/
def derive (o : Overlay) (name : String) (origin : Origin) (transform : Transform) : Overlay :=
  o.insert name (.derive origin transform)

/-- Assigns the previous component of the same name, transformed. -/
def modify (o : Overlay) (name : String) (transform : Transform) : Overlay :=
  o.derive name ⟨.previous, name⟩ transform

end Overlay

/-- A named overlay. -/
structure Layer where
  name : String
  /-- What the layer assigns. -/
  overlay : Overlay

end LayeredCatalog
