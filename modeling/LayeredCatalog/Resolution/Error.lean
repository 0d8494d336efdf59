import LayeredCatalog.Patch
/-!
# Why a catalog cannot be resolved

`ResolutionError` lists the faults that end the composition of a catalog, each
with what is needed to find the culprit, and `ResolutionError.message` is their
one wording. An error that a layer's function brings in from elsewhere ends it as
well; it is carried along unchanged (`ResolutionError.refused`).
-/

namespace LayeredCatalog

/-- A fault of a composed catalog. -/
inductive ResolutionError where
  /-- An input asks for a name that no catalog and no layer defines. -/
  | danglingInput (target referencedBy slot : String)
  /-- A contribution reads a name that the view it reads does not define. -/
  | danglingOrigin (target : String) (view : View) (referencedBy : String) (layer : Nat)
      (layerName : String)
  /-- A definition or a plan needs itself; the path leads from the name back to
  the name. -/
  | cycle (name : String) (path : List String)
  | layerFailed (name : String) (layer : Nat) (layerName reason : String)
  /-- Nothing defines a name that was asked for. -/
  | unknownComponent (name : String) (view : View)
  /-- A patch does not say how to merge a list. -/
  | mergeAmbiguity (component : String) (field : ListField) (layer : Nat)
  /-- An error that a layer's function brings in from outside the composition and
  passes on unchanged: the refusal of a reference that it could not read. Any
  other error of the program that a function can pass on is carried in the same
  way, be it a fault of a configuration, a file that cannot be read or a document
  that cannot be written. The refusal then is a token for that error and does not
  give its wording; an evaluation hands it on and never looks into it. -/
  | refused (refusal : Refusal)
deriving DecidableEq

def ResolutionError.message : ResolutionError → String
  | .danglingInput target referencedBy slot =>
    s!"dangling reference: input \"{slot}\" of \"{referencedBy}\" points to \"{target}\", " ++
      "which is not in the final catalog"
  | .danglingOrigin target view referencedBy layer layerName =>
    s!"dangling reference: layer {layer} (\"{layerName}\") reads {view.word}.{target} while " ++
      s!"resolving \"{referencedBy}\", which is not defined in that view"
  | .cycle name path => s!"cyclic definition of \"{name}\": " ++ " -> ".intercalate path
  | .layerFailed name layer layerName reason =>
    s!"layer {layer} (\"{layerName}\") failed while resolving \"{name}\": {reason}"
  | .unknownComponent name view =>
    s!"component \"{name}\" is not defined in the {view.word} catalog"
  | .mergeAmbiguity component field layer =>
    s!"ambiguous merge of field \"{field.name}\" on \"{component}\" in layer {layer}: " ++
      "list edits must be tagged union or replace"
  | .refused refusal => refusal.message

end LayeredCatalog
