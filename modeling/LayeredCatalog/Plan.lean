import LayeredCatalog.Json
import LayeredCatalog.Plan.Encoding
/-!
# Plans

A plan is a component together with what fills each of its inputs: the plan of
another component, or something from outside the catalog. So a plan is a tree
that reaches everything the component is built from. It also carries the digest
that names its artifact (`Plan.build`).
-/

namespace LayeredCatalog

mutual

/-- A component with every input filled. -/
inductive Plan where
  | make (component : Component) (inputs : List (String × PlanInput)) (artifact : Digest)

/-- What fills one input. -/
inductive PlanInput where
  /-- The plan of a component of the catalog. -/
  | component (plan : Plan)
  /-- Something from outside the catalog. -/
  | external (id : String)

end

namespace Plan

def component : Plan → Component
  | .make component _ _ => component

/-- What fills each input slot, in the order of the slots. -/
def inputs : Plan → List (String × PlanInput)
  | .make _ inputs _ => inputs

/-- The name of the artifact that the plan produces. -/
def artifact : Plan → Digest
  | .make _ _ artifact => artifact

/-- The name of the component that the plan builds. -/
def name (p : Plan) : String := p.component.name

end Plan

/-- What the artifact of the dependent component depends on. -/
def PlanInput.handle : PlanInput → InputHandle
  | .component plan => .artifact plan.artifact
  | .external id => .external id

namespace Plan

/-- The plan of a component whose inputs are filled as given. -/
def build (c : Component) (inputs : List (String × PlanInput)) : Plan :=
  .make c inputs (.ofText (Encoding.encode c (inputs.map fun e => (e.1, e.2.handle))))

/-- The plan that fills a slot, if the catalog fills it. -/
def input? (p : Plan) (slot : String) : Option Plan :=
  match p.inputs.lookup slot with
  | some (.component plan) => some plan
  | _ => none

def inputToJson : PlanInput → Json
  | .component plan =>
    .object [("kind", .string "catalog"), ("name", .string plan.name),
      ("artifact", .string plan.artifact.render)]
  | .external id => .object [("kind", .string "external"), ("id", .string id)]

/-- What documents show under each input slot. -/
def inputListing (p : Plan) : List (String × Json) :=
  p.inputs.map fun e => (e.1, inputToJson e.2)

/-- The plan as a document, without the plans below it. -/
def toJson (p : Plan) : Json :=
  .object [
    ("name", .string p.component.name),
    ("version", .string p.component.version),
    ("builder", .string p.component.builder),
    ("artifact", .string p.artifact.render),
    ("inputs", .object p.inputListing),
    ("params", .object (p.component.params.toList.map fun e => (e.1, .string e.2))),
    ("patches", .strings p.component.patches),
    ("excluded_tests", .strings p.component.excludedTests),
    ("post_build", .strings p.component.postBuild)]

end Plan

end LayeredCatalog
