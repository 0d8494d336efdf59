import LayeredCatalog.Composition.Evaluation
/-!
# Resolution

To resolve a composition is to plan every name it defines. The plans of a
resolved catalog agree with each other: an input that the catalog fills holds the
very plan that the catalog has under that name.
-/

namespace LayeredCatalog

/-- The plans of all names. -/
abbrev ResolvedCatalog := Table String Plan

namespace Composition

/-- Plans every name, in the order of names, and ends at the first fault. -/
def resolveWith (c : Composition) (m : Memo) : Except ResolutionError ResolvedCatalog × Memo :=
  onSuccess .ofList (c.plans c.names m)

def resolve (c : Composition) : Except ResolutionError ResolvedCatalog := (c.resolveWith {}).1

end Composition

namespace ResolvedCatalog

def dependencies (r : ResolvedCatalog) : Dependencies :=
  r.toList.foldl (fun g e =>
    (e.2.component.catalogInputs.map (·.2)).foldl (·.add e.1 ·) (g.addNode e.1)) {}

/-- An order in which the components can be built, dependencies first. -/
def buildOrder (r : ResolvedCatalog) : Except ResolutionError (List String) :=
  r.dependencies.order.mapError fun name => .cycle name [name, name]

end ResolvedCatalog

end LayeredCatalog
