import LayeredCatalog.Component
/-!
# Catalogs

A catalog holds components, each under a name.
-/

namespace LayeredCatalog

/-- Components by name. -/
abbrev Catalog := Table String Component

namespace Catalog

/-- Adds a component under its own name, in the place of one that had it. -/
def add (catalog : Catalog) (c : Component) : Catalog := catalog.insert c.name c

end Catalog

end LayeredCatalog
