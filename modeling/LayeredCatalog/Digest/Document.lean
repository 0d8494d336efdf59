import LayeredCatalog.Digest
import LayeredCatalog.Json.Datum
import LayeredCatalog.Json.Reader
/-!
# Digests in documents

A digest stands in a document as a text, which may have the scheme in front or
not, like any text that a digest is read from.
-/

namespace LayeredCatalog.Digest

def ofDatum? {δ : Type} [Datum δ] (d : δ) : Option Digest := (Datum.text? d).bind ofHex?

/-- Reads the digest that a JSON document consists of. -/
def parse? (s : String) : Option Digest := (Json.parse? s).bind ofDatum?

end LayeredCatalog.Digest
