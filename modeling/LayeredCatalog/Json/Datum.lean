import LayeredCatalog.Datum
import LayeredCatalog.Json
/-!
# JSON values as data

A JSON string is a text, an array a list and an object a mapping. An array also
spells a record. Nothing else can be taken for one of these.
-/

namespace LayeredCatalog.Json

instance : Datum Json where
  text?
    | .string s => some s
    | _ => none
  items?
    | .array items => some items
    | _ => none
  entries?
    | .object members => some members
    | _ => none
  positional?
    | .array items => some items
    | _ => none

/-- The choice that a value makes among named cases: a string, or an object with
that one key and null. -/
def choice? : Json → Option String
  | .string s => some s
  | .object [(s, .null)] => some s
  | _ => none

end LayeredCatalog.Json
