import LayeredCatalog.Table
/-!
# Data of documents

A document holds texts, lists and mappings. `Datum δ` says how values of a
document format are looked at in these three ways, and the readers of records
below are built on it. A reader fails on the first thing that does not have the
form it asks for; it does not say why.

A record is a mapping from known keys, each at most once. A format may also allow
a record to be spelled as the list of its fields in their order.
-/

namespace LayeredCatalog

/-- Values of a document format. -/
class Datum (δ : Type) where
  /-- The text of a value that is one. -/
  text? : δ → Option String
  /-- The items of a value that can be taken for a list. -/
  items? : δ → Option (List δ)
  /-- The entries of a value that can be taken for a mapping, in their order. -/
  entries? : δ → Option (List (String × δ))
  /-- The fields of a value that spells a record as a list. -/
  positional? : δ → Option (List δ)

namespace Datum

variable {δ : Type} [Datum δ]

def texts? (d : δ) : Option (List String) := do (← items? d).mapM text?

/-- A table of values, each read by `read`. Of two entries with one key the later
one stays, but both are read. -/
def table? {α : Type} (read : δ → Option α) (d : δ) : Option (Table String α) := do
  let entries ← entries? d
  let entries ← entries.mapM fun e => (read e.2).map (e.1, ·)
  some (.ofList entries)

/-- The fields of a record whose keys are among `keys`. -/
def record? (keys : List String) (d : δ) : Option (List (String × δ)) :=
  match positional? d with
  | some fields => if fields.length ≤ keys.length then some (keys.zip fields) else none
  | none => do
    let entries ← entries? d
    if entries.all (keys.contains ·.1) && (entries.map (·.1)).Nodup then some entries else none

/-- The field of a record, read by `read`, or a value in the place of a field that
is not there. -/
def field? {α : Type} (fields : List (String × δ)) (key : String) (read : δ → Option α)
    (default : α) : Option α :=
  match fields.lookup key with
  | some d => read d
  | none => some default

/-- The field of a record that must be there. -/
def required? {α : Type} (fields : List (String × δ)) (key : String) (read : δ → Option α) :
    Option α :=
  (fields.lookup key).bind read

end Datum

end LayeredCatalog
