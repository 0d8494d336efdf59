import LayeredCatalog.Datum
import LayeredCatalog.Yaml.Node
import LayeredCatalog.Yaml.Number
/-!
# YAML nodes as data

Where a text is asked for, every scalar is one, as it is spelled. Where a list or
a mapping is asked for, an empty plain scalar and an empty document are empty
ones. A value that may be left out is left out by null, which is empty, `~` or the
word.

Some values are taken in before it is known what they are, and then a plain scalar
has the type that it looks like: `strictText?` asks for what is a text then.
-/

namespace LayeredCatalog.Yaml.Node

instance : Datum Node where
  text?
    | .scalar _ text _ => some text
    | _ => none
  items?
    | .list _ items => some items
    | .scalar _ "" .plain => some []
    | .absent => some []
    | _ => none
  entries?
    | .mapping _ entries => entries.mapM fun
      | (.scalar _ key _, v) => some (key, v)
      | _ => none
    | .scalar _ "" .plain => some []
    | .absent => some []
    | _ => none
  positional? _ := none

def isNullWord (s : String) : Bool := s = "null" || s = "Null" || s = "NULL" || s = "~"

/-- The truth value that a text writes. -/
def bool? (s : String) : Option Bool :=
  if s = "true" || s = "True" || s = "TRUE" then some true
  else if s = "false" || s = "False" || s = "FALSE" then some false
  else none

/-- Reads a value that may be null. -/
def optional? {α : Type} (read : Node → Option α) (n : Node) : Option (Option α) :=
  match n with
  | .absent => some none
  | .scalar tag text .plain =>
    match tag with
    | none => if text = "" || isNullWord text then some none else (read n).map some
    | some tag =>
      if tag = .null then if isNullWord text then some none else none
      else (read n).map some
  | n => (read n).map some

/-- Whether a scalar stands for a value of the type with this tag: it is plain, or
a literal block with the tag. -/
def hasType (tag : Option Tag) (style : Style) (type : Tag) : Bool :=
  style = .plain || (style = .literal && tag = some type)

/-- A whole number below `bound`. -/
def nat? (bound : Nat) : Node → Option Nat
  | .scalar tag text style =>
    if hasType tag style .int then
      (natural? UInt64.size text.toList).filter (· < bound)
    else none
  | _ => none

def truth? : Node → Option Bool
  | .scalar tag text style =>
    if hasType tag style .bool then bool? text else none
  | _ => none

/-- The name that a local tag gives, if it is text. -/
def localTag? (tag : Option Tag) : Option String := tag.bind Tag.name?

/-- The choice that a value makes among named cases: a scalar, or a tag before
null. -/
def choice? : Node → Option String
  | .scalar tag text style =>
    match localTag? tag with
    | some name => if style = .plain && (text = "" || isNullWord text) then some name else none
    | none => some text
  | _ => none

/-- What a scalar is that is taken in before its type is known. -/
inductive Guess where
  | text (s : String)
  /-- A whole number, zero or more. -/
  | natural (n : Nat)
  | null
  /-- A truth value or another number. -/
  | other
deriving DecidableEq

/-- What a plain scalar is, by its look. -/
def guessPlain (text : String) : Guess :=
  if text = "" || isNullWord text then .null
  else if (bool? text).isSome then .other
  else match natural? UInt64.size text.toList with
    | some n => .natural n
    | none => if isNumber text.toList then .other else .text text

/-- What a scalar is, by its tag, its style and its look. A tag for a choice is
not taken in. -/
def guess? : Node → Option Guess
  | .scalar tag text style =>
    if (localTag? tag).isSome then none
    else if tag = some .null then if isNullWord text then some .null else none
    else if tag = some .bool then (bool? text).map fun _ => .other
    else if tag = some .int then
      match natural? UInt64.size text.toList with
      | some n => some (.natural n)
      | none => if isNegative (Nat.pow 2 63) text.toList then some .other else none
    else if tag = some .float then
      if isFloat text.toList then some .other else none
    else if tag.all Tag.isLocal && style = .plain then some (guessPlain text)
    else some (.text text)
  | _ => none

/-- The text of a scalar that is one by its look. -/
def strictText? (n : Node) : Option String :=
  match n.guess? with
  | some (.text s) => some s
  | _ => none

/-- A key of a record that is taken in before its type is known: a text, or the
place of the field among `keys`. -/
def strictKey? (keys : List String) (n : Node) : Option String :=
  match n.guess? with
  | some (.text s) => some s
  | some (.natural i) => keys[i]?
  | _ => none

/-- A text by its look, or null. -/
def strictOptional? (n : Node) : Option (Option String) :=
  match n.guess? with
  | some (.text s) => some (some s)
  | some .null => some none
  | _ => none

/-- Whether a value that was taken in says nothing: null, or an empty mapping. -/
def isNothing : Node → Bool
  | .mapping tag [] => (localTag? tag).isNone
  | n => n.guess? = some .null

/-- A choice among `names` that was taken in before its type is known: its name, or
a mapping from it, or from its place, to nothing. -/
def strictChoice? (names : List String) : Node → Option String
  | .mapping tag [(key, value)] =>
    if (localTag? tag).isNone && value.isNothing then key.strictKey? names else none
  | n => n.strictText?

end LayeredCatalog.Yaml.Node
