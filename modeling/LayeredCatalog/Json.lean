import LayeredCatalog.Text.Quoted
/-!
# JSON values and their text

`Json` is the data of a JSON document; the members of an object keep their
order. A number is held as it is spelled, because nothing here computes with
numbers that were read.

A value is written in two ways: `compact`, without blanks, and `pretty`, with
every item and member on a line of its own. Both write every character of a
string as it is, apart from the quote, the backslash and the characters below
the space.
-/

namespace LayeredCatalog

/-- The data of a JSON document. -/
inductive Json where
  | null
  | bool (b : Bool)
  /-- A number, as it is spelled. -/
  | number (spelling : String)
  | string (s : String)
  | array (items : List Json)
  | object (members : List (String × Json))
deriving Inhabited

namespace Json

def nat (n : Nat) : Json := .number (toString n)

def strings (l : List String) : Json := .array (l.map .string)

/-- A string, or null. -/
def stringOrNull : Option String → Json
  | some s => .string s
  | none => .null

/-- The spelling of one character inside a string. -/
def escape (c : Char) : List Char :=
  if c = '"' then ['\\', '"']
  else if c = '\\' then ['\\', '\\']
  else if c = '\n' then ['\\', 'n']
  else if c = '\r' then ['\\', 'r']
  else if c = '\t' then ['\\', 't']
  else if c = '\x08' then ['\\', 'b']
  else if c = '\x0c' then ['\\', 'f']
  else if _h : c.toNat < 0x20 then
    ['\\', 'u', '0', '0', Text.hexDigit ⟨c.toNat / 16, by omega⟩,
      Text.hexDigit ⟨c.toNat % 16, by omega⟩]
  else [c]

def quote (s : String) : List Char := '"' :: s.toList.flatMap escape ++ ['"']

mutual

/-- The text of a value without blanks. -/
def compactChars : Json → List Char
  | .null => ['n', 'u', 'l', 'l']
  | .bool true => ['t', 'r', 'u', 'e']
  | .bool false => ['f', 'a', 'l', 's', 'e']
  | .number spelling => spelling.toList
  | .string s => quote s
  | .array [] => ['[', ']']
  | .array (v :: items) => '[' :: v.compactChars ++ compactItems items
  | .object [] => ['\x7b', '\x7d']
  | .object ((k, v) :: members) =>
    '\x7b' :: quote k ++ ':' :: v.compactChars ++ compactMembers members

/-- The items after the first one, and the closing bracket. -/
def compactItems : List Json → List Char
  | [] => [']']
  | v :: items => ',' :: v.compactChars ++ compactItems items

/-- The members after the first one, and the closing brace. -/
def compactMembers : List (String × Json) → List Char
  | [] => ['\x7d']
  | (k, v) :: members => ',' :: quote k ++ ':' :: v.compactChars ++ compactMembers members

end

/-- A line break and the blanks of a nesting depth. -/
def newLine (depth : Nat) : List Char := '\n' :: List.replicate (2 * depth) ' '

mutual

/-- The text of a value with one item or member a line, at a nesting depth. -/
def prettyChars (depth : Nat) : Json → List Char
  | .null => ['n', 'u', 'l', 'l']
  | .bool true => ['t', 'r', 'u', 'e']
  | .bool false => ['f', 'a', 'l', 's', 'e']
  | .number spelling => spelling.toList
  | .string s => quote s
  | .array [] => ['[', ']']
  | .array (v :: items) =>
    '[' :: newLine (depth + 1) ++ v.prettyChars (depth + 1) ++ prettyItems depth items
  | .object [] => ['\x7b', '\x7d']
  | .object ((k, v) :: members) =>
    '\x7b' :: newLine (depth + 1) ++ quote k ++ ':' :: ' ' :: v.prettyChars (depth + 1) ++
      prettyMembers depth members

/-- The items after the first one, and the closing bracket. -/
def prettyItems (depth : Nat) : List Json → List Char
  | [] => newLine depth ++ [']']
  | v :: items =>
    ',' :: newLine (depth + 1) ++ v.prettyChars (depth + 1) ++ prettyItems depth items

/-- The members after the first one, and the closing brace. -/
def prettyMembers (depth : Nat) : List (String × Json) → List Char
  | [] => newLine depth ++ ['\x7d']
  | (k, v) :: members =>
    ',' :: newLine (depth + 1) ++ quote k ++ ':' :: ' ' :: v.prettyChars (depth + 1) ++
      prettyMembers depth members

end

/-- The text of a value without blanks. -/
def compact (v : Json) : String := String.ofList v.compactChars

/-- The text of a value with one item or member a line. -/
def pretty (v : Json) : String := String.ofList (v.prettyChars 0)

end Json

end LayeredCatalog
