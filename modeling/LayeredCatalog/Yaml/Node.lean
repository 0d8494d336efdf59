import LayeredCatalog.Yaml.Token
/-!
# Documents of YAML text

A document is a tree of scalars, lists and mappings. The tokens are first read as
a tree with anchors and aliases in it (`Linked`), and the aliases are then
replaced by what they stand for (`Node`). A text holds one document, which may be
empty.

An anchor is known by a number: how many different anchors had been named when it
was written. When an anchor is named again the new place takes the next number,
which the next new anchor then shares, and of two places with one number the
later one counts.
-/

namespace LayeredCatalog.Yaml

/-- A tree whose nodes may carry anchors and may be aliases. -/
inductive Linked where
  | alias (target : Nat)
  | scalar (anchor : Option Nat) (tag : Option Tag) (text : String) (style : Style)
  | list (anchor : Option Nat) (tag : Option Tag) (items : List Linked)
  | mapping (anchor : Option Nat) (tag : Option Tag) (entries : List (Linked × Linked))

/-- A tree without aliases. -/
inductive Node where
  /-- The content of an empty document. -/
  | absent
  | scalar (tag : Option Tag) (text : String) (style : Style)
  | list (tag : Option Tag) (items : List Node)
  | mapping (tag : Option Tag) (entries : List (Node × Node))
deriving Inhabited

def Linked.empty : Linked := .scalar none none "" .plain

/-! ### From tokens to a tree with aliases -/

/-- The tokens that are left, and what the tokens before them declared. -/
structure Unread where
  tokens : List Token
  /-- The numbers of the anchors named so far. -/
  anchors : List (String × Nat) := []
  handles : List (String × List UInt8) :=
    [("!", Tag.bytesOf "!"), ("!!", Tag.bytesOf "tag:yaml.org,2002:")]

/-- A step of a reading, which may fail. -/
abbrev Read := StateT Unread Option

namespace Read

/-- The next token, left where it is. -/
def peek? : Read (Option Token) := do return (← get).tokens.head?

/-- Takes the next token away. -/
def drop : Read Unit := modify fun u => { u with tokens := u.tokens.tail }

def nameAnchor (name : String) : Read Nat := do
  let r ← get
  let number := r.anchors.length
  set { r with anchors := (name, number) :: r.anchors.filter (·.1 ≠ name) }
  return number

/-- The tag that a handle and a rest stand for. -/
def resolveTag (handle : String) (rest : List UInt8) : Read Tag := do
  if handle.isEmpty then return .join [] rest
  else
    match (← get).handles.lookup handle with
    | some stands => return .join stands rest
    | none => failure

/-- An anchor and a tag before a node, in either order. -/
def properties : Read (Option Nat × Option Tag) := do
  match ← peek? with
  | some (.anchor name) =>
    drop
    let number ← nameAnchor name
    match ← peek? with
    | some (.tag handle rest) => drop; return (some number, some (← resolveTag handle rest))
    | _ => return (some number, none)
  | some (.tag handle rest) =>
    drop
    match ← peek? with
    | some (.anchor name) =>
      drop
      let number ← nameAnchor name
      return (some number, some (← resolveTag handle rest))
    | _ => return (none, some (← resolveTag handle rest))
  | _ => return (none, none)

/-- Whether nothing stands before this token in a block sequence. -/
def endsItem : Option Token → Bool
  | some .item | some .blockEnd | none => true
  | _ => false

/-- Whether nothing stands before this token in a sequence without an indentation
of its own. -/
def endsPlainItem : Option Token → Bool
  | some .item | some .key | some .value | some .blockEnd | none => true
  | _ => false

/-- Whether nothing stands before this token in a block mapping. -/
def endsEntry : Option Token → Bool
  | some .key | some .value | some .blockEnd | none => true
  | _ => false

/-- Whether nothing stands before this token as a key of a flow mapping. -/
def endsFlowKey : Option Token → Bool
  | some .value | some .comma | some .flowMappingEnd | none => true
  | _ => false

/-- Whether nothing stands before this token as a value of a flow mapping. -/
def endsFlowValue : Option Token → Bool
  | some .comma | some .flowMappingEnd | none => true
  | _ => false

/-- Whether nothing stands before this token as a key in a flow sequence. -/
def endsPairKey : Option Token → Bool
  | some .value | some .comma | some .flowSequenceEnd | none => true
  | _ => false

/-- Whether nothing stands before this token as a value in a flow sequence. -/
def endsPairValue : Option Token → Bool
  | some .comma | some .flowSequenceEnd | none => true
  | _ => false

mutual

/-- A node. In block context (`block`) it may be a block collection, and a value
of a block mapping (`bare`) may be a sequence without an indentation of its
own. -/
def node (block bare : Bool) : (fuel : Nat) → Read Linked
  | 0 => failure
  | fuel + 1 => do
    match ← peek? with
    | some (.alias name) =>
      drop
      match (← get).anchors.lookup name with
      | some number => return .alias number
      | none => failure
    | _ =>
      let (anchor, tag) ← properties
      match ← peek? with
      | some (.scalar text style) => drop; return .scalar anchor tag text style
      | some .flowSequence => drop; return .list anchor tag (← flowItems true fuel)
      | some .flowMapping => drop; return .mapping anchor tag (← flowEntries true fuel)
      | some .item =>
        if bare then return .list anchor tag (← bareItems fuel)
        else if anchor.isSome || tag.isSome then return .scalar anchor tag "" .plain
        else failure
      | some .blockSequence =>
        if block then drop; return .list anchor tag (← blockItems fuel)
        else if anchor.isSome || tag.isSome then return .scalar anchor tag "" .plain
        else failure
      | some .blockMapping =>
        if block then drop; return .mapping anchor tag (← blockEntries fuel)
        else if anchor.isSome || tag.isSome then return .scalar anchor tag "" .plain
        else failure
      | _ =>
        if anchor.isSome || tag.isSome then return .scalar anchor tag "" .plain else failure

/-- The items of a block sequence and its end. -/
def blockItems : (fuel : Nat) → Read (List Linked)
  | 0 => failure
  | fuel + 1 => do
    match ← peek? with
    | some .item =>
      drop
      let item ← if endsItem (← peek?) then pure .empty else node true false fuel
      return item :: (← blockItems fuel)
    | some .blockEnd => drop; return []
    | _ => failure

/-- The items of a sequence without an indentation of its own. -/
def bareItems : (fuel : Nat) → Read (List Linked)
  | 0 => failure
  | fuel + 1 => do
    match ← peek? with
    | some .item =>
      drop
      let item ← if endsPlainItem (← peek?) then pure .empty else node true false fuel
      return item :: (← bareItems fuel)
    | _ => return []

/-- The entries of a block mapping and its end. -/
def blockEntries : (fuel : Nat) → Read (List (Linked × Linked))
  | 0 => failure
  | fuel + 1 => do
    match ← peek? with
    | some .key =>
      drop
      let key ← if endsEntry (← peek?) then pure .empty else node true true fuel
      let value ← blockValue fuel
      return (key, value) :: (← blockEntries fuel)
    | some .blockEnd => drop; return []
    | _ => failure

/-- The value of an entry of a block mapping. -/
def blockValue : (fuel : Nat) → Read Linked
  | 0 => failure
  | fuel + 1 => do
    match ← peek? with
    | some .value =>
      drop
      if endsEntry (← peek?) then return .empty else node true true fuel
    | _ => return .empty

/-- The items of a flow sequence and its end. -/
def flowItems (first : Bool) : (fuel : Nat) → Read (List Linked)
  | 0 => failure
  | fuel + 1 => do
    if (← peek?) = some .flowSequenceEnd then drop; return []
    else
      if !first then
        if (← peek?) = some .comma then drop else failure
      match ← peek? with
      | some .key =>
        drop
        let entry ← flowPair fuel
        return .mapping none none [entry] :: (← flowItems false fuel)
      | some .flowSequenceEnd => drop; return []
      | _ =>
        let item ← node false false fuel
        return item :: (← flowItems false fuel)

/-- The one entry of a mapping that stands in a flow sequence, behind its
indicator. Where the key is left out, the token in its place is lost. -/
def flowPair : (fuel : Nat) → Read (Linked × Linked)
  | 0 => failure
  | fuel + 1 => do
    let key ← if endsPairKey (← peek?) then do drop; pure .empty else node false false fuel
    match ← peek? with
    | some .value =>
      drop
      let value ← if endsPairValue (← peek?) then pure .empty else node false false fuel
      return (key, value)
    | _ => return (key, .empty)

/-- The entries of a flow mapping and its end. -/
def flowEntries (first : Bool) : (fuel : Nat) → Read (List (Linked × Linked))
  | 0 => failure
  | fuel + 1 => do
    if (← peek?) = some .flowMappingEnd then drop; return []
    else
      if !first then
        if (← peek?) = some .comma then drop else failure
      match ← peek? with
      | some .key =>
        drop
        let key ← if endsFlowKey (← peek?) then pure .empty else node false false fuel
        let value ← flowValue fuel
        return (key, value) :: (← flowEntries false fuel)
      | some .flowMappingEnd => drop; return []
      | _ =>
        let key ← node false false fuel
        return (key, .empty) :: (← flowEntries false fuel)

/-- The value of an entry of a flow mapping. -/
def flowValue : (fuel : Nat) → Read Linked
  | 0 => failure
  | fuel + 1 => do
    match ← peek? with
    | some .value =>
      drop
      if endsFlowValue (← peek?) then return .empty else node false false fuel
    | _ => return .empty

end

/-- The directives before a document: at most one version, which is 1.1 or 1.2,
and handles that differ. -/
def directives (seenVersion : Bool) (seen : List String) : List Token →
    Option (List (String × List UInt8) × List Token)
  | .version major minor :: r =>
    if seenVersion || major ≠ 1 || (minor ≠ 1 && minor ≠ 2) then none
    else directives true seen r
  | .handle handle stands :: r =>
    if seen.contains handle then none
    else (directives seenVersion (handle :: seen) r).map fun (hs, r) => ((handle, stands) :: hs, r)
  | r => some ([], r)

def endsDocument : Option Token → Bool
  | some (.version ..) | some (.handle ..) | some .documentStart | some .documentEnd | none => true
  | _ => false

/-- The one document of a text, or nothing if the text is empty. -/
def document (tokens : List Token) : Option (Option Linked) := do
  match tokens with
  | [] => some none
  | t :: _ =>
    let fuel := 4 * tokens.length + 4
    let (root, r) ←
      if endsDocument (some t) && t ≠ .documentEnd then do
        let (handles, r) ← directives false [] tokens
        match r with
        | .documentStart :: r =>
          if endsDocument r.head? then some (Linked.empty, { tokens := r : Unread })
          else
            let start : Unread := { tokens := r }
            (node true false fuel).run { start with handles := handles ++ start.handles }
        | _ => none
      else (node true false fuel).run { tokens }
    if r.tokens.all (· = .documentEnd) then some (some root) else none

end Read

/-! ### Replacing aliases -/

namespace Linked

mutual

/-- How many events make up a tree: one for a scalar or an alias, and two for a
collection besides those of what is in it. -/
def events : Linked → Nat
  | .alias _ => 1
  | .scalar .. => 1
  | .list _ _ items => 2 + itemEvents items
  | .mapping _ _ entries => 2 + entryEvents entries

/-- How many events make up the items of a list. -/
def itemEvents : List Linked → Nat
  | [] => 0
  | n :: items => n.events + itemEvents items

/-- How many events make up the entries of a mapping. -/
def entryEvents : List (Linked × Linked) → Nat
  | [] => 0
  | (k, v) :: entries => k.events + v.events + entryEvents entries

end

mutual

/-- The anchored nodes of a tree, the last one first. -/
def anchored (found : List (Nat × Linked)) : Linked → List (Nat × Linked)
  | .alias _ => found
  | .scalar anchor tag text style =>
    (anchor.map (·, .scalar anchor tag text style)).toList ++ found
  | .list anchor tag items =>
    anchoredItems ((anchor.map (·, .list anchor tag items)).toList ++ found) items
  | .mapping anchor tag entries =>
    anchoredEntries ((anchor.map (·, .mapping anchor tag entries)).toList ++ found) entries

/-- The anchored nodes among the items of a list. -/
def anchoredItems (found : List (Nat × Linked)) : List Linked → List (Nat × Linked)
  | [] => found
  | n :: items => anchoredItems (n.anchored found) items

/-- The anchored nodes among the entries of a mapping. -/
def anchoredEntries (found : List (Nat × Linked)) : List (Linked × Linked) → List (Nat × Linked)
  | [] => found
  | (k, v) :: entries => anchoredEntries (v.anchored (k.anchored found)) entries

end

/-- The node that an alias stands for. Following an alias takes one from the
budget, and a budget that is used up is a fault. -/
def follow (targets : List (Nat × Linked)) : Linked → StateT Nat Option Linked
  | .alias target => do
    match ← get with
    | 0 => failure
    | budget + 1 =>
      set budget
      match targets.lookup target with
      | some n => return n
      | none => failure
  | n => return n

/-- Replaces the aliases of a tree, which may nest `depth` collections. -/
def resolve (targets : List (Nat × Linked)) (depth : Nat) (n : Linked) :
    StateT Nat Option Node := do
  match ← n.follow targets with
  | .alias _ => failure
  | .scalar _ tag text style => return .scalar tag text style
  | .list _ tag items =>
    match depth with
    | 0 => failure
    | depth + 1 => return .list tag (← items.mapM (resolve targets depth))
  | .mapping _ tag entries =>
    match depth with
    | 0 => failure
    | depth + 1 =>
      return .mapping tag (← entries.mapM fun (k, v) => do
        return (← resolve targets depth k, ← resolve targets depth v))

end Linked

/-- Reads the one document of a text. Collections nest at most a hundred and
twenty-eight deep, and aliases are followed at most a hundred times for each
event of the document. -/
def Node.parse? (s : String) : Option Node := do
  match ← Read.document (← tokens? s.toList) with
  | none => some .absent
  | some root =>
    let (n, _) ← (root.resolve (root.anchored []) 128).run (100 * root.events)
    some n

end LayeredCatalog.Yaml
