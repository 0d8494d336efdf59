import LayeredCatalog.Yaml.Scalar
import LayeredCatalog.Yaml.Tag
/-!
# Tokens of YAML text

`tokens?` cuts a text into tokens. Two kinds of token stand for nothing that is
written: in block context, indentation opens and closes collections, and a key
that no indicator announces is recognised only when its colon comes. So whatever
could be such a key is remembered (`SimpleKey`) until it turns out to be one or
the line ends, and its tokens are put where it began.
-/

namespace LayeredCatalog.Yaml

/-- How a scalar is written. -/
inductive Style where
  | plain
  | quoted
  | literal
  | folded
deriving DecidableEq, Repr

/-- A token. -/
inductive Token where
  /-- A `%YAML` line with a major and a minor version. -/
  | version (major minor : Nat)
  /-- A `%TAG` line with a handle and the bytes that it stands for. -/
  | handle (handle : String) (stands : List UInt8)
  | documentStart
  | documentEnd
  | blockSequence
  | blockMapping
  | blockEnd
  | flowSequence
  | flowSequenceEnd
  | flowMapping
  | flowMappingEnd
  /-- The dash before an item of a block sequence. -/
  | item
  | comma
  | key
  | value
  | alias (anchor : String)
  | anchor (anchor : String)
  /-- A tag, as its handle and the bytes of the rest. -/
  | tag (handle : String) (rest : List UInt8)
  | scalar (text : String) (style : Style)
deriving DecidableEq

/-- The place of something that a colon would make a key. -/
structure SimpleKey where
  /-- Whether nothing else than a key may stand there. -/
  required : Bool
  /-- How many tokens stand before it. -/
  position : Nat
  mark : Mark

/-- A scan in progress. -/
structure Scan where
  mark : Mark
  rest : List Char
  /-- The tokens so far, the last one first. -/
  tokens : List Token := []
  /-- The column of the innermost block collection, minus one outside of all. -/
  indent : Int := -1
  /-- The columns of the block collections around it. -/
  outer : List Int := []
  keyAllowed : Bool := true
  /-- What could be a key at the current nesting. -/
  key : Option SimpleKey := none
  /-- What could be a key at the nestings around the current flow collection, one
  entry a nesting. -/
  outerKeys : List (Option SimpleKey) := []

namespace Scan

def inFlow (s : Scan) : Bool := !s.outerKeys.isEmpty

def push (s : Scan) (t : Token) : Scan := { s with tokens := t :: s.tokens }

def putAt (s : Scan) (position : Nat) (t : Token) : Scan :=
  let later := s.tokens.length - position
  { s with tokens := s.tokens.take later ++ t :: s.tokens.drop later }

def moveTo (s : Scan) (mark : Mark) (rest : List Char) : Scan := { s with mark, rest }

def skip (s : Scan) (n : Nat) : Scan :=
  { s with mark := s.mark.steps (s.rest.take n), rest := s.rest.drop n }

/-- Gives up what could be a key at the current nesting. -/
def dropKey? (s : Scan) : Option Scan :=
  match s.key with
  | some { required := true, .. } => none
  | _ => some { s with key := none }

/-- Whether a key that began here would have to end before `m`: a key stands in one
line and takes at most 1024 bytes. -/
def SimpleKey.isStale (k : SimpleKey) (m : Mark) : Bool :=
  k.mark.line < m.line || k.mark.offset + 1024 < m.offset

/-- Gives up a possible key that has become too long. -/
def refresh? (m : Mark) : Option SimpleKey → Option (Option SimpleKey)
  | none => some none
  | some k =>
    if SimpleKey.isStale k m then if k.required then none else some none
    else some (some k)

/-- Gives up the possible keys that have become too long. -/
def refreshKeys? (s : Scan) : Option Scan := do
  let key ← refresh? s.mark s.key
  let outerKeys ← s.outerKeys.mapM (refresh? s.mark)
  some { s with key, outerKeys }

def saveKey? (s : Scan) : Option Scan :=
  if s.keyAllowed then do
    let s ← s.dropKey?
    let required := !s.inFlow && s.indent = s.mark.column
    some { s with key := some ⟨required, s.tokens.length, s.mark⟩ }
  else some s

/-- Closes the block collections that lie right of a column. -/
def closeBlocks (column : Int) : Scan → List Int → Scan
  | s, [] => s
  | s, o :: outer =>
    if column < s.indent then closeBlocks column { s.push .blockEnd with indent := o, outer } outer
    else s

/-- Closes the block collections that lie right of a column, in block context. -/
def unroll (s : Scan) (column : Int) : Scan :=
  if s.inFlow then s else closeBlocks column s s.outer

/-- Opens a block collection at a column, unless one is open there already; its
token is put at `position`. -/
def roll (s : Scan) (column : Nat) (position : Nat) (t : Token) : Scan :=
  if !s.inFlow && s.indent < column then
    { s.putAt position t with indent := column, outer := s.indent :: s.outer }
  else s

/-- Goes to the next token: skips blanks, comments and line breaks. A tab counts
as a blank where no key may begin, and a byte order mark may begin a line. -/
def toNext : (fuel : Nat) → Scan → Scan
  | 0, s => s
  | fuel + 1, s =>
    let s := match s.rest with
      | '\ufeff' :: r => if s.mark.column = 0 then s.moveTo (s.mark.step '\ufeff') r else s
      | _ => s
    match s.rest with
    | c :: r =>
      if c = ' ' || (c = '\t' && (s.inFlow || !s.keyAllowed)) then
        toNext fuel (s.moveTo (s.mark.step c) r)
      else
        let s := if c = '#' then
            let (m, r) := skipLine s.mark (c :: r)
            s.moveTo m r
          else s
        match takeBreak? s.mark s.rest with
        | some (_, m, r) =>
          let s := s.moveTo m r
          toNext fuel (if s.inFlow then s else { s with keyAllowed := true })
        | none => s
    | [] => s

/-! ### Directives, anchors and tags -/

/-- One to nine digits, as a number. -/
def takeVersionPart? (m : Mark) (cs : List Char) : Option (Nat × Mark × List Char) :=
  let (ds, m, cs) := takeChars Char.isDigit m cs
  if ds.isEmpty || 9 < ds.length then none
  else some (ds.foldl (fun n d => n * 10 + (d.toNat - 48)) 0, m, cs)

/-- The byte that a percent sign and two hexadecimal digits write. -/
def percentByte? : List Char → Option (UInt8 × List Char)
  | '%' :: a :: b :: r => do
    let a ← Digest.hexValue? a
    let b ← Digest.hexValue? b
    some (UInt8.ofNat (a.val * 16 + b.val), r)
  | _ => none

/-- How many bytes a character takes that begins with this byte. -/
def utf8Width (b : UInt8) : Nat :=
  if b < 0x80 then 1 else if b < 0xc0 then 0 else if b < 0xe0 then 2 else if b < 0xf0 then 3
  else if b < 0xf8 then 4 else 0

/-- Reads `n` bytes that continue a character, written with percent signs. -/
def percentTail? : (n : Nat) → List Char → Option (List UInt8 × List Char)
  | 0, cs => some ([], cs)
  | n + 1, cs => do
    let (b, cs) ← percentByte? cs
    if b < 0x80 || 0xc0 ≤ b then none
    else
      let (bs, cs) ← percentTail? n cs
      some (b :: bs, cs)

/-- Reads the bytes of a character that is written with percent signs. Only their
outline is checked. -/
def percentChar? (cs : List Char) : Option (List UInt8 × List Char) := do
  let (b, cs) ← percentByte? cs
  if utf8Width b = 0 then none
  else
    let (bs, cs) ← percentTail? (utf8Width b - 1) cs
    some (b :: bs, cs)

/-- Whether a character may stand in a tag as it is. -/
def isTagChar (verbatim : Bool) (c : Char) : Bool :=
  isWordChar c || ";/?:@&=+$.!~*'()".toList.contains c || (verbatim && (c = ',' || c = '[' || c = ']'))

def takeTagBytes? (verbatim : Bool) : (fuel : Nat) → Mark → List Char →
    Option (List UInt8 × Mark × List Char)
  | 0, _, _ => none
  | _ + 1, m, [] => some ([], m, [])
  | fuel + 1, m, c :: r =>
    if c = '%' then do
      let (bytes, r') ← percentChar? (c :: r)
      let written := (c :: r).take ((c :: r).length - r'.length)
      let (more, rest) ← takeTagBytes? verbatim fuel (m.steps written) r'
      some (bytes ++ more, rest)
    else if isTagChar verbatim c then do
      let (more, rest) ← takeTagBytes? verbatim fuel (m.step c) r
      some (c.toUInt8 :: more, rest)
    else some ([], m, c :: r)

def takeTag? (m : Mark) (cs : List Char) : Option (Token × Mark × List Char) :=
  match cs with
  | '<' :: r => do
    let (bytes, m, cs) ← takeTagBytes? true (r.length + 1) (m.step '<') r
    match bytes, cs with
    | [], _ => none
    | bytes, '>' :: r => some (.tag "" bytes, m.step '>', r)
    | _, _ => none
  | cs => do
    let (word, m', r) := takeChars isWordChar m cs
    match r with
    | '!' :: r => do
      let (bytes, m, cs) ← takeTagBytes? false (r.length + 1) (m'.step '!') r
      if bytes.isEmpty then none
      else some (.tag (String.ofList ('!' :: word ++ ['!'])) bytes, m, cs)
    | _ => do
      let (bytes, m, cs) ← takeTagBytes? false (cs.length + 1) m cs
      if (Tag.upToZero bytes).isEmpty then some (.tag "" (Tag.bytesOf "!"), m, cs)
      else some (.tag "!" bytes, m, cs)

/-- Reads the handle that a `%TAG` line is about. -/
def takeHandle? (m : Mark) : List Char → Option (String × Mark × List Char)
  | '!' :: r =>
    let (word, m, r) := takeChars isWordChar (m.step '!') r
    match r with
    | '!' :: r => some (String.ofList ('!' :: word ++ ['!']), m.step '!', r)
    | r => if word.isEmpty then some ("!", m, r) else none
  | _ => none

def takeDirectiveBody? (name : String) (m : Mark) (cs : List Char) :
    Option (Token × Mark × List Char) := do
  let (m, cs) := skipBlanks m cs
  if name = "YAML" then
    let (major, m, cs) ← takeVersionPart? m cs
    match cs with
    | '.' :: cs =>
      let (minor, m, cs) ← takeVersionPart? (m.step '.') cs
      some (.version major minor, m, cs)
    | _ => none
  else if name = "TAG" then
    let (handle, m, cs) ← takeHandle? m cs
    if (cs.head?.map isBlank).getD false then
      let (m, cs) := skipBlanks m cs
      let (stands, m, cs) ← takeTagBytes? true (cs.length + 1) m cs
      if stands.isEmpty || !atGap cs then none
      else some (.handle handle stands, m, cs)
    else none
  else none

/-- Reads a directive behind its percent sign, to the end of its line. -/
def takeDirective? (m : Mark) (cs : List Char) : Option (Token × Mark × List Char) := do
  let (name, m, cs) := takeChars isWordChar m cs
  if name.isEmpty || !atGap cs then none
  else
    let (t, m, cs) ← takeDirectiveBody? (String.ofList name) m cs
    let (m, cs) := skipBlanks m cs
    let (m, cs) := if cs.head? = some '#' then skipLine m cs else (m, cs)
    match takeBreak? m cs with
    | some (_, m, cs) => some (t, m, cs)
    | none => if cs.isEmpty then some (t, m, cs) else none

/-- Reads the name of an anchor behind its indicator. -/
def takeAnchor? (m : Mark) (cs : List Char) : Option (String × Mark × List Char) :=
  let (name, m, cs) := takeChars isWordChar m cs
  if !name.isEmpty && (atGap cs || (cs.head?.map "?:,]\x7d%@`".toList.contains).getD false) then
    some (String.ofList name, m, cs)
  else none

/-! ### One token -/

def documentMarker? (s : Scan) (t : Token) : Option Scan := do
  let s ← (s.unroll (-1)).dropKey?
  some ({ s with keyAllowed := false }.push t |>.skip 3)

def openFlow? (s : Scan) (t : Token) : Option Scan := do
  let s ← s.saveKey?
  some ({ s with outerKeys := s.key :: s.outerKeys, key := none, keyAllowed := true }.push t
    |>.skip 1)

def closeFlow? (s : Scan) (t : Token) : Option Scan := do
  let s ← s.dropKey?
  let s := match s.outerKeys with
    | key :: outerKeys => { s with key, outerKeys }
    | [] => s
  some ({ s with keyAllowed := false }.push t |>.skip 1)

def item? (s : Scan) : Option Scan := do
  let s ←
    if s.inFlow then some s
    else if s.keyAllowed then some (s.roll s.mark.column s.tokens.length .blockSequence)
    else none
  let s ← s.dropKey?
  some ({ s with keyAllowed := true }.push .item |>.skip 1)

def keyMark? (s : Scan) : Option Scan := do
  let s ←
    if s.inFlow then some s
    else if s.keyAllowed then some (s.roll s.mark.column s.tokens.length .blockMapping)
    else none
  let s ← s.dropKey?
  some ({ s with keyAllowed := !s.inFlow }.push .key |>.skip 1)

/-- The colon before a value. It makes a key of what could be one. -/
def valueMark? (s : Scan) : Option Scan := do
  let s ← match s.key with
    | some k =>
      let s := (s.putAt k.position .key).roll k.mark.column k.position .blockMapping
      some { s with key := none, keyAllowed := false }
    | none =>
      if s.inFlow then some { s with keyAllowed := false }
      else if s.keyAllowed then
        some { s.roll s.mark.column s.tokens.length .blockMapping with keyAllowed := true }
      else none
  some (s.push .value |>.skip 1)

/-- A token that may begin a key, read by `take?` from behind an indicator. -/
def keyed? (s : Scan) (take? : Mark → List Char → Option (Token × Mark × List Char)) :
    Option Scan := do
  let s := (← s.saveKey?).skip 1
  let (t, m, r) ← take? s.mark s.rest
  some ({ s with keyAllowed := false }.push t |>.moveTo m r)

def block? (s : Scan) (folded : Bool) : Option Scan := do
  let s := (← s.dropKey?).skip 1
  let (text, m, r) ← takeBlock? folded s.indent s.mark s.rest
  some ({ s with keyAllowed := true }.push
    (.scalar (String.ofList text) (if folded then .folded else .literal)) |>.moveTo m r)

def plain? (s : Scan) : Option Scan := do
  let s ← s.saveKey?
  let p ← takePlain? s.inFlow (s.indent + 1).toNat s.mark s.rest
  some ({ s with keyAllowed := p.brokeLine }.push (.scalar (String.ofList p.text) .plain)
    |>.moveTo p.mark p.rest)

/-- Whether a plain scalar may begin with these characters. -/
def beginsPlain (inFlow : Bool) : List Char → Bool
  | [] => false
  | c :: r =>
    if isBlank c || isBreak c then false
    else if c = '-' then !(r.head?.map isBlank).getD false
    else if c = '?' || c = ':' then !inFlow && !atGap r
    else !(",[]\x7b\x7d#&*!|>'\"%@`".toList.contains c)

def token? (s : Scan) (c : Char) (r : List Char) : Option Scan :=
  if s.mark.column = 0 && c = '%' then do
    let s ← (s.unroll (-1)).dropKey?
    let (t, m, r) ← takeDirective? (s.mark.step '%') r
    some ({ s with keyAllowed := false }.push t |>.moveTo m r)
  else if s.mark.column = 0 && atMarker '-' s.rest then s.documentMarker? .documentStart
  else if s.mark.column = 0 && atMarker '.' s.rest then s.documentMarker? .documentEnd
  else match c with
  | '[' => s.openFlow? .flowSequence
  | '\x7b' => s.openFlow? .flowMapping
  | ']' => s.closeFlow? .flowSequenceEnd
  | '\x7d' => s.closeFlow? .flowMappingEnd
  | ',' => do
    let s ← s.dropKey?
    some ({ s with keyAllowed := true }.push .comma |>.skip 1)
  | '*' => s.keyed? fun m r => (takeAnchor? m r).map fun (name, rest) => (.alias name, rest)
  | '&' => s.keyed? fun m r => (takeAnchor? m r).map fun (name, rest) => (.anchor name, rest)
  | '!' => s.keyed? fun m r => do
    let (t, m, r) ← takeTag? m r
    if atGap r || (s.inFlow && r.head? = some ',') then some (t, m, r) else none
  | '\'' => s.keyed? fun m r => (takeQuoted? false m r).map fun (text, rest) =>
      (.scalar (String.ofList text) .quoted, rest)
  | '"' => s.keyed? fun m r => (takeQuoted? true m r).map fun (text, rest) =>
      (.scalar (String.ofList text) .quoted, rest)
  | _ =>
    if c = '-' && atGap r then s.item?
    else if c = '?' && (s.inFlow || atGap r) then s.keyMark?
    else if c = ':' && (s.inFlow || atGap r) then s.valueMark?
    else if c = '|' && !s.inFlow then s.block? false
    else if c = '>' && !s.inFlow then s.block? true
    else if beginsPlain s.inFlow s.rest then s.plain?
    else none

/-- Reads tokens to the end of the text. -/
def run? : (fuel : Nat) → Scan → Option (List Token)
  | 0, _ => none
  | fuel + 1, s => do
    let s ← (s.toNext (s.rest.length + 1)).refreshKeys?
    let s := s.unroll s.mark.column
    match s.rest with
    | [] =>
      let s ← (s.unroll (-1)).dropKey?
      some s.tokens.reverse
    | c :: r => run? fuel (← s.token? c r)

end Scan

def tokens? (cs : List Char) : Option (List Token) :=
  if cs.all isAllowed then Scan.run? (cs.length + 1) { mark := {}, rest := cs } else none

end LayeredCatalog.Yaml
