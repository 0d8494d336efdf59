import LayeredCatalog.CommandLine.FieldPattern.Nesting
import LayeredCatalog.Digest
import LayeredCatalog.Text.Alphanumeric
/-!
# Patterns for the fields of a log filter

A field in a log filter may be compared with a pattern. `check` decides whether a
text can be one. A brace and a comma end a field, so that a pattern has no counted
repetition, and there are no tables about characters, so that the classes of
letters, digits and blanks and the comparison without regard to case are left to
the part of a pattern that the flag `u` is taken off, where a class holds ASCII
characters alone. A pattern that nests deeper than `nestingLimit` is none.

Every reader takes the characters that are left and returns those behind what it
read; one that loops counts down from their number.
-/

namespace LayeredCatalog.FieldPattern

open Text (isSpace isLetter isAlphanumeric)

/-- Why a text is no pattern. -/
inductive Fault where
  /-- The text is malformed, nests too deep, or asks for a table about characters. -/
  | malformed
  /-- The pattern looks for the edges of words in any script. -/
  | wordEdge
deriving DecidableEq

/-- The flags that a part of a pattern is read under. -/
structure Flags where
  ignoreCase : Bool := false
  unicode : Bool := true
  /-- Whether blanks and comments may stand in the pattern. -/
  spaced : Bool := false

namespace Flags

/-- Whether a character may stand for itself. -/
def allowsLiteral (f : Flags) : Bool := !(f.ignoreCase && f.unicode)

/-- Whether a character may stand for itself in a class. -/
def allowsMember (f : Flags) (c : Char) : Bool :=
  if f.unicode then !f.ignoreCase else c.toNat < 0x80

/-- Whether a named class may stand here, or what is not in it. -/
def allowsClass (f : Flags) (negated : Bool) : Bool :=
  if f.unicode then !f.ignoreCase else !negated

/-- Skips blanks and comments, if they may stand here. A comment goes to the end of
its line. -/
def skipSpace (f : Flags) (cs : List Char) : List Char := if f.spaced then go false cs else cs
where
  /-- Skips from within a comment, or from outside of one. -/
  go (comment : Bool) : List Char → List Char
    | [] => []
    | c :: r =>
      if comment then go (c ≠ '\n') r
      else if c = '#' then go true r
      else if isSpace c then go false r
      else c :: r

/-- The first character that is no blank. The sign of a comment is passed over
once. -/
def peek? (f : Flags) (cs : List Char) : Option Char :=
  if f.spaced then (go false cs).or cs.head? else cs.head?
where
  /-- Looks on, with or without a sign of a comment behind it. -/
  go (comment : Bool) : List Char → Option Char
    | [] => none
    | c :: r =>
      if isSpace c then go comment r
      else if c = '#' && !comment then go true r
      else some c

/-- Takes up the letters of flags; those behind a dash are taken off. -/
def update (f : Flags) (on : Bool) : List Char → Flags
  | [] => f
  | '-' :: cs => f.update false cs
  | 'i' :: cs => { f with ignoreCase := on }.update on cs
  | 'u' :: cs => { f with unicode := on }.update on cs
  | 'x' :: cs => { f with spaced := on }.update on cs
  | _ :: cs => f.update on cs

end Flags

/-! ### Escapes -/

/-- What a backslash and what follows it stand for. -/
inductive Escape where
  /-- A character; the flag tells whether it is written as a byte. -/
  | literal (c : Char) (byte : Bool)
  /-- One of the classes of digits, blanks and letters, or what is not in it. -/
  | shorthand (negated : Bool)
  /-- The beginning or the end of the text. -/
  | textEdge
  /-- A place where a word begins or ends, or does not. -/
  | wordEdge

/-- How many hexadecimal digits follow a letter behind a backslash. -/
def hexWidth? : Char → Option Nat
  | 'x' => some 2
  | 'u' => some 4
  | 'U' => some 8
  | _ => none

/-- The control character that a letter behind a backslash stands for. -/
def control? : Char → Option Char
  | 'a' => some '\x07'
  | 't' => some '\t'
  | 'n' => some '\n'
  | 'v' => some '\x0b'
  | 'f' => some '\x0c'
  | 'r' => some '\r'
  | _ => none

def takeHex? (f : Flags) : (width : Nat) → (value : Nat) → List Char → Option (Nat × List Char)
  | 0, value, cs => some (value, cs)
  | width + 1, value, cs =>
    match f.skipSpace cs with
    | c :: r => do
      let d ← Digest.hexValue? c
      takeHex? f width (value * 16 + d.val) r
    | [] => none

def takeEscape? (f : Flags) : List Char → Option (Escape × List Char)
  | [] => none
  | c :: r =>
    match hexWidth? c with
    | some width => do
      let (value, r) ← takeHex? f width 0 r
      if h : value.isValidChar then
        some (.literal (Char.ofNatAux value h) (width = 2), f.skipSpace r)
      else none
    | none =>
      if let some control := control? c then some (.literal control false, r)
      else if c = 'd' || c = 's' || c = 'w' then some (.shorthand false, r)
      else if c = 'D' || c = 'S' || c = 'W' then some (.shorthand true, r)
      else if c = 'A' || c = 'z' then some (.textEdge, r)
      else if c = 'b' || c = 'B' || c = '<' || c = '>' then some (.wordEdge, r)
      else if c.toNat < 0x80 && !c.isAlphanum then some (.literal c false, r)
      else none

/-- Whether an escape may stand outside of a class. -/
def Flags.allowsEscape (f : Flags) : Escape → Bool
  | .literal c byte => f.allowsLiteral && (f.unicode || !byte || c.toNat < 0x80)
  | .shorthand negated => !f.unicode && !negated
  | .textEdge | .wordEdge => true

/-! ### Classes -/

/-- The names of classes in brackets of their own. -/
def classNames : List String :=
  ["alnum", "alpha", "ascii", "blank", "cntrl", "digit", "graph", "lower", "print", "punct",
    "space", "upper", "word", "xdigit"]

/-- Reads a named class behind its bracket; the flag tells whether what is not in it
is meant. -/
def takeNamed? : List Char → Option (Bool × List Char)
  | ':' :: r =>
    let (negated, r) := match r with
      | '^' :: r => (true, r)
      | r => (false, r)
    match r.dropWhile (· ≠ ':') with
    | ':' :: ']' :: rest =>
      if classNames.contains (String.ofList (r.takeWhile (· ≠ ':'))) then some (negated, rest)
      else none
    | _ => none
  | _ => none

/-- Reads a member of a class: a character, or none for a shorthand. -/
def takeMember? (f : Flags) : List Char → Option (Option Char × List Char)
  | '\\' :: r => do
    match ← takeEscape? f r with
    | (.literal c _, r) => if f.allowsMember c then some (some c, r) else none
    | (.shorthand negated, r) => if !f.unicode && !negated then some (none, r) else none
    | _ => none
  | c :: r => if f.allowsMember c then some (some c, r) else none
  | [] => none

/-- Reads a member of a class or a range of members. -/
def takeRange? (f : Flags) (cs : List Char) : Option (List Char) := do
  let (low, r) ← takeMember? f cs
  match f.skipSpace r with
  | [] => none
  | '-' :: r =>
    if f.peek? r = some ']' || f.peek? r = some '-' then some ('-' :: r)
    else
      let (high, r) ← takeMember? f (f.skipSpace r)
      match low, high with
      | some low, some high => if low ≤ high then some r else none
      | _, _ => none
  | r => some r

/-- Reads the beginning of a class behind its bracket: a caret if what is not in
the class is meant, dashes, and a closing bracket if it is the first member. -/
def takeOpening? (f : Flags) (cs : List Char) : Option (Sequence × List Char) :=
  let cs := f.skipSpace cs
  let (negated, cs) := match cs with
    | '^' :: r => (true, f.skipSpace r)
    | cs => (false, cs)
  if negated && !f.unicode then none
  else dashes (cs.length + 1) {} cs
where
  /-- Reads the dashes, and the bracket if nothing is in front of it. -/
  dashes : (fuel : Nat) → Sequence → List Char → Option (Sequence × List Char)
    | 0, _, _ => none
    | fuel + 1, members, cs =>
      match cs with
      | [] => none
      | '-' :: r =>
        if f.allowsMember '-' then dashes fuel (members.push 0) (f.skipSpace r) else none
      | ']' :: r =>
        if members.size = 0 then
          if f.allowsMember ']' && !(f.skipSpace r).isEmpty then
            some (members.push 0, f.skipSpace r)
          else none
        else some (members, cs)
      | cs => some (members, cs)

/-- Reads what stands in a class and in those `around` it, the innermost first, up
to the bracket that closes the outermost one. The number is the depth of that
one. -/
def takeMembers? (f : Flags) :
    (fuel : Nat) → Operands → (around : List Operands) → List Char → Option (Nat × List Char)
  | 0, _, _, _ => none
  | fuel + 1, inner, around, cs =>
    match f.skipSpace cs with
    | [] => none
    | '[' :: r =>
      match takeNamed? r with
      | some (negated, rest) =>
        if f.allowsClass negated then takeMembers? f fuel (inner.push 0) around rest else none
      | none => do
        let (last, r) ← takeOpening? f r
        takeMembers? f fuel { last } (inner :: around) r
    | ']' :: r =>
      match around with
      | [] => some (inner.depth + 1, r)
      | outer :: around => takeMembers? f fuel (outer.push (inner.depth + 1)) around r
    | '&' :: '&' :: r => takeMembers? f fuel inner.operator around r
    | '-' :: '-' :: r => takeMembers? f fuel inner.operator around r
    | '~' :: '~' :: r => takeMembers? f fuel inner.operator around r
    | cs => do takeMembers? f fuel (inner.push 0) around (← takeRange? f cs)

/-- Reads a class behind its bracket, with its depth. -/
def takeClass? (f : Flags) (cs : List Char) : Option (Nat × List Char) := do
  let (last, r) ← takeOpening? f cs
  takeMembers? f (cs.length + 1) { last } [] r

/-! ### Groups and sequences -/

/-- What has been read of a pattern. -/
structure Reading where
  flags : Flags := {}
  /-- The branches of the innermost open group, or those of the pattern. -/
  branches : Branches := {}
  /-- What to return to behind each open group: the flags and the branches around
  it, the innermost first. -/
  groups : List (Flags × Branches) := []
  names : List String := []
  /-- Whether the edges of words in any script are looked for. -/
  wordEdge : Bool := false

namespace Reading

def push (s : Reading) (depth : Nat) : Reading :=
  { s with branches := { s.branches with last := s.branches.last.push depth } }

/-- Takes up flags for the rest of the group. -/
def pushFlags (s : Reading) (flags : Flags) : Reading :=
  { s with flags, branches := { s.branches with last := s.branches.last.pushFixed } }

def repeatLast? (s : Reading) : Option Reading :=
  s.branches.last.repeatLast?.map fun last => { s with branches := { s.branches with last } }

def openGroup (s : Reading) (flags : Flags) : Reading :=
  { s with flags, branches := {}, groups := (s.flags, s.branches) :: s.groups }

def closeGroup? (s : Reading) : Option Reading :=
  match s.groups with
  | (flags, branches) :: groups =>
    some ({ s with flags, branches, groups }.push (s.branches.depth + 1))
  | [] => none

/-- Reads the name of a group and the angle behind it. -/
def takeName? (s : Reading) (cs : List Char) : Option (Reading × List Char) :=
  let name := cs.takeWhile (· ≠ '>')
  match name, cs.dropWhile (· ≠ '>') with
  | c :: r, _ :: rest =>
    if (isLetter c || c = '_') && r.all (fun c => isAlphanumeric c || "_.[]".toList.contains c) &&
        !s.names.contains (String.ofList name) then
      some ({ s with names := String.ofList name :: s.names }.openGroup s.flags, rest)
    else none
  | _, _ => none

/-- Whether letters of flags are in order: each is one of the known ones and stands
once, and the dash does not end them. -/
def areFlags (letters : List Char) : Bool :=
  letters.all "imsUuRx-".toList.contains && letters.Nodup && letters.getLast? ≠ some '-'

/-- Reads what follows the parenthesis that opens a group: a name, flags for the
group, or flags for the rest of the group around it. -/
def takeGroup? (s : Reading) (cs : List Char) : Option (Reading × List Char) :=
  match s.flags.skipSpace cs with
  | '?' :: '=' :: _ | '?' :: '!' :: _ | '?' :: '<' :: '=' :: _ | '?' :: '<' :: '!' :: _ => none
  | '?' :: 'P' :: '<' :: r => s.takeName? r
  | '?' :: '<' :: r => s.takeName? r
  | '?' :: r =>
    let letters := r.takeWhile fun c => c ≠ ':' && c ≠ ')'
    let flags := s.flags.update true letters
    if areFlags letters then
      match r.dropWhile fun c => c ≠ ':' && c ≠ ')' with
      | ':' :: r => some (s.openGroup flags, r)
      | ')' :: r => if letters.isEmpty then none else some (s.pushFlags flags, r)
      | _ => none
    else none
  | r => some (s.openGroup s.flags, r)

/-- Reads the next part of a pattern, which begins with `c`. -/
def take? (s : Reading) (c : Char) (r : List Char) : Option (Reading × List Char) :=
  match c with
  | '(' => s.takeGroup? r
  | ')' => s.closeGroup?.map (·, r)
  | '|' => some ({ s with branches := s.branches.bar }, r)
  | '[' => do
    let (depth, r) ← takeClass? s.flags r
    some (s.push depth, r)
  | '{' => none
  | '\\' => do
    let (e, r) ← takeEscape? s.flags r
    if s.flags.allowsEscape e then
      let wordEdge := s.wordEdge || (s.flags.unicode && match e with
        | .wordEdge => true
        | _ => false)
      some ({ s with wordEdge }.push 0, r)
    else none
  | '.' => if s.flags.unicode then some (s.push 0, r) else none
  | _ =>
    if c = '?' || c = '*' || c = '+' then
      s.repeatLast?.map (·, if r.head? = some '?' then r.tail else r)
    else if c = '^' || c = '$' || s.flags.allowsLiteral then some (s.push 0, r)
    else none

/-- Reads a pattern to its end. -/
def run? : (fuel : Nat) → Reading → List Char → Option Reading
  | 0, _, _ => none
  | fuel + 1, s, cs =>
    match s.flags.skipSpace cs with
    | [] => if s.groups.isEmpty && s.branches.depth ≤ nestingLimit then some s else none
    | c :: r => do
      let (s, r) ← s.take? c r
      run? fuel s r

end Reading

/-! ### Values -/

/-- Whether the text behind a plus sign is a number, which is compared as one and
not as a pattern. -/
def isNumber (cs : List Char) : Bool :=
  let whole := cs.takeWhile Char.isDigit
  let (fraction, rest) := match cs.dropWhile Char.isDigit with
    | '.' :: r => (r.takeWhile Char.isDigit, r.dropWhile Char.isDigit)
    | r => ([], r)
  let exponent := match rest with
    | [] => true
    | e :: r =>
      let digits := match r with
        | '-' :: r => r
        | '+' :: r => r
        | r => r
      (e = 'e' || e = 'E') && !digits.isEmpty && digits.all Char.isDigit
  ["inf", "infinity", "nan"].contains (String.ofList (cs.map Char.toLower)) ||
    (!(whole ++ fraction).isEmpty && exponent)

/-- Checks a text that a field is compared with. -/
def check (cs : List Char) : Except Fault Unit :=
  if cs.head? = some '+' && isNumber cs.tail then .ok ()
  else match Reading.run? (cs.length + 1) {} cs with
    | none => .error .malformed
    | some s => if s.wordEdge then .error .wordEdge else .ok ()

end LayeredCatalog.FieldPattern
