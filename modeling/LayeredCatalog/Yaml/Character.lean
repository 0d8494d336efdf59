/-!
# Characters and places in YAML text

Which characters may stand in a YAML text, which of them break a line, and where
in the text a reader stands.
-/

namespace LayeredCatalog.Yaml

/-- Whether a character may stand in a text at all. -/
def isAllowed (c : Char) : Bool :=
  c = '\t' || c = '\n' || c = '\r' || (0x20 ≤ c.toNat && c.toNat ≤ 0x7e) || c.toNat = 0x85 ||
    (0xa0 ≤ c.toNat && c.toNat ≤ 0xfffd) || 0x10000 ≤ c.toNat

def isBreak (c : Char) : Bool :=
  c = '\n' || c = '\r' || c = '\u0085' || c = '\u2028' || c = '\u2029'

/-- Whether a character is a space or a tab. -/
def isBlank (c : Char) : Bool := c = ' ' || c = '\t'

/-- Whether a character may stand in an anchor or a tag handle. -/
def isWordChar (c : Char) : Bool := c.isAlphanum || c = '_' || c = '-'

def atLineEnd : List Char → Bool
  | [] => true
  | c :: _ => isBreak c

/-- Whether a blank or the end of the line or of the text is here. -/
def atGap : List Char → Bool
  | [] => true
  | c :: _ => isBlank c || isBreak c

/-- Whether a document marker, three times `c`, is here. -/
def atMarker (c : Char) : List Char → Bool
  | a :: b :: d :: r => a = c && b = c && d = c && atGap r
  | _ => false

def atDocumentMarker (cs : List Char) : Bool := atMarker '-' cs || atMarker '.' cs

/-- A place in a text. -/
structure Mark where
  /-- How many bytes stand before it. -/
  offset : Nat := 0
  line : Nat := 0
  /-- How many characters stand before it in its line. -/
  column : Nat := 0

namespace Mark

/-- The place behind a character that breaks no line. -/
def step (m : Mark) (c : Char) : Mark :=
  { m with offset := m.offset + c.utf8Size, column := m.column + 1 }

/-- The place behind characters that break no line. -/
def steps (m : Mark) (cs : List Char) : Mark := cs.foldl step m

/-- The place behind a line break of `width` bytes. -/
def breakLine (m : Mark) (width : Nat) : Mark :=
  { offset := m.offset + width, line := m.line + 1, column := 0 }

end Mark

/-- Reads a line break. A carriage return with a line feed is one break; breaks
other than the line and paragraph separators read as line feeds. -/
def takeBreak? (m : Mark) : List Char → Option (Char × Mark × List Char)
  | '\r' :: '\n' :: r => some ('\n', m.breakLine 2, r)
  | c :: r =>
    if c = '\u2028' ∨ c = '\u2029' then some (c, m.breakLine c.utf8Size, r)
    else if isBreak c then some ('\n', m.breakLine c.utf8Size, r)
    else none
  | [] => none

def skipBlanks (m : Mark) : List Char → Mark × List Char
  | c :: r => if isBlank c then skipBlanks (m.step c) r else (m, c :: r)
  | [] => (m, [])

def skipLine (m : Mark) : List Char → Mark × List Char
  | c :: r => if isBreak c then (m, c :: r) else skipLine (m.step c) r
  | [] => (m, [])

/-- Reads characters as long as they satisfy `p`; none of them may break a
line. -/
def takeChars (p : Char → Bool) (m : Mark) (cs : List Char) : List Char × Mark × List Char :=
  let taken := cs.takeWhile p
  (taken, m.steps taken, cs.dropWhile p)

end LayeredCatalog.Yaml
