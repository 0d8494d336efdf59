import LayeredCatalog.Digest
import LayeredCatalog.Yaml.Character
/-!
# Scalars in YAML text

A scalar is written plainly, between quotes, or as a block of lines. A plain or
quoted scalar is a row of runs with gaps between them. A gap within a line is kept
as it is; a gap that breaks lines is folded (`Gap.fold`): one break becomes a
space, and of several breaks all but the first are kept.

A block keeps its lines (`|`) or folds them (`>`), and its header says what
becomes of the breaks at its end.

Every reader takes a place and the characters from there on, and returns what it
read with the place behind it. A reader that loops over runs or lines counts down
from the number of characters, which is more than it can need.
-/

namespace LayeredCatalog.Yaml

/-- Blanks and line breaks between two runs. -/
structure Gap where
  blanks : List Char := []
  /-- The breaks, as they are read. -/
  breaks : List Char := []
  escaped : Bool := false

namespace Gap

def breaksLine (g : Gap) : Bool := g.escaped || !g.breaks.isEmpty

/-- What a gap stands for. -/
def fold (g : Gap) : List Char :=
  if g.escaped then g.breaks
  else match g.breaks with
    | [] => g.blanks
    | ['\n'] => [' ']
    | '\n' :: breaks => breaks
    | breaks => breaks

end Gap

/-- Reads a gap. On a new line no tab may stand left of column `indent`. -/
def takeGap? (indent : Nat) (g : Gap) (m : Mark) : List Char → Option (Gap × Mark × List Char)
  | [] => some (g, m, [])
  | '\r' :: '\n' :: r =>
    takeGap? indent { g with blanks := [], breaks := g.breaks ++ ['\n'] } (m.breakLine 2) r
  | c :: r =>
    if isBreak c then
      let read := if c = '\u2028' ∨ c = '\u2029' then c else '\n'
      takeGap? indent { g with blanks := [], breaks := g.breaks ++ [read] }
        (m.breakLine c.utf8Size) r
    else if isBlank c then
      if g.breaksLine then
        if c = '\t' ∧ m.column < indent then none else takeGap? indent g (m.step c) r
      else takeGap? indent { g with blanks := g.blanks ++ [c] } (m.step c) r
    else some (g, m, c :: r)

/-! ### Plain scalars -/

def isFlowIndicator (c : Char) : Bool :=
  c = ',' || c = '[' || c = ']' || c = '\x7b' || c = '\x7d'

/-- Reads a run of a plain scalar. A colon before a gap ends it, and inside a flow
collection so does an indicator; a colon before an indicator is a fault there. -/
def takePlainRun? (inFlow : Bool) (m : Mark) : List Char → Option (List Char × Mark × List Char)
  | [] => some ([], m, [])
  | c :: r =>
    if isBlank c || isBreak c then some ([], m, c :: r)
    else if inFlow && c = ':' && (match r with
        | d :: _ => isFlowIndicator d || d = '?'
        | [] => false) then none
    else if (c = ':' && atGap r) || (inFlow && isFlowIndicator c) then some ([], m, c :: r)
    else (takePlainRun? inFlow (m.step c) r).map fun (run, rest) => (c :: run, rest)

/-- A scalar that was read, with the place behind it. -/
structure Plain where
  text : List Char
  /-- Whether a line break stands between the scalar and the place behind it. -/
  brokeLine : Bool
  mark : Mark
  rest : List Char

/-- Reads the runs of a plain scalar behind the gap `g`. In block context it ends
where a line begins left of column `indent`. -/
def plainRuns? (inFlow : Bool) (indent : Nat) : (fuel : Nat) → (text : List Char) → Gap →
    Mark → List Char → Option Plain
  | 0, _, _, _, _ => none
  | fuel + 1, text, g, m, cs =>
    if (m.column = 0 && atDocumentMarker cs) || cs.head? = some '#' then
      some ⟨text, g.breaksLine, m, cs⟩
    else do
      let (run, m, cs) ← takePlainRun? inFlow m cs
      if run.isEmpty then some ⟨text, g.breaksLine, m, cs⟩
      else
        let text := text ++ g.fold ++ run
        if cs.isEmpty || !atGap cs then some ⟨text, false, m, cs⟩
        else
          let (g, m, cs) ← takeGap? indent {} m cs
          if !inFlow && m.column < indent then some ⟨text, g.breaksLine, m, cs⟩
          else plainRuns? inFlow indent fuel text g m cs

def takePlain? (inFlow : Bool) (indent : Nat) (m : Mark) (cs : List Char) : Option Plain :=
  plainRuns? inFlow indent (cs.length + 1) [] {} m cs

/-! ### Quoted scalars -/

/-- Reads a run between single quotes, up to a gap or the closing quote. A quote
inside is written twice. -/
def takeSingleRun (m : Mark) : List Char → List Char × Mark × List Char
  | [] => ([], m, [])
  | '\'' :: '\'' :: r =>
    let (run, rest) := takeSingleRun (m.steps ['\'', '\'']) r
    ('\'' :: run, rest)
  | c :: r =>
    if c = '\'' || isBlank c || isBreak c then ([], m, c :: r)
    else
      let (run, rest) := takeSingleRun (m.step c) r
      (c :: run, rest)

/-- The character that a letter behind a backslash stands for. -/
def escape? : Char → Option Char
  | '0' => some '\x00'
  | 'a' => some '\x07'
  | 'b' => some '\x08'
  | 't' => some '\t'
  | '\t' => some '\t'
  | 'n' => some '\n'
  | 'v' => some '\x0b'
  | 'f' => some '\x0c'
  | 'r' => some '\r'
  | 'e' => some '\x1b'
  | ' ' => some ' '
  | '"' => some '"'
  | '/' => some '/'
  | '\\' => some '\\'
  | 'N' => some '\u0085'
  | '_' => some '\u00a0'
  | 'L' => some '\u2028'
  | 'P' => some '\u2029'
  | _ => none

/-- How many hexadecimal digits follow a letter behind a backslash. -/
def escapeWidth? : Char → Option Nat
  | 'x' => some 2
  | 'u' => some 4
  | 'U' => some 8
  | _ => none

/-- The character whose code point a list of hexadecimal digits writes. -/
def hexChar? (digits : List Char) : Option Char := do
  let digits ← digits.mapM Digest.hexValue?
  let n := digits.foldl (fun n d => n * 16 + d.val) 0
  if h : n.isValidChar then some (Char.ofNatAux n h) else none

/-- Reads a run between double quotes, up to a gap, the closing quote or an
escaped line break; the flag tells whether it was the last. -/
def takeDoubleRun? : (fuel : Nat) → Mark → List Char →
    Option (List Char × Bool × Mark × List Char)
  | 0, _, _ => none
  | _ + 1, m, [] => some ([], false, m, [])
  | fuel + 1, m, '\\' :: r =>
    match takeBreak? (m.step '\\') r with
    | some (_, m, r) => some ([], true, m, r)
    | none =>
      match r with
      | [] => none
      | e :: r =>
        match escape? e with
        | some c => do
          let (run, rest) ← takeDoubleRun? fuel (m.steps ['\\', e]) r
          some (c :: run, rest)
        | none => do
          let width ← escapeWidth? e
          let digits := r.take width
          if digits.length = width then
            let c ← hexChar? digits
            let (run, rest) ← takeDoubleRun? fuel (m.steps ('\\' :: e :: digits)) (r.drop width)
            some (c :: run, rest)
          else none
  | fuel + 1, m, c :: r =>
    if c = '"' || isBlank c || isBreak c then some ([], false, m, c :: r)
    else do
      let (run, rest) ← takeDoubleRun? fuel (m.step c) r
      some (c :: run, rest)

/-- Reads the runs of a quoted scalar up to its closing quote. -/
def quotedRuns? (double : Bool) : (fuel : Nat) → (text : List Char) → Mark → List Char →
    Option (List Char × Mark × List Char)
  | 0, _, _, _ => none
  | fuel + 1, text, m, cs =>
    if cs.isEmpty || (m.column = 0 && atDocumentMarker cs) then none
    else do
      let (run, escaped, m, cs) ←
        if double then takeDoubleRun? (cs.length + 1) m cs
        else
          let (run, rest) := takeSingleRun m cs
          some (run, false, rest)
      match cs with
      | [] => none
      | c :: r =>
        if c = (if double then '"' else '\'') then some (text ++ run, m.step c, r)
        else
          let (g, m, cs) ← takeGap? 0 { escaped } m cs
          quotedRuns? double fuel (text ++ run ++ g.fold) m cs

/-- Reads a quoted scalar from behind its opening quote. -/
def takeQuoted? (double : Bool) (m : Mark) (cs : List Char) :
    Option (List Char × Mark × List Char) :=
  quotedRuns? double (cs.length + 1) [] m cs

/-! ### Block scalars -/

/-- What becomes of the line breaks at the end of a block. -/
inductive Chomping where
  /-- All of them go. -/
  | strip
  /-- The first one stays. -/
  | clip
  /-- All of them stay. -/
  | keep
deriving DecidableEq

def chomping? : Char → Option Chomping
  | '+' => some .keep
  | '-' => some .strip
  | _ => none

/-- Reads an indentation digit, which is not zero. -/
def indentDigit? (c : Char) : Option Nat :=
  if '1' ≤ c ∧ c ≤ '9' then some (c.toNat - 48) else none

/-- Reads the header of a block behind its indicator: a chomping sign and an
indentation digit in either order, and nothing else but a comment. -/
def takeBlockHeader? (m : Mark) (cs : List Char) :
    Option (Chomping × Option Nat × Mark × List Char) := do
  let (chomping, digit, m, cs) ← match cs with
    | [] => some (Chomping.clip, none, m, [])
    | a :: r =>
      match chomping? a with
      | some chomping =>
        match r with
        | d :: r' =>
          if d.isDigit then (indentDigit? d).map fun n => (chomping, some n, m.steps [a, d], r')
          else some (chomping, none, m.step a, r)
        | [] => some (chomping, none, m.step a, [])
      | none =>
        if a.isDigit then do
          let n ← indentDigit? a
          match r with
          | s :: r' =>
            match chomping? s with
            | some chomping => some (chomping, some n, m.steps [a, s], r')
            | none => some (.clip, some n, m.step a, r)
          | [] => some (.clip, some n, m.step a, [])
        else some (.clip, none, m, cs)
  let (m, cs) := skipBlanks m cs
  let (m, cs) := if cs.head? = some '#' then skipLine m cs else (m, cs)
  if atLineEnd cs then
    match takeBreak? m cs with
    | some (_, m, cs) => some (chomping, digit, m, cs)
    | none => some (chomping, digit, m, cs)
  else none

/-- Reads the line breaks and the indentation before the next line of a block.
While the indentation is not known (`none`), every space belongs to it, and the
widest column seen is returned; no tab may stand in it. -/
def takeBlockBreaks? (indent : Option Nat) (widest : Nat) (m : Mark) :
    List Char → Option (List Char × Nat × Mark × List Char)
  | [] => some ([], max widest m.column, m, [])
  | '\r' :: '\n' :: r => do
    let (breaks, rest) ← takeBlockBreaks? indent (max widest m.column) (m.breakLine 2) r
    some ('\n' :: breaks, rest)
  | c :: r =>
    if isBreak c then do
      let read := if c = '\u2028' ∨ c = '\u2029' then c else '\n'
      let (breaks, rest) ←
        takeBlockBreaks? indent (max widest m.column) (m.breakLine c.utf8Size) r
      some (read :: breaks, rest)
    else
      let inside := match indent with
        | none => true
        | some n => decide (m.column < n)
      if inside && c = '\t' then none
      else if inside && c = ' ' then takeBlockBreaks? indent widest (m.step c) r
      else some ([], max widest m.column, m, c :: r)

/-- The text of the lines of a block that is being read: the lines so far, the
break that ended the last of them and whether it began with a blank, and the
breaks of empty lines behind it. -/
structure BlockText where
  text : List Char := []
  lastBreak : Option Char := none
  blankBefore : Bool := false
  emptyLines : List Char := []

/-- Puts what stands between the last line and the next one behind the text. -/
def BlockText.join (b : BlockText) (folded blankNext : Bool) : List Char :=
  if folded && b.lastBreak = some '\n' && !b.blankBefore && !blankNext then
    b.text ++ (if b.emptyLines.isEmpty then [' '] else b.emptyLines)
  else b.text ++ b.lastBreak.toList ++ b.emptyLines

/-- Reads the lines of a block that begin at column `indent`. -/
def blockLines? (folded : Bool) (indent : Nat) : (fuel : Nat) → BlockText → Mark →
    List Char → Option (BlockText × Mark × List Char)
  | 0, _, _, _ => none
  | fuel + 1, b, m, cs =>
    match cs with
    | [] => some (b, m, cs)
    | c :: _ =>
      if m.column ≠ indent then some (b, m, cs)
      else do
        let blank := isBlank c
        let text := b.join folded blank
        let (line, m, cs) := takeChars (!isBreak ·) m cs
        let (lastBreak, m, cs) := match takeBreak? m cs with
          | some (c, m, cs) => (some c, m, cs)
          | none => (none, m, cs)
        let (emptyLines, _, m, cs) ← takeBlockBreaks? (some indent) 0 m cs
        blockLines? folded indent fuel
          { text := text ++ line, lastBreak, blankBefore := blank, emptyLines } m cs

/-- Reads a block from behind its indicator. The block stands in a collection at
column `parent`, which is minus one outside of all collections. -/
def takeBlock? (folded : Bool) (parent : Int) (m : Mark) (cs : List Char) :
    Option (List Char × Mark × List Char) := do
  let (chomping, digit, m, cs) ← takeBlockHeader? m cs
  let known := digit.map fun n => if 0 ≤ parent then parent.toNat + n else n
  let (emptyLines, widest, m, cs) ← takeBlockBreaks? known 0 m cs
  let indent := known.getD (max widest (max (parent + 1).toNat 1))
  let (b, m, cs) ← blockLines? folded indent (cs.length + 1) { emptyLines } m cs
  let text := match chomping with
    | .strip => b.text
    | .clip => b.text ++ b.lastBreak.toList
    | .keep => b.text ++ b.lastBreak.toList ++ b.emptyLines
  some (text, m, cs)

end LayeredCatalog.Yaml
