import LayeredCatalog.Json
import LayeredCatalog.Digest
/-!
# Reading JSON

`Json.parse?` reads one value and nothing else but blanks. Values nest at most
one hundred and twenty-seven deep. Strings hold no bare control characters, and
an escaped surrogate must be the first half of a pair that its second half
follows.

Every reader here takes the characters that are left and returns what remains of
them. The readers of nested values count their steps down from the length of the
text, which is more than they can take.
-/

namespace LayeredCatalog.Json

def skipBlanks : List Char → List Char
  | c :: r => if c = ' ' ∨ c = '\n' ∨ c = '\t' ∨ c = '\r' then skipBlanks r else c :: r
  | [] => []

def hex4? : List Char → Option (Nat × List Char)
  | a :: b :: c :: d :: r => do
    let a ← Digest.hexValue? a
    let b ← Digest.hexValue? b
    let c ← Digest.hexValue? c
    let d ← Digest.hexValue? d
    some (((a.val * 16 + b.val) * 16 + c.val) * 16 + d.val, r)
  | _ => none

/-- The character of a code point, if it is one. -/
def scalar? (n : Nat) : Option Char :=
  if h : n.isValidChar then some (Char.ofNatAux n h) else none

/-- What stands behind `\u`: a code point below the surrogates or above them, or
the two halves of a pair. -/
def unicodeEscape? (cs : List Char) : Option (Char × List Char) := do
  let (n, r) ← hex4? cs
  if 0xd800 ≤ n ∧ n < 0xdc00 then
    match r with
    | '\\' :: 'u' :: r =>
      let (m, r) ← hex4? r
      if 0xdc00 ≤ m ∧ m < 0xe000 then
        let c ← scalar? (0x10000 + (n - 0xd800) * 0x400 + (m - 0xdc00))
        some (c, r)
      else none
    | _ => none
  else
    let c ← scalar? n
    some (c, r)

/-- The character that a letter behind a backslash stands for. -/
def shortEscape? : Char → Option Char
  | '"' => some '"'
  | '\\' => some '\\'
  | '/' => some '/'
  | 'b' => some '\x08'
  | 'f' => some '\x0c'
  | 'n' => some '\n'
  | 'r' => some '\r'
  | 't' => some '\t'
  | _ => none

/-- The characters of a string up to its closing quote. -/
def stringChars? : Nat → List Char → Option (List Char × List Char)
  | 0, _ => none
  | _ + 1, [] => none
  | _ + 1, '"' :: r => some ([], r)
  | fuel + 1, '\\' :: 'u' :: r => do
    let (c, r) ← unicodeEscape? r
    let (s, r) ← stringChars? fuel r
    some (c :: s, r)
  | fuel + 1, '\\' :: e :: r => do
    let c ← shortEscape? e
    let (s, r) ← stringChars? fuel r
    some (c :: s, r)
  | _ + 1, ['\\'] => none
  | fuel + 1, c :: r =>
    if c.toNat < 0x20 then none
    else do
      let (s, r) ← stringChars? fuel r
      some (c :: s, r)

def digits? (cs : List Char) : Option (List Char × List Char) :=
  match cs.takeWhile Char.isDigit with
  | [] => none
  | ds => some (ds, cs.dropWhile Char.isDigit)

/-- The digits before the point: a zero alone, or digits that begin with another
one. -/
def whole? : List Char → Option (List Char × List Char)
  | '0' :: r => some (['0'], r)
  | cs => digits? cs

/-- The part of a number from the point on, if it has one. -/
def fraction? : List Char → Option (List Char × List Char)
  | '.' :: r => (digits? r).map fun (ds, r) => ('.' :: ds, r)
  | cs => some ([], cs)

/-- The exponent of a number, if it has one. -/
def exponent? : List Char → Option (List Char × List Char)
  | e :: r =>
    if e = 'e' ∨ e = 'E' then
      match r with
      | '+' :: r => (digits? r).map fun (ds, r) => (e :: '+' :: ds, r)
      | '-' :: r => (digits? r).map fun (ds, r) => (e :: '-' :: ds, r)
      | r => (digits? r).map fun (ds, r) => (e :: ds, r)
    else some ([], e :: r)
  | [] => some ([], [])

def number? (cs : List Char) : Option (List Char × List Char) := do
  let (sign, cs) := match cs with
    | '-' :: r => (['-'], r)
    | cs => ([], cs)
  let (whole, cs) ← whole? cs
  let (fraction, cs) ← fraction? cs
  let (exponent, cs) ← exponent? cs
  some (sign ++ whole ++ fraction ++ exponent, cs)

mutual

/-- A value, with blanks before it. -/
def value? : (fuel depth : Nat) → List Char → Option (Json × List Char)
  | 0, _, _ => none
  | fuel + 1, depth, cs =>
    match skipBlanks cs with
    | 'n' :: 'u' :: 'l' :: 'l' :: r => some (.null, r)
    | 't' :: 'r' :: 'u' :: 'e' :: r => some (.bool true, r)
    | 'f' :: 'a' :: 'l' :: 's' :: 'e' :: r => some (.bool false, r)
    | '"' :: r => do
      let (s, r) ← stringChars? fuel r
      some (.string (String.ofList s), r)
    | '[' :: r =>
      match depth with
      | 0 => none
      | depth + 1 =>
        match skipBlanks r with
        | ']' :: r => some (.array [], r)
        | r => do
          let (v, r) ← value? fuel depth r
          let (vs, r) ← items? fuel depth r
          some (.array (v :: vs), r)
    | '\x7b' :: r =>
      match depth with
      | 0 => none
      | depth + 1 =>
        match skipBlanks r with
        | '\x7d' :: r => some (.object [], r)
        | r => do
          let (m, r) ← member? fuel depth r
          let (ms, r) ← members? fuel depth r
          some (.object (m :: ms), r)
    | cs => do
      let (spelling, r) ← number? cs
      some (.number (String.ofList spelling), r)

def items? : (fuel depth : Nat) → List Char → Option (List Json × List Char)
  | 0, _, _ => none
  | fuel + 1, depth, cs =>
    match skipBlanks cs with
    | ']' :: r => some ([], r)
    | ',' :: r => do
      let (v, r) ← value? fuel depth r
      let (vs, r) ← items? fuel depth r
      some (v :: vs, r)
    | _ => none

/-- A key, a colon and a value. -/
def member? : (fuel depth : Nat) → List Char → Option ((String × Json) × List Char)
  | 0, _, _ => none
  | fuel + 1, depth, cs =>
    match skipBlanks cs with
    | '"' :: r => do
      let (k, r) ← stringChars? fuel r
      match skipBlanks r with
      | ':' :: r =>
        let (v, r) ← value? fuel depth r
        some ((String.ofList k, v), r)
      | _ => none
    | _ => none

def members? : (fuel depth : Nat) → List Char → Option (List (String × Json) × List Char)
  | 0, _, _ => none
  | fuel + 1, depth, cs =>
    match skipBlanks cs with
    | '\x7d' :: r => some ([], r)
    | ',' :: r => do
      let (m, r) ← member? fuel depth r
      let (ms, r) ← members? fuel depth r
      some (m :: ms, r)
    | _ => none

end

def parse? (s : String) : Option Json := do
  let cs := s.toList
  let (v, r) ← value? (cs.length + 1) 127 cs
  match skipBlanks r with
  | [] => some v
  | _ => none

end LayeredCatalog.Json
