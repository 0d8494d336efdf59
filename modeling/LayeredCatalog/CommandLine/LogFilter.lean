import LayeredCatalog.CommandLine.FieldPattern
/-!
# Log filters

A log filter is a list of directives between commas. A directive is a level, or a
target with or without a level behind an equals sign; behind the target, or in its
place, a span may stand in brackets, and a field in braces inside these, with or
without a value behind an equals sign; the braces may not be empty. Only whether a text is a filter is decided
here.

The parts of a directive are found in the directive without the blanks around it,
by their places, and cut out of the directive as it is written. So blanks before a
directive shift its parts, and blanks behind it belong to its level.
-/

namespace LayeredCatalog.LogFilter

/-- Why a text is no filter. -/
inductive Fault where
  | directive
  /-- What stands behind the equals sign of a directive is no level. -/
  | level
  /-- What a field is compared with is no pattern. -/
  | field (fault : FieldPattern.Fault)
  /-- A part of a directive begins or ends inside a character. -/
  | split
deriving DecidableEq

def Fault.message : Fault → String
  | .directive => "invalid filter directive"
  | .level =>
    "error parsing level filter: expected one of \"off\", \"error\", \"warn\", \"info\", " ++
      "\"debug\", \"trace\", or a number 0-5"
  | .field .malformed => "invalid field filter: error building NFA"
  | .field .wordEdge =>
    "invalid field filter: unsupported regex feature for DFAs: cannot build DFAs for regexes " ++
      "with Unicode word boundaries; switch to ASCII word boundaries, or heuristically enable " ++
      "Unicode word boundaries or use a different regex engine"
  | .split => "a part of a filter directive begins or ends inside a character"

def levels : List String := ["off", "error", "warn", "info", "debug", "trace"]

/-- Whether a text is a level: a name in letters of any case, or a number. -/
def isLevel (cs : List Char) : Bool :=
  let digits := if cs.head? = some '+' then cs.tail else cs
  if !digits.isEmpty && digits.all Char.isDigit then
    digits.foldl (fun n c => 10 * n + (c.toNat - 48)) 0 < 6
  else levels.contains (String.ofList (cs.map Char.toLower))

/-! ### Cutting -/

/-- The text from a place on, which is given in bytes. -/
def dropBytes? : (bytes : Nat) → List Char → Option (List Char)
  | 0, cs => some cs
  | _ + 1, [] => none
  | n + 1, c :: cs => if c.utf8Size ≤ n + 1 then dropBytes? (n + 1 - c.utf8Size) cs else none

/-- The text before a place, which is given in bytes. -/
def takeBytes? : (bytes : Nat) → List Char → Option (List Char)
  | 0, _ => some []
  | _ + 1, [] => none
  | n + 1, c :: cs =>
    if c.utf8Size ≤ n + 1 then (takeBytes? (n + 1 - c.utf8Size) cs).map (c :: ·) else none

/-- The part of a directive between two places. -/
def cut (text : List Char) (start stop : Nat) : Except Fault (List Char) :=
  match (dropBytes? start text).bind (takeBytes? (stop - start)) with
  | some part => .ok part
  | none => .error .split

/-- The part of a directive from a place on. -/
def cutFrom (text : List Char) (start : Nat) : Except Fault (List Char) :=
  match dropBytes? start text with
  | some part => .ok part
  | none => .error .split

/-! ### Directives -/

/-- Checks a field: a name, and a text to compare it with behind the first equals
sign. -/
def checkField (cs : List Char) : Except Fault Unit :=
  match cs.dropWhile (· ≠ '=') with
  | [] => .ok ()
  | _ :: value => (FieldPattern.check (value.takeWhile (· ≠ '='))).mapError .field

/-- The part of a directive that a reader stands in. -/
inductive Part where
  /-- Before everything. -/
  | beginning
  /-- In a target, or in a level that stands alone. -/
  | target
  /-- In the name of a span that begins at `start`. -/
  | span (start : Nat)
  | field (start : Nat)
  | fields
  /-- Behind a span. -/
  | closed
  | level (start : Nat)

/-- The part of a directive behind its next character, which stands at `place`. -/
def Part.next (text : List Char) (place : Nat) (c : Char) : Part → Except Fault Part
  | .beginning =>
    if c = '[' then .ok (.span (place + 1))
    else if c = '-' || c = ':' || c = '_' || Text.isAlphanumeric c then .ok .target
    else .error .directive
  | .target =>
    if c = '=' then (cut text 0 place).map fun _ => .level (place + 1)
    else if c = '[' then (cut text 0 place).map fun _ => .span (place + 1)
    else .ok .target
  | .span start =>
    if c = ']' then (cut text start place).map fun _ => .closed
    else if c = '\x7b' then (cut text start place).map fun _ => .field (place + 1)
    else .ok (.span start)
  | .field start =>
    if c = '\x7d' then do
      let field ← cut text start place
      if field.isEmpty then throw .directive
      checkField field
      return .fields
    else .ok (.field start)
  | .fields => if c = ']' then .ok .closed else .error .directive
  | .closed => if c = '=' then .ok (.level (place + 1)) else .error .directive
  | .level start => .ok (.level start)

/-- Checks that a directive may end in a part. -/
def Part.finish (text : List Char) : Part → Except Fault Unit
  | .target | .closed => .ok ()
  | .level start => do
    let level ← cutFrom text start
    if level.isEmpty || isLevel level then return else throw .level
  | _ => .error .directive

/-- Reads the characters of a directive from a place on. -/
def Part.run (text : List Char) (place : Nat) (p : Part) : List Char → Except Fault Part
  | [] => .ok p
  | c :: cs => do (← p.next text place c).run text (place + c.utf8Size) cs

def checkDirective (text : List Char) : Except Fault Unit := do
  let trimmed := ((text.dropWhile Text.isSpace).reverse.dropWhile Text.isSpace).reverse
  (← Part.beginning.run text 0 trimmed).finish text

/-- Cuts a text at every comma. -/
def directives : List Char → List (List Char)
  | [] => [[]]
  | ',' :: cs => [] :: directives cs
  | c :: cs =>
    match directives cs with
    | d :: ds => (c :: d) :: ds
    | [] => [[c]]

/-- Checks a filter. Empty directives are passed over. -/
def check (s : String) : Except Fault Unit :=
  ((directives s.toList).filter (!·.isEmpty)).forM checkDirective

end LayeredCatalog.LogFilter
