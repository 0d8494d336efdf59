/-!
# Control sequences

Text for a terminal holds sequences that begin with the escape character and say
how what follows is shown. `strip` leaves them out, and with them the control
characters other than blanks and line breaks.

A sequence may be a single letter, may go on to a letter behind brackets, or may
hold a string: one kind of string ends with the bell, the others with a character
in whose encoding the byte of the string terminator occurs. Characters that are
shown inside a sequence do not end it: it goes on at the next one that is not.
-/

namespace LayeredCatalog.ControlSequence

/-- Where in a sequence a reader stands. -/
inductive State where
  /-- In no sequence. -/
  | outside
  | escape
  | escapeSign
  | bracket
  /-- At the beginning of a string for a device. -/
  | device
  | deviceParameter
  | deviceSign
  | string
  /-- In a string that the bell ends. -/
  | command
deriving DecidableEq

/-- Whether the byte of the string terminator occurs in the encoding of a
character. -/
def hasTerminator (c : Char) : Bool := (String.singleton c).toUTF8.data.contains 0x9c

def State.shows (s : State) (c : Char) : Bool :=
  if c = '\t' || c = '\n' || c = '\x0c' || c = '\r' then
    s = .outside || s = .escape || s = .escapeSign || s = .bracket
  else s = .outside && 0x20 ≤ c.toNat && c.toNat ≠ 0x7f

/-- Where the reader stands behind a character of a sequence. -/
def State.next (s : State) (c : Char) : State :=
  let n := c.toNat
  if n = 0x1b then .escape
  else if n = 0x18 || n = 0x1a then .outside
  else if 0x80 ≤ n then if s = .string && hasTerminator c then .outside else s
  else if n = 0x07 && s = .command then .outside
  else if n < 0x20 || n = 0x7f then s
  else match s with
    | .outside | .string | .command => s
    | .escape =>
      if n < 0x30 then .escapeSign
      else if c = '[' then .bracket
      else if c = ']' then .command
      else if c = 'P' then .device
      else if c = 'X' || c = '^' || c = '_' then .string
      else .outside
    | .escapeSign => if n < 0x30 then .escapeSign else .outside
    | .bracket => if n < 0x40 then .bracket else .outside
    | .device =>
      if n < 0x30 then .deviceSign else if n < 0x40 then .deviceParameter else .string
    | .deviceParameter =>
      if n < 0x30 then .deviceSign else if n < 0x3c then .deviceParameter else .string
    | .deviceSign => if n < 0x30 then .deviceSign else .string

/-- What is shown of a text from a state on. Behind a character that was shown
(`run`), the next one is judged as if no sequence were open. -/
def stripFrom (s : State) (run : Bool) : List Char → List Char
  | [] => []
  | c :: cs =>
    if (if run then State.outside else s).shows c then
      c :: stripFrom (if c.toNat < 0x80 then s else .outside) true cs
    else stripFrom (s.next c) false cs

/-- A text without control sequences. -/
def strip (s : String) : String := String.ofList (stripFrom .outside false s.toList)

/-- A text in heavy type. -/
def bold (s : String) : String := "\x1b[1m" ++ s ++ "\x1b[0m"

/-- A text in heavy type with a line under it. -/
def boldUnderlined (s : String) : String := "\x1b[1m\x1b[4m" ++ s ++ "\x1b[0m"

end LayeredCatalog.ControlSequence
