/-!
# Numbers in plain scalars

Which plain scalars are numbers. A whole number is written in decimal digits, or
in digits behind `0x`, `0o` or `0b`; a decimal number may have a point and an
exponent, but a row of digits that begins with zero is no number. A decimal number
that is too large to round to a finite double is none either.
-/

namespace LayeredCatalog.Yaml

/-- The value of a digit in bases up to sixteen. -/
def digitValue? (base : Nat) (c : Char) : Option Nat :=
  let v :=
    if '0' ≤ c ∧ c ≤ '9' then some (c.toNat - 48)
    else if 'a' ≤ c ∧ c ≤ 'f' then some (c.toNat - 87)
    else if 'A' ≤ c ∧ c ≤ 'F' then some (c.toNat - 55)
    else none
  v.filter (· < base)

def digitsValue? (base : Nat) (cs : List Char) : Option Nat :=
  if cs.isEmpty then none
  else cs.foldlM (fun n c => (digitValue? base c).map (n * base + ·)) 0

/-- The number behind a prefix that names its base. -/
def basedValue? : List Char → Option Nat
  | '0' :: 'x' :: r => digitsValue? 16 r
  | '0' :: 'o' :: r => digitsValue? 8 r
  | '0' :: 'b' :: r => digitsValue? 2 r
  | _ => none

/-- Whether the text is a row of digits that begins with zero, behind a sign or
not. -/
def isPaddedDigits (cs : List Char) : Bool :=
  let digits := match cs with
    | c :: r => if c = '-' || c = '+' then r else cs
    | [] => []
  match digits with
  | '0' :: d :: r => (d :: r).all Char.isDigit
  | _ => false

/-- The whole number, zero or more and below `bound`, that a plain scalar writes. -/
def natural? (bound : Nat) (cs : List Char) : Option Nat :=
  let unsigned := match cs with
    | '+' :: r => r
    | cs => cs
  let value := match basedValue? unsigned with
    | some n => some n
    | none => if isPaddedDigits cs then none else digitsValue? 10 unsigned
  value.filter (· < bound)

/-- Whether a plain scalar writes a whole number below zero, not less than
`-bound`. -/
def isNegative (bound : Nat) : List Char → Bool
  | '-' :: r =>
    let value := match basedValue? r with
      | some n => some n
      | none => if isPaddedDigits ('-' :: r) then none else digitsValue? 10 r
    (value.filter (· ≤ bound)).isSome
  | _ => false

/-- Whether `digits * 10 ^ exponent` rounds to a finite double. -/
def isFinite (digits : Nat) (exponent : Int) : Bool :=
  -- half a unit above the largest double
  let bound := Nat.pow 2 1024 - Nat.pow 2 970
  if digits = 0 then true
  else
    let size := (Nat.toDigits 10 digits).length + exponent
    if size < 300 then true
    else if 310 < size then false
    else if 0 ≤ exponent then digits * Nat.pow 10 exponent.toNat < bound
    else digits < bound * Nat.pow 10 (-exponent).toNat

/-- The exponent that a text ends with, zero if there is none. -/
def exponent? : List Char → Option Int
  | [] => some 0
  | e :: r =>
    if e = 'e' || e = 'E' then
      match r with
      | '-' :: r => (digitsValue? 10 r).map fun n => -(n : Int)
      | '+' :: r => (digitsValue? 10 r).map fun n => (n : Int)
      | r => (digitsValue? 10 r).map fun n => (n : Int)
    else none

/-- Whether the text is a finite decimal number without a sign. -/
def isDecimal (cs : List Char) : Bool :=
  let whole := cs.takeWhile Char.isDigit
  let (fraction, rest) := match cs.dropWhile Char.isDigit with
    | '.' :: r => (r.takeWhile Char.isDigit, r.dropWhile Char.isDigit)
    | r => ([], r)
  match digitsValue? 10 (whole ++ fraction), exponent? rest with
  | some digits, some e => isFinite digits (e - fraction.length)
  | _, _ => false

/-- Whether a plain scalar is read as a decimal number, an infinity or no
number (`.nan`). -/
def isFloat (cs : List Char) : Bool :=
  let s := String.ofList cs
  if [".inf", ".Inf", ".INF", "+.inf", "+.Inf", "+.INF", "-.inf", "-.Inf", "-.INF", ".nan", ".NaN",
      ".NAN"].contains s then true
  else if isPaddedDigits cs then false
  else match cs with
    | '+' :: r => isDecimal r
    | '-' :: r => isDecimal r
    | r => isDecimal r

/-- Whether a plain scalar is read as a number. -/
def isNumber (cs : List Char) : Bool :=
  (natural? (Nat.pow 2 128) cs).isSome || isNegative (Nat.pow 2 127) cs || isFloat cs

end LayeredCatalog.Yaml
