import LayeredCatalog.Text.Printable
/-!
# Quoted text

Diagnostics show a piece of text between double quotes. The quote and the
backslash take a backslash in front of them, tab, line feed, carriage return and
the null character have short names, and every other character without a glyph
is written as `\u` with its code point in braces.
-/

namespace LayeredCatalog.Text

/-- The lowercase hexadecimal digit of a number below sixteen. -/
def hexDigit (d : Fin 16) : Char :=
  if d.val < 10 then Char.ofNat (48 + d.val) else Char.ofNat (87 + d.val)

/-- The hexadecimal digits of a number, without leading zeros. -/
def hexDigits (n : Nat) : List Char :=
  if h : n < 16 then [hexDigit ⟨n, h⟩]
  else hexDigits (n / 16) ++ [hexDigit ⟨n % 16, Nat.mod_lt _ (by decide)⟩]

def quotedChar (c : Char) : List Char :=
  if c = '"' then ['\\', '"']
  else if c = '\\' then ['\\', '\\']
  else if c = '\t' then ['\\', 't']
  else if c = '\n' then ['\\', 'n']
  else if c = '\r' then ['\\', 'r']
  else if c.toNat = 0 then ['\\', '0']
  else if isPrintable c then [c]
  else ['\\', 'u', '\x7b'] ++ hexDigits c.toNat ++ ['\x7d']

def quoted (cs : List Char) : String :=
  String.ofList ('"' :: cs.flatMap quotedChar ++ ['"'])

end LayeredCatalog.Text
