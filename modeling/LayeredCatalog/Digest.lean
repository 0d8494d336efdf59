import LayeredCatalog.Digest.Sha256
import LayeredCatalog.Text.Affix
import LayeredCatalog.Text.Quoted
/-!
# Digests

A digest is sixty-four hexadecimal digits. It is read from text with or without
its scheme in front, letters of either case being the same digit, and it is
written in small letters, so every digest has one written form.
-/

namespace LayeredCatalog

/-- A SHA-256 digest, as its sixty-four hexadecimal digits. -/
structure Digest where
  /-- The digits, the most significant first. -/
  digits : List (Fin 16)
  /-- Two digits for each of thirty-two bytes. -/
  length_digits : digits.length = 64
deriving DecidableEq

namespace Digest

/-- The name of the hash function, which stands in front of a written digest. -/
def scheme : String := "sha256:"

/-- The value of a hexadecimal digit of either case. -/
def hexValue? (c : Char) : Option (Fin 16) :=
  if '0' ≤ c ∧ c ≤ '9' then some (Fin.ofNat 16 (c.toNat - 48))
  else if 'a' ≤ c ∧ c ≤ 'f' then some (Fin.ofNat 16 (c.toNat - 87))
  else if 'A' ≤ c ∧ c ≤ 'F' then some (Fin.ofNat 16 (c.toNat - 55))
  else none

/-- Reads sixty-four hexadecimal digits, after the scheme if it is there. -/
def ofHex? (s : String) : Option Digest :=
  let bare := (Text.afterPrefix? scheme.toList s.toList).getD s.toList
  match bare.mapM hexValue? with
  | some digits => if h : digits.length = 64 then some ⟨digits, h⟩ else none
  | none => none

/-- The digits as text. -/
def hex (d : Digest) : String := String.ofList (d.digits.map Text.hexDigit)

/-- The digits behind the scheme. -/
def render (d : Digest) : String := scheme ++ d.hex

instance : ToString Digest := ⟨render⟩

def wordDigits (w : UInt32) : List (Fin 16) :=
  [28, 24, 20, 16, 12, 8, 4, 0].map fun s => Fin.ofNat 16 (w.toNat >>> s)

theorem length_flatMap_wordDigits (ws : List UInt32) :
    (ws.flatMap wordDigits).length = 8 * ws.length := by
  induction ws with
  | nil => rfl
  | cons w ws ih =>
    simp only [List.flatMap_cons, List.length_append, ih, List.length_cons]
    simp only [wordDigits, List.length_map, List.length_cons, List.length_nil]
    omega

def ofBytes (bytes : List UInt8) : Digest where
  digits := (Sha256.hash bytes).toList.flatMap wordDigits
  length_digits := by rw [length_flatMap_wordDigits]; simp

/-- The digest of the UTF-8 bytes of a text. -/
def ofText (s : String) : Digest := ofBytes s.toUTF8.toList

end Digest

end LayeredCatalog
