import LayeredCatalog.Digest.Document
import LayeredCatalog.Proofs.ByteOrder
import LayeredCatalog.Proofs.Documents
import LayeredCatalog.Proofs.Encoding
import LayeredCatalog.Proofs.Json

/-!
# The one written form of a digest

A text is read as a digest if sixty-four hexadecimal digits are left of it once the scheme is
taken away, which is done once at most. The digest then is what is left, in small letters
(`Digest.ofHex?_eq_some_iff`). So the texts of a digest differ in the scheme and in the case
of letters only, and one of them is the digits themselves (`Digest.one_written_form`). The
digits of a hash are those of its thirty-two bytes, two for each (`Digest.hex_ofBytes`).
-/

namespace LayeredCatalog

namespace Sha256

/-- The bytes of a word, the most significant first. -/
def wordBytes (w : UInt32) : List UInt8 :=
  [24, 16, 8, 0].map fun s => UInt8.ofNat (w.toNat >>> s)

/-- The hash of a message as bytes. -/
def hashBytes (message : List UInt8) : List UInt8 := (hash message).toList.flatMap wordBytes

theorem length_hashBytes (message : List UInt8) : (hashBytes message).length = 32 := by
  rw [hashBytes, List.length_flatMap]
  simp [wordBytes]

end Sha256

namespace Digest

/-- A hexadecimal digit of either case. -/
def IsHexDigit (c : Char) : Prop :=
  ('0' ≤ c ∧ c ≤ '9') ∨ ('a' ≤ c ∧ c ≤ 'f') ∨ ('A' ≤ c ∧ c ≤ 'F')

/-- A hexadecimal digit without capital letters. -/
def IsSmallHexDigit (c : Char) : Prop := ('0' ≤ c ∧ c ≤ '9') ∨ ('a' ≤ c ∧ c ≤ 'f')

instance : DecidablePred IsHexDigit := fun _ => inferInstanceAs (Decidable (_ ∨ _))

instance : DecidablePred IsSmallHexDigit := fun _ => inferInstanceAs (Decidable (_ ∨ _))

/-- Sixty-four hexadecimal digits of either case and nothing else. -/
def IsHexText (t : String) : Prop := t.length = 64 ∧ ∀ c ∈ t.toList, IsHexDigit c

/-- A text without the scheme in front of it, if it is there. -/
def bare (s : String) : String :=
  String.ofList ((Text.afterPrefix? scheme.toList s.toList).getD s.toList)

/-- A byte as two digits: its digits with a zero in front where there is one only. -/
def byteDigits (b : UInt8) : List Char := List.leftpad 2 '0' (Text.hexDigits b.toNat)

section Digits

theorem isSmallHexDigit_hexDigit (v : Fin 16) : IsSmallHexDigit (Text.hexDigit v) := by
  revert v
  decide

theorem toLower_hexDigit (v : Fin 16) : (Text.hexDigit v).toLower = Text.hexDigit v := by
  revert v
  decide

theorem IsSmallHexDigit.isHexDigit {c : Char} (h : IsSmallHexDigit c) : IsHexDigit c := by
  rcases h with h | h
  · exact .inl h
  · exact .inr (.inl h)

theorem IsHexDigit.val_le {c : Char} (h : IsHexDigit c) : c.val ≤ 127 := by
  rcases h with h | h | h
  all_goals exact UInt32.le_trans h.2 (by decide)

/-- A digit is read as the one that is its small form. -/
theorem map_hexDigit_hexValue? (c : Char) :
    (hexValue? c).map Text.hexDigit = if IsHexDigit c then some c.toLower else none := by
  have hascii : ∀ n < 128, (hexValue? (Char.ofNat n)).map Text.hexDigit =
      if IsHexDigit (Char.ofNat n) then some (Char.ofNat n).toLower else none := by
    decide +kernel
  by_cases h : IsHexDigit c
  · have hc := hascii c.toNat (Nat.lt_succ_of_le h.val_le)
    rwa [Char.ofNat_toNat] at hc
  · have hnone : hexValue? c = none := by
      simp only [IsHexDigit, not_or] at h
      rw [hexValue?, if_neg h.1, if_neg h.2.1, if_neg h.2.2]
    rw [hnone, if_neg h]
    rfl

theorem hexValue?_eq_some_iff {c : Char} {v : Fin 16} :
    hexValue? c = some v ↔ IsHexDigit c ∧ Text.hexDigit v = c.toLower := by
  have hc := map_hexDigit_hexValue? c
  constructor
  · intro h
    rw [h] at hc
    split at hc
    · next hdigit => exact ⟨hdigit, Option.some.inj hc⟩
    · cases hc
  · rintro ⟨hdigit, hv⟩
    rw [if_pos hdigit] at hc
    obtain ⟨w, hw, hlower⟩ := Option.map_eq_some_iff.1 hc
    have hread := Json.hexValue?_hexDigit w
    rw [hlower, ← hv, Json.hexValue?_hexDigit] at hread
    rw [hw, hread]

theorem exists_hexValue?_iff {c : Char} : (∃ v, hexValue? c = some v) ↔ IsHexDigit c := by
  constructor
  · rintro ⟨v, hv⟩
    exact (hexValue?_eq_some_iff.1 hv).1
  · intro h
    have hc := map_hexDigit_hexValue? c
    rw [if_pos h] at hc
    obtain ⟨v, hv, -⟩ := Option.map_eq_some_iff.1 hc
    exact ⟨v, hv⟩

theorem mapM_hexValue?_eq_some_iff {cs : List Char} {ds : List (Fin 16)} :
    cs.mapM hexValue? = some ds ↔
      (∀ c ∈ cs, IsHexDigit c) ∧ ds.map Text.hexDigit = cs.map Char.toLower := by
  rw [mapM_eq_some_iff]
  simp only [hexValue?_eq_some_iff]
  rw [List.forall₂_and_left, eq_comm, ← List.forall₂_eq_eq_eq, List.forall₂_map_left_iff,
    List.forall₂_map_right_iff]
  simp only [eq_comm]

/-- Hexadecimal digits take a byte each. -/
theorem utf8ByteSize_eq_length {t : String} (h : ∀ c ∈ t.toList, IsHexDigit c) :
    t.utf8ByteSize = t.length := by
  have hone : t.toList.map (fun c => (String.utf8EncodeChar c).length) =
      t.toList.map fun _ => 1 :=
    List.map_congr_left fun c hc => by
      rw [String.length_utf8EncodeChar, Char.utf8Size_eq_one_iff.2 (h c hc).val_le]
  have hsize : t.utf8ByteSize = (utf8 t).length := rfl
  rw [hsize, utf8_eq_flatMap, List.length_flatMap, hone, List.map_const',
    List.sum_replicate_nat, Nat.mul_one, String.length_toList]

/-- Whether the characters are counted or their bytes makes no difference. -/
theorem isHexText_iff_utf8ByteSize {t : String} :
    IsHexText t ↔ t.utf8ByteSize = 64 ∧ ∀ c ∈ t.toList, IsHexDigit c := by
  refine and_congr_left fun h => ?_
  rw [utf8ByteSize_eq_length h]

end Digits

section Scheme

theorem bare_scheme_append (t : String) : bare (scheme ++ t) = t := by
  rw [bare, String.toList_append, Text.afterPrefix?_append, Option.getD_some, String.ofList_toList]

theorem bare_of_forall_ne {s : String} (h : ∀ r, s ≠ scheme ++ r) : bare s = s := by
  have hnone : Text.afterPrefix? scheme.toList s.toList = none := by
    refine Option.eq_none_iff_forall_ne_some.2 fun r hr => h (String.ofList r) ?_
    rw [← String.toList_inj, String.toList_append, String.toList_ofList]
    exact Text.afterPrefix?_eq_some_iff.1 hr
  rw [bare, hnone, Option.getD_none, String.ofList_toList]

/-- The scheme is taken away once, and only if it is there. -/
theorem bare_eq_iff {s t : String} :
    bare s = t ↔ s = scheme ++ t ∨ (s = t ∧ ∀ r, s ≠ scheme ++ r) := by
  by_cases h : ∃ r, s = scheme ++ r
  · obtain ⟨r, rfl⟩ := h
    simp [bare_scheme_append]
  · have hne : ∀ r, s ≠ scheme ++ r := not_exists.1 h
    rw [bare_of_forall_ne hne, or_iff_right (hne t), and_iff_left hne]

end Scheme

section Reading

theorem ofHex?_eq_some_iff_mapM {s : String} {d : Digest} :
    ofHex? s = some d ↔ (bare s).toList.mapM hexValue? = some d.digits := by
  rw [bare, String.toList_ofList, ofHex?]
  split
  · next digits hdigits =>
    rw [hdigits, Option.some.injEq]
    constructor
    · intro h
      split at h
      · cases h
        rfl
      · cases h
    · rintro rfl
      exact dif_pos d.length_digits
  · next hnone => simp [hnone]

/-- A text is read as the digest whose digits are what is left of it, in small letters. -/
theorem ofHex?_eq_some_iff {s : String} {d : Digest} :
    ofHex? s = some d ↔ IsHexText (bare s) ∧ d.hex = Text.lower (bare s) := by
  rw [ofHex?_eq_some_iff_mapM, mapM_hexValue?_eq_some_iff, hex, Text.lower, String.ofList_inj,
    IsHexText, and_assoc]
  refine (and_iff_right_of_imp fun h => ?_).symm
  have hlength := congrArg List.length h.2
  rw [List.length_map, List.length_map, d.length_digits, String.length_toList] at hlength
  exact hlength.symm

theorem exists_ofHex?_iff {s : String} : (∃ d, ofHex? s = some d) ↔ IsHexText (bare s) := by
  constructor
  · rintro ⟨d, hd⟩
    exact (ofHex?_eq_some_iff.1 hd).1
  · rintro ⟨hlength, hdigits⟩
    obtain ⟨ds, hds⟩ := exists_forall₂_iff.2 fun c hc => exists_hexValue?_iff.2 (hdigits c hc)
    refine ⟨⟨ds, ?_⟩, ofHex?_eq_some_iff_mapM.2 (mapM_eq_some_iff.2 hds)⟩
    rw [← hds.length_eq, String.length_toList, hlength]

/-- Two texts are read as one digest exactly if they differ in the scheme and in the case of
letters only. -/
theorem exists_ofHex?_both_iff {s s' : String} :
    (∃ d, ofHex? s = some d ∧ ofHex? s' = some d) ↔
      IsHexText (bare s) ∧ IsHexText (bare s') ∧ Text.lower (bare s) = Text.lower (bare s') := by
  constructor
  · rintro ⟨d, hd, hd'⟩
    obtain ⟨hs, hlower⟩ := ofHex?_eq_some_iff.1 hd
    obtain ⟨hs', hlower'⟩ := ofHex?_eq_some_iff.1 hd'
    exact ⟨hs, hs', hlower.symm.trans hlower'⟩
  · rintro ⟨hs, hs', hlower⟩
    obtain ⟨d, hd⟩ := exists_ofHex?_iff.2 hs
    refine ⟨d, hd, ofHex?_eq_some_iff.2 ⟨hs', ?_⟩⟩
    rw [(ofHex?_eq_some_iff.1 hd).2, hlower]

theorem ofDatum?_eq_some_iff {δ : Type} [Datum δ] {x : δ} {d : Digest} :
    ofDatum? x = some d ↔
      ∃ s, Datum.text? x = some s ∧ IsHexText (bare s) ∧ d.hex = Text.lower (bare s) := by
  simp only [ofDatum?, Option.bind_eq_some_iff, ofHex?_eq_some_iff]

end Reading

section Writing

theorem length_hex (d : Digest) : d.hex.length = 64 := by
  rw [← String.length_toList, hex, String.toList_ofList, List.length_map, d.length_digits]

theorem isSmallHexDigit_of_mem_hex {d : Digest} {c : Char} (h : c ∈ d.hex.toList) :
    IsSmallHexDigit c := by
  rw [hex, String.toList_ofList] at h
  obtain ⟨v, -, rfl⟩ := List.mem_map.1 h
  exact isSmallHexDigit_hexDigit v

theorem isHexText_hex (d : Digest) : IsHexText d.hex :=
  ⟨d.length_hex, fun _ hc => (isSmallHexDigit_of_mem_hex hc).isHexDigit⟩

theorem lower_hex (d : Digest) : Text.lower d.hex = d.hex := by
  rw [Text.lower, hex, String.toList_ofList, List.map_map]
  congr 2
  funext v
  exact toLower_hexDigit v

/-- Digits do not begin with the scheme. -/
theorem bare_hex (d : Digest) : bare d.hex = d.hex := by
  refine bare_of_forall_ne fun r hr => ?_
  have hmem : 's' ∈ d.hex.toList := by
    rw [hr, String.toList_append]
    exact List.mem_append_left _ (by decide)
  exact absurd (isSmallHexDigit_of_mem_hex hmem) (by decide)

theorem ofHex?_hex (d : Digest) : ofHex? d.hex = some d := by
  rw [ofHex?_eq_some_iff, bare_hex, lower_hex]
  exact ⟨d.isHexText_hex, rfl⟩

theorem ofHex?_render (d : Digest) : ofHex? d.render = some d := by
  rw [ofHex?_eq_some_iff, render, bare_scheme_append, lower_hex]
  exact ⟨d.isHexText_hex, rfl⟩

theorem parse?_compact (d : Digest) : parse? (Json.string d.render).compact = some d := by
  rw [parse?, (Json.legible_string 127 d.render).parse?_compact]
  exact d.ofHex?_render

end Writing

section Hash

theorem byteDigits_eq (b : UInt8) :
    byteDigits b = [Text.hexDigit ⟨b.toNat / 16, by have := b.toNat_lt; omega⟩,
      Text.hexDigit ⟨b.toNat % 16, Nat.mod_lt _ (by decide)⟩] := by
  have hb := b.toNat_lt
  rw [byteDigits, Text.hexDigits]
  split
  · next h =>
    simp only [Nat.div_eq_of_lt h, Nat.mod_eq_of_lt h]
    rfl
  · rw [Text.hexDigits, dif_pos (by omega)]
    rfl

theorem byteDigits_ofNat (n : Nat) :
    byteDigits (UInt8.ofNat n) = [Text.hexDigit (Fin.ofNat 16 (n >>> 4)),
      Text.hexDigit (Fin.ofNat 16 n)] := by
  have hhigh : n % 2 ^ 8 / 16 = (n >>> 4) % 16 := by
    rw [Nat.shiftRight_eq_div_pow]
    omega
  have hlow : n % 2 ^ 8 % 16 = n % 16 := by omega
  simp only [byteDigits_eq, UInt8.toNat_ofNat', hhigh, hlow]
  rfl

theorem map_hexDigit_wordDigits (w : UInt32) :
    (wordDigits w).map Text.hexDigit = (Sha256.wordBytes w).flatMap byteDigits := by
  simp only [wordDigits, Sha256.wordBytes, List.map_cons, List.map_nil, List.flatMap_cons,
    List.flatMap_nil, byteDigits_ofNat, ← Nat.shiftRight_add, Nat.reduceAdd, Nat.shiftRight_zero,
    List.cons_append, List.nil_append]

/-- The digits of a hash are two for each of its bytes. -/
theorem hex_ofBytes (bytes : List UInt8) :
    (ofBytes bytes).hex = String.ofList ((Sha256.hashBytes bytes).flatMap byteDigits) := by
  rw [hex, ofBytes, List.map_flatMap, Sha256.hashBytes, List.flatMap_assoc]
  simp only [map_hexDigit_wordDigits]

end Hash

/-- What is left of a text without the scheme, which is taken away once at most, decides
whether the text is a digest and which one: it must be sixty-four hexadecimal digits of either
case, counted as characters or as bytes, and the digest is these digits in small letters. A
hash of any message is a digest, of two small digits for each of thirty-two bytes, and a
document holds the digest that its text is. Every digest is sixty-four small digits and known
by them, and it is read back from the digits, from its printed form and from its document. So
two texts are one digest exactly if what is left of them differs in the case of letters only. -/
theorem one_written_form :
    (∀ s t, bare s = t ↔ s = scheme ++ t ∨ (s = t ∧ ∀ r, s ≠ scheme ++ r)) ∧
    (∀ s, (∃ d, ofHex? s = some d) ↔
      (bare s).length = 64 ∧ ∀ c ∈ (bare s).toList, IsHexDigit c) ∧
    (∀ s, (∃ d, ofHex? s = some d) ↔
      (bare s).utf8ByteSize = 64 ∧ ∀ c ∈ (bare s).toList, IsHexDigit c) ∧
    (∀ s d, ofHex? s = some d ↔ IsHexText (bare s) ∧ d.hex = Text.lower (bare s)) ∧
    (∀ message, (Sha256.hashBytes message).length = 32 ∧
      (ofBytes message).hex =
        String.ofList ((Sha256.hashBytes message).flatMap byteDigits)) ∧
    (∀ {δ : Type} [Datum δ] (x : δ) d, ofDatum? x = some d ↔
      ∃ s, Datum.text? x = some s ∧ IsHexText (bare s) ∧ d.hex = Text.lower (bare s)) ∧
    (∀ d : Digest, d.hex.length = 64 ∧ (∀ c ∈ d.hex.toList, IsSmallHexDigit c) ∧
      ∀ e : Digest, d = e ↔ d.hex = e.hex) ∧
    (∀ d : Digest, ofHex? d.hex = some d ∧ ofHex? d.render = some d ∧
      parse? (Json.string d.render).compact = some d) ∧
    ∀ s s', (∃ d, ofHex? s = some d ∧ ofHex? s' = some d) ↔
      IsHexText (bare s) ∧ IsHexText (bare s') ∧
        Text.lower (bare s) = Text.lower (bare s') := by
  refine ⟨fun s t => bare_eq_iff, fun s => exists_ofHex?_iff, fun s => ?_,
    fun s d => ofHex?_eq_some_iff, fun message => ?_, fun x d => ofDatum?_eq_some_iff,
    fun d => ?_, fun d => ?_, fun s s' => exists_ofHex?_both_iff⟩
  · rw [exists_ofHex?_iff, isHexText_iff_utf8ByteSize]
  · exact ⟨Sha256.length_hashBytes message, hex_ofBytes message⟩
  · exact ⟨d.length_hex, fun c => isSmallHexDigit_of_mem_hex,
      fun e => ⟨congrArg hex, hex_inj⟩⟩
  · exact ⟨d.ofHex?_hex, d.ofHex?_render, d.parse?_compact⟩

/-- A second scheme in front is not taken away. -/
example :
    ofHex? ("sha256:" ++ String.ofList (List.replicate 64 'A')) =
      ofHex? (String.ofList (List.replicate 64 'a')) ∧
    ofHex? ("sha256:sha256:" ++ String.ofList (List.replicate 64 'a')) = none := by
  decide +kernel

end Digest

end LayeredCatalog
