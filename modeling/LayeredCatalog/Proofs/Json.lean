import LayeredCatalog.Json.Reader
import Mathlib.Data.List.Basic

/-!
# Reading what was written

A string that is written between quotes is read back character by character, whatever it
holds (`Json.stringChars?_quote`). A value is legible if it is read back from its text
without blanks, and what follows the text is left. Strings are legible, and so are arrays
and objects of legible values, one level deeper (`Json.Legible.array`, `Json.Legible.object`).
The text of a value that is legible in the depth of a document is read as that value
(`Json.Legible.parse?_compact`).
-/

namespace LayeredCatalog.Json

section Strings

theorem hexValue?_hexDigit (d : Fin 16) : Digest.hexValue? (Text.hexDigit d) = some d := by
  revert d
  decide

theorem scalar?_toNat (c : Char) : scalar? c.toNat = some c := by
  have h : c.toNat.isValidChar := c.valid
  rw [scalar?, dif_pos h]
  rfl

theorem unicodeEscape?_hexDigits {high low : Fin 16} {c : Char}
    (hvalue : high.val * 16 + low.val = c.toNat) (hcontrol : c.toNat < 0x20) (rest : List Char) :
    unicodeEscape? ('0' :: '0' :: Text.hexDigit high :: Text.hexDigit low :: rest) =
      some (c, rest) := by
  have hzero : Digest.hexValue? '0' = some 0 := by decide
  have hlow : ¬ (0xd800 ≤ c.toNat ∧ c.toNat < 0xdc00) := by omega
  simp [unicodeEscape?, hex4?, hzero, hexValue?_hexDigit, hvalue, hlow, scalar?_toNat]

/-- The spelling of a character is read as that character, in one step. -/
theorem stringChars?_escape (c : Char) (fuel : Nat) (rest : List Char) :
    stringChars? (fuel + 1) (escape c ++ rest) =
      (stringChars? fuel rest).bind fun p => some (c :: p.1, p.2) := by
  by_cases hshort : c ∈ ['"', '\\', '\n', '\r', '\t', '\x08', '\x0c']
  · simp only [List.mem_cons, List.not_mem_nil, or_false] at hshort
    rcases hshort with rfl | rfl | rfl | rfl | rfl | rfl | rfl
    all_goals rfl
  · simp only [List.mem_cons, List.not_mem_nil, or_false, not_or] at hshort
    by_cases hcontrol : c.toNat < 0x20
    · simp only [escape, hshort, if_false, hcontrol, dif_pos, List.cons_append, List.nil_append,
        stringChars?]
      rw [unicodeEscape?_hexDigits ?_ hcontrol]
      · rfl
      · exact Nat.div_add_mod' c.toNat 16
    · simp only [escape, hshort, if_false, hcontrol, dif_neg, not_false_eq_true,
        List.cons_append, List.nil_append]
      -- No earlier case of the reader takes a character that is spelled as itself.
      rw [stringChars?]
      · rw [if_neg hcontrol]
        rfl
      all_goals simp_all

theorem quote_append (s : String) (rest : List Char) :
    quote s ++ rest = '"' :: (s.toList.flatMap escape ++ '"' :: rest) := by
  rw [quote, List.cons_append, List.cons_append, List.append_assoc]
  rfl

theorem length_quote (s : String) : s.toList.length + 2 ≤ (quote s).length := by
  have hflat : ∀ cs : List Char, cs.length ≤ (cs.flatMap escape).length := by
    intro cs
    induction cs with
    | nil => exact Nat.zero_le _
    | cons c cs ih =>
        have hc : 0 < (escape c).length := by
          rw [escape]
          repeat' split
          all_goals exact Nat.succ_pos _
        rw [List.flatMap_cons, List.length_append, List.length_cons]
        omega
  simpa [quote] using hflat s.toList

/-- A string is read up to the quote that closes it. -/
theorem stringChars?_quote {cs : List Char} {fuel : Nat} (h : cs.length < fuel)
    (rest : List Char) :
    stringChars? fuel (cs.flatMap escape ++ '"' :: rest) = some (cs, rest) := by
  induction cs generalizing fuel with
  | nil =>
      obtain ⟨k, rfl⟩ := Nat.exists_eq_add_of_lt h
      rfl
  | cons c cs ih =>
      obtain ⟨k, rfl⟩ := Nat.exists_eq_add_of_lt h
      rw [List.flatMap_cons, List.append_assoc, stringChars?_escape,
        ih (by rw [List.length_cons]; omega)]
      rfl

end Strings

section Blanks

theorem skipBlanks_cons {c : Char} (h : ¬ (c = ' ' ∨ c = '\n' ∨ c = '\t' ∨ c = '\r'))
    (rest : List Char) : skipBlanks (c :: rest) = c :: rest := by
  rw [skipBlanks, if_neg h]

theorem skipBlanks_skipBlanks (cs : List Char) : skipBlanks (skipBlanks cs) = skipBlanks cs := by
  induction cs with
  | nil => rfl
  | cons c cs ih =>
      by_cases h : c = ' ' ∨ c = '\n' ∨ c = '\t' ∨ c = '\r'
      · rw [skipBlanks, if_pos h, ih]
      · rw [skipBlanks_cons h, skipBlanks_cons h]

theorem value?_skipBlanks (fuel depth : Nat) (cs : List Char) :
    value? fuel depth (skipBlanks cs) = value? fuel depth cs := by
  cases fuel with
  | zero => rw [value?, value?]
  | succ fuel => rw [value?, value?, skipBlanks_skipBlanks]

/-- A closing bracket does not begin a value. -/
theorem value?_closing (fuel depth : Nat) (rest : List Char) :
    value? fuel depth (']' :: rest) = none := by
  cases fuel with
  | zero => rw [value?]
  | succ fuel =>
      rw [value?, skipBlanks_cons (by decide)]
      rfl

end Blanks

/-- The text of a value is read back, and what follows it is left, where values may nest
`depth` levels deep. Each step of a reader takes a character at least, so it is enough that
more steps are left than the text has characters. -/
def Legible (depth : Nat) (v : Json) : Prop :=
  ∀ fuel rest, v.compactChars.length < fuel →
    value? fuel depth (v.compactChars ++ rest) = some (v, rest)

variable {depth fuel : Nat}

theorem legible_string (depth : Nat) (s : String) : (string s).Legible depth := by
  intro fuel rest hfuel
  obtain ⟨fuel, rfl⟩ : ∃ n, fuel = n + 1 := ⟨fuel - 1, by omega⟩
  have hlength := length_quote s
  rw [compactChars] at hfuel ⊢
  rw [quote_append, value?, skipBlanks_cons (by decide)]
  simp only
  rw [stringChars?_quote (by omega)]
  simp

theorem items?_compactItems {items : List Json} (h : ∀ v ∈ items, v.Legible depth)
    (hfuel : (compactItems items).length < fuel) (rest : List Char) :
    items? fuel depth (compactItems items ++ rest) = some (items, rest) := by
  induction items generalizing fuel with
  | nil =>
      obtain ⟨fuel, rfl⟩ : ∃ n, fuel = n + 1 := ⟨fuel - 1, by omega⟩
      rw [compactItems, List.singleton_append, items?, skipBlanks_cons (by decide)]
      rfl
  | cons v items ih =>
      obtain ⟨hv, hitems⟩ := List.forall_mem_cons.1 h
      obtain ⟨fuel, rfl⟩ : ∃ n, fuel = n + 1 := ⟨fuel - 1, by omega⟩
      rw [compactItems, List.cons_append, List.length_cons, List.length_append] at hfuel
      rw [compactItems, List.cons_append, List.cons_append, List.append_assoc, items?,
        skipBlanks_cons (by decide)]
      simp only [hv fuel _ (by omega), Option.bind_eq_bind, Option.bind_some,
        ih hitems (by omega : (compactItems items).length < fuel)]

theorem member?_quote_append {v : Json} (hv : v.Legible depth) (k : String)
    (hfuel : (quote k ++ ':' :: v.compactChars).length < fuel) (rest : List Char) :
    member? fuel depth (quote k ++ ':' :: v.compactChars ++ rest) = some ((k, v), rest) := by
  obtain ⟨fuel, rfl⟩ : ∃ n, fuel = n + 1 := ⟨fuel - 1, by omega⟩
  have hlength := length_quote k
  rw [List.length_append, List.length_cons] at hfuel
  have hcolon : skipBlanks (':' :: (v.compactChars ++ rest)) = ':' :: (v.compactChars ++ rest) :=
    skipBlanks_cons (by decide) _
  rw [List.append_assoc, quote_append, member?, skipBlanks_cons (by decide)]
  simp only [List.cons_append, stringChars?_quote (by omega : k.toList.length < fuel), hcolon,
    Option.bind_eq_bind, Option.bind_some, hv fuel rest (by omega), String.ofList_toList]

theorem members?_compactMembers {members : List (String × Json)}
    (h : ∀ m ∈ members, m.2.Legible depth) (hfuel : (compactMembers members).length < fuel)
    (rest : List Char) :
    members? fuel depth (compactMembers members ++ rest) = some (members, rest) := by
  induction members generalizing fuel with
  | nil =>
      obtain ⟨fuel, rfl⟩ : ∃ n, fuel = n + 1 := ⟨fuel - 1, by omega⟩
      rw [compactMembers, List.singleton_append, members?, skipBlanks_cons (by decide)]
      rfl
  | cons m members ih =>
      obtain ⟨k, v⟩ := m
      obtain ⟨hv, hmembers⟩ : v.Legible depth ∧ ∀ m ∈ members, m.2.Legible depth :=
        List.forall_mem_cons.1 h
      obtain ⟨fuel, rfl⟩ : ∃ n, fuel = n + 1 := ⟨fuel - 1, by omega⟩
      rw [compactMembers, List.length_append, List.cons_append, List.length_cons] at hfuel
      rw [compactMembers, List.append_assoc, List.cons_append, List.cons_append, members?,
        skipBlanks_cons (by decide)]
      simp only [member?_quote_append hv k (by omega : _ < fuel), Option.bind_eq_bind,
        Option.bind_some, ih hmembers (by omega : (compactMembers members).length < fuel)]

/-- An array of legible values is legible, one level deeper. -/
theorem Legible.array {items : List Json} (h : ∀ v ∈ items, v.Legible depth) :
    (Json.array items).Legible (depth + 1) := by
  intro fuel rest hfuel
  obtain ⟨fuel, rfl⟩ : ∃ n, fuel = n + 1 := ⟨fuel - 1, by omega⟩
  cases items with
  | nil =>
      rw [compactChars, value?]
      rfl
  | cons v items =>
      obtain ⟨hv, hitems⟩ := List.forall_mem_cons.1 h
      rw [compactChars, List.cons_append, List.length_cons, List.length_append] at hfuel
      rw [compactChars, List.cons_append, List.cons_append, List.append_assoc, value?,
        skipBlanks_cons (by decide)]
      have hfirst := hv fuel (compactItems items ++ rest) (by omega)
      rw [← value?_skipBlanks] at hfirst
      simp only
      split
      · next hclosing =>
        rw [hclosing, value?_closing] at hfirst
        cases hfirst
      · simp only [hfirst, Option.bind_eq_bind, Option.bind_some,
          items?_compactItems hitems (by omega : (compactItems items).length < fuel)]

/-- An object of legible values is legible, one level deeper. -/
theorem Legible.object {members : List (String × Json)} (h : ∀ m ∈ members, m.2.Legible depth) :
    (Json.object members).Legible (depth + 1) := by
  intro fuel rest hfuel
  obtain ⟨fuel, rfl⟩ : ∃ n, fuel = n + 1 := ⟨fuel - 1, by omega⟩
  cases members with
  | nil =>
      rw [compactChars, value?]
      rfl
  | cons m members =>
      obtain ⟨k, v⟩ := m
      obtain ⟨hv, hmembers⟩ : v.Legible depth ∧ ∀ m ∈ members, m.2.Legible depth :=
        List.forall_mem_cons.1 h
      rw [compactChars, List.length_append, List.cons_append, List.length_cons] at hfuel
      rw [compactChars, List.append_assoc, List.cons_append, List.cons_append, value?,
        skipBlanks_cons (by decide)]
      have hquote : skipBlanks (quote k ++ ':' :: v.compactChars ++
          (compactMembers members ++ rest)) =
            quote k ++ ':' :: v.compactChars ++ (compactMembers members ++ rest) := by
        rw [List.append_assoc, quote_append, skipBlanks_cons (by decide)]
      simp only [hquote]
      split
      · next hclosing =>
        rw [List.append_assoc, quote_append] at hclosing
        cases hclosing
      · simp only [member?_quote_append hv k (by omega : _ < fuel), Option.bind_eq_bind,
          Option.bind_some,
          members?_compactMembers hmembers (by omega : (compactMembers members).length < fuel)]

theorem legible_strings (depth : Nat) (l : List String) : (strings l).Legible (depth + 1) :=
  .array (List.forall_mem_map.2 fun s _ => legible_string depth s)

/-- The text of a value is read as that value. -/
theorem Legible.parse?_compact {v : Json} (h : v.Legible 127) : parse? v.compact = some v := by
  have hvalue := h (v.compactChars.length + 1) [] (Nat.lt_succ_self _)
  rw [List.append_nil] at hvalue
  simp only [parse?, compact, String.toList_ofList, hvalue, Option.bind_eq_bind, Option.bind_some]
  rfl

end LayeredCatalog.Json
