import LayeredCatalog.Table
import Mathlib.Data.String.Basic
import Mathlib.Tactic.Common

/-!
# The order of texts is the order of their bytes

Texts are compared by their characters, and tables keep text keys in that order.
UTF-8 is made so that comparing the bytes of two texts gives the same result
(`utf8_le_utf8_iff`): of two characters the greater one has no fewer bytes, and the
first byte that differs is the greater one. So the keys of a table are sorted by their
bytes as well (`Table.pairwise_keys_utf8`).
-/

namespace LayeredCatalog

/-- The bytes of a text. -/
def utf8 (s : String) : List UInt8 := s.toUTF8.data.toList

theorem utf8_eq_flatMap (s : String) : utf8 s = s.toList.flatMap String.utf8EncodeChar := by
  have hbytes : s.toUTF8 = (s.toList.flatMap String.utf8EncodeChar).toByteArray :=
    String.utf8Encode_toList.symm
  rw [utf8, hbytes, List.data_toByteArray]

/-- Texts with the same bytes are the same. -/
theorem utf8_inj {s t : String} : utf8 s = utf8 t ↔ s = t := by
  rw [utf8, utf8, Array.toList_inj, ← ByteArray.ext_iff]
  exact String.toByteArray_inj

theorem toList_loop_eq (b : ByteArray) (i : Nat) (r : List UInt8) :
    ByteArray.toList.loop b i r = r.reverse ++ b.data.toList.drop i := by
  fun_induction ByteArray.toList.loop b i r with
  | case1 i r hi ih =>
      have hdrop : b.data.toList.drop i = b.get! i :: b.data.toList.drop (i + 1) := by
        rw [List.drop_eq_getElem_cons (by simpa using hi)]
        congr
        simp [ByteArray.get!, hi]
      rw [ih, hdrop, List.reverse_cons, List.append_assoc, List.singleton_append]
  | case2 i r hi => rw [List.drop_eq_nil_of_le (by simpa using hi), List.append_nil]

theorem toList_toUTF8 (s : String) : s.toUTF8.toList = utf8 s := by
  rw [ByteArray.toList, toList_loop_eq]
  rfl

theorem cons_ofNat_lt {x y : Nat} {u v : List UInt8} (hy : y < 256)
    (h : x < y ∨ x = y ∧ u < v) : UInt8.ofNat x :: u < UInt8.ofNat y :: v := by
  rw [List.cons_lt_cons_iff]
  rcases h with hlt | ⟨rfl, htail⟩
  · left
    rw [UInt8.lt_iff_toNat_lt, UInt8.toNat_ofNat', UInt8.toNat_ofNat']
    omega
  · exact .inr ⟨rfl, htail⟩

/-- The bytes of a smaller character come before those of a greater one, whatever
follows. -/
theorem utf8EncodeChar_append_lt {c d : Char} (h : c < d) (u v : List UInt8) :
    String.utf8EncodeChar c ++ u < String.utf8EncodeChar d ++ v := by
  have hcd : c.val.toNat < d.val.toNat := h
  have hd : d.val.toNat < 1114112 := by
    rcases d.valid with hlow | hhigh
    · omega
    · exact hhigh.2
  unfold String.utf8EncodeChar
  generalize c.val.toNat = m at hcd
  generalize d.val.toNat = n at hcd hd
  -- Each byte after the first holds one digit to the base 64.
  have hlast : m / 64 < n / 64 ∨ m / 64 = n / 64 ∧ m % 64 < n % 64 := by omega
  have hmiddle : m / 64 < n / 64 →
      m / 4096 < n / 4096 ∨ m / 4096 = n / 4096 ∧ m / 64 % 64 < n / 64 % 64 := by omega
  have hsecond : m / 4096 < n / 4096 →
      m / 262144 < n / 262144 ∨
        m / 262144 = n / 262144 ∧ m / 4096 % 64 < n / 4096 % 64 := by omega
  dsimp only
  by_cases hm₁ : m ≤ 127
  · rw [if_pos hm₁]
    split_ifs
    · exact cons_ofNat_lt (by omega) (.inl hcd)
    · exact cons_ofNat_lt (by omega) (.inl (by omega))
    · exact cons_ofNat_lt (by omega) (.inl (by omega))
    · exact cons_ofNat_lt (by omega) (.inl (by omega))
  rw [if_neg hm₁, if_neg (by omega : ¬ n ≤ 127)]
  by_cases hm₂ : m ≤ 2047
  · rw [if_pos hm₂]
    split_ifs
    · refine cons_ofNat_lt (by omega) ?_
      rcases hlast with hlt | ⟨heq, hlt⟩
      · exact .inl (by omega)
      · exact .inr ⟨by omega, cons_ofNat_lt (by omega) (.inl (by omega))⟩
    · exact cons_ofNat_lt (by omega) (.inl (by omega))
    · exact cons_ofNat_lt (by omega) (.inl (by omega))
  rw [if_neg hm₂, if_neg (by omega : ¬ n ≤ 2047)]
  by_cases hm₃ : m ≤ 65535
  · rw [if_pos hm₃]
    split_ifs
    · refine cons_ofNat_lt (by omega) ?_
      rcases hlast with hlt | ⟨heq, hlt⟩
      · rcases hmiddle hlt with hlt | ⟨heq, hlt⟩
        · exact .inl (by omega)
        · exact .inr ⟨by omega, cons_ofNat_lt (by omega) (.inl (by omega))⟩
      · refine .inr ⟨by omega, cons_ofNat_lt (by omega) (.inr ⟨by omega, ?_⟩)⟩
        exact cons_ofNat_lt (by omega) (.inl (by omega))
    · exact cons_ofNat_lt (by omega) (.inl (by omega))
  rw [if_neg hm₃, if_neg (by omega : ¬ n ≤ 65535)]
  refine cons_ofNat_lt (by omega) ?_
  rcases hlast with hlt | ⟨heq, hlt⟩
  · rcases hmiddle hlt with hlt | ⟨heq, hlt⟩
    · rcases hsecond hlt with hlt | ⟨heq, hlt⟩
      · exact .inl (by omega)
      · exact .inr ⟨by omega, cons_ofNat_lt (by omega) (.inl (by omega))⟩
    · refine .inr ⟨by omega, cons_ofNat_lt (by omega) (.inr ⟨by omega, ?_⟩)⟩
      exact cons_ofNat_lt (by omega) (.inl (by omega))
  · refine .inr ⟨by omega, cons_ofNat_lt (by omega) (.inr ⟨by omega, ?_⟩)⟩
    refine cons_ofNat_lt (by omega) (.inr ⟨by omega, ?_⟩)
    exact cons_ofNat_lt (by omega) (.inl (by omega))

theorem flatMap_utf8EncodeChar_lt {l l' : List Char} (h : l < l') :
    l.flatMap String.utf8EncodeChar < l'.flatMap String.utf8EncodeChar := by
  induction h with
  | @nil c l' =>
      rw [List.flatMap_nil, List.flatMap_cons]
      cases hc : String.utf8EncodeChar c with
      | nil => exact absurd hc String.utf8EncodeChar_ne_nil
      | cons x r => exact List.nil_lt_cons x _
  | rel hcd => exact utf8EncodeChar_append_lt hcd _ _
  | cons _ ih => exact List.append_left_lt ih

/-- Two texts compare as their bytes do. -/
theorem utf8_le_utf8_iff {s t : String} : utf8 s ≤ utf8 t ↔ s ≤ t := by
  have hlt {s t : String} (h : s < t) : utf8 s < utf8 t := by
    rw [utf8_eq_flatMap, utf8_eq_flatMap]
    exact flatMap_utf8EncodeChar_lt (String.lt_iff.1 h)
  constructor
  · intro h
    by_contra hts
    exact h (hlt (not_le.1 hts))
  · intro h
    rcases h.eq_or_lt with rfl | h
    · exact List.le_refl _
    · exact List.le_of_lt (hlt h)

theorem utf8_lt_utf8_iff {s t : String} : utf8 s < utf8 t ↔ s < t := by
  rw [← not_le, ← utf8_le_utf8_iff]
  exact not_not.symm

/-- The keys of a table increase in the order of their bytes. -/
theorem Table.pairwise_keys_utf8 {α : Type*} (t : Table String α) :
    t.keys.Pairwise fun a b => utf8 a < utf8 b := by
  rw [Table.keys, List.pairwise_map]
  exact t.sorted.imp fun h => utf8_lt_utf8_iff.2 (compare_lt_iff_lt.1 h)

end LayeredCatalog
