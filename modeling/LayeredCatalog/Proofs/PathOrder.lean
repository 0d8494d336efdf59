import LayeredCatalog.Path
import LayeredCatalog.Proofs.ByteOrder

/-!
# The order of paths

Tables that have paths for keys hold them in the order of their parts. The root comes
first, then a dot, two dots and the names, and names come in the order of their bytes. Of two
paths the one comes first whose part does where they first differ, or which ends there
(`Path.compare_parts_eq_lt_iff`).
-/

namespace LayeredCatalog

/-- To compare lists item by item is to order them as words. -/
theorem compareLex_eq_lt_iff {α : Type*} {cmp : α → α → Ordering} [Std.LawfulEqCmp cmp]
    {l m : List α} : List.compareLex cmp l m = .lt ↔ List.Lex (cmp · · = .lt) l m := by
  induction l generalizing m with
  | nil =>
      cases m with
      | nil => simp [List.compareLex]
      | cons b m => simp [List.compareLex]
  | cons a l ih =>
      cases m with
      | nil => simp [List.compareLex]
      | cons b m =>
          rw [List.compareLex_cons_cons, Ordering.then_eq_lt, Std.LawfulEqCmp.compare_eq_iff_eq,
            ih, List.cons_lex_cons_iff]

namespace Path

namespace Part

/-- The place of a part among the kinds of parts. -/
def rank : Part → Nat
  | .root => 0
  | .current => 1
  | .parent => 2
  | .name _ => 3

/-- One part comes before another: its kind does, or both are names and the bytes of the
first one come first. -/
inductive Before : Part → Part → Prop
  | kind {a b : Part} (h : a.rank < b.rank) : Before a b
  | name {s t : String} (h : utf8 s < utf8 t) : Before (.name s) (.name t)

/-- What the text that orders parts begins with. -/
def digit : Part → Char
  | .root => '0'
  | .current => '1'
  | .parent => '2'
  | .name _ => '3'

def letters : Part → List Char
  | .root | .current | .parent => []
  | .name s => s.toList

theorem toList_key (a : Part) : a.key.toList = a.digit :: a.letters := by
  cases a with
  | name s => rw [key, String.toList_append]; rfl
  | root => rfl
  | current => rfl
  | parent => rfl

theorem digit_lt_iff {a b : Part} : a.digit < b.digit ↔ a.rank < b.rank := by
  cases a <;> cases b <;> simp only [digit, rank] <;> decide

theorem compare_eq_lt_iff {a b : Part} : compare a b = .lt ↔ Before a b := by
  have hkey : compare a b = .lt ↔ a.rank < b.rank ∨ a.digit = b.digit ∧ a.letters < b.letters := by
    rw [← digit_lt_iff, ← List.cons_lt_cons_iff, ← toList_key, ← toList_key, ← String.lt_iff]
    exact compare_lt_iff_lt (a := a.key)
  rw [hkey]
  constructor
  · rintro (h | ⟨hdigit, h⟩)
    · exact .kind h
    · -- Of the parts of one kind only names have letters.
      cases a <;> cases b <;> simp [digit, letters] at hdigit h
      exact .name (utf8_lt_utf8_iff.2 (String.lt_iff.2 h))
  · intro h
    cases h with
    | kind h => exact .inl h
    | name h => exact .inr ⟨rfl, String.lt_iff.1 (utf8_lt_utf8_iff.1 h)⟩

end Part

/-- One path comes before another: its parts do, read as a word. -/
def Before (p q : Path) : Prop := List.Lex Part.Before p.parts q.parts

theorem compare_parts_eq_lt_iff {p q : Path} : compare p.parts q.parts = .lt ↔ p.Before q := by
  have hpart : (fun a b : Part => compare a b = .lt) = Part.Before := by
    funext a b
    exact propext Part.compare_eq_lt_iff
  rw [Before, ← hpart]
  exact compareLex_eq_lt_iff

end Path

end LayeredCatalog
