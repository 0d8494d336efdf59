/-!
# Fixed beginnings and ASCII case

A text is taken apart at a fixed beginning, and letters change case within ASCII
only.
-/

namespace LayeredCatalog.Text

/-- What follows `p` in `s`, if `s` begins with `p`. -/
def afterPrefix? : (p s : List Char) → Option (List Char)
  | [], s => some s
  | _ :: _, [] => none
  | a :: p, c :: s => if a = c then afterPrefix? p s else none

theorem afterPrefix?_eq_some_iff {p s r : List Char} :
    afterPrefix? p s = some r ↔ s = p ++ r := by
  induction p generalizing s with
  | nil => simp [afterPrefix?, eq_comm]
  | cons a p ih =>
    cases s with
    | nil => simp [afterPrefix?]
    | cons c s =>
      by_cases h : a = c
      · simp [afterPrefix?, h, ih]
      · simp [afterPrefix?, h, Ne.symm h]

@[simp] theorem afterPrefix?_append (p r : List Char) : afterPrefix? p (p ++ r) = some r :=
  afterPrefix?_eq_some_iff.2 rfl

/-- The text with the capital letters of ASCII made small. -/
def lower (s : String) : String := String.ofList (s.toList.map Char.toLower)

/-- The text with the small letters of ASCII made capital. -/
def upper (s : String) : String := String.ofList (s.toList.map Char.toUpper)

end LayeredCatalog.Text
