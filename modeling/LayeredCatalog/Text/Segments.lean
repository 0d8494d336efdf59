/-!
# Segments between slashes

A text is cut at every slash. A text without slashes is its own one segment, and
each slash adds one, so a trailing slash leaves an empty segment at the end.
-/

namespace LayeredCatalog.Text

/-- The pieces of a text between its slashes. -/
def segments : List Char → List (List Char)
  | [] => [[]]
  | c :: cs =>
    if c = '/' then [] :: segments cs
    else match segments cs with
      | [] => [[c]]
      | s :: ss => (c :: s) :: ss

theorem segments_ne_nil (cs : List Char) : segments cs ≠ [] := by
  induction cs with
  | nil => simp [segments]
  | cons c cs ih =>
    rw [segments]
    split
    · simp
    · split <;> simp

end LayeredCatalog.Text
