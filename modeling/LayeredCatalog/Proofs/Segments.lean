import LayeredCatalog.Text.Segments
import Mathlib.Data.List.Basic

/-!
# What the segments of a text say about it

Where a slash stands, the segments of a text come apart (`Text.segments_append_slash`), and
joined at slashes they give the text back, so that a text is known by its segments
(`Text.segments_inj`). Another text therefore begins with the same segments exactly if it
is the same text or continues it at a slash (`Text.segments_prefix_iff`).
-/

namespace LayeredCatalog.Text

theorem segments_append_slash (cs cs' : List Char) :
    segments (cs ++ '/' :: cs') = segments cs ++ segments cs' := by
  induction cs with
  | nil => simp [segments]
  | cons c cs ih =>
      rw [List.cons_append, segments, segments, ih]
      by_cases hc : c = '/'
      · rw [if_pos hc, if_pos hc, List.cons_append]
      · rw [if_neg hc, if_neg hc]
        cases h : segments cs with
        | nil => exact absurd h (segments_ne_nil cs)
        | cons s ss => rfl

theorem segments_eq_singleton {cs : List Char} (h : '/' ∉ cs) : segments cs = [cs] := by
  induction cs with
  | nil => rfl
  | cons c cs ih =>
      rw [List.mem_cons, not_or] at h
      rw [segments, if_neg (Ne.symm h.1), ih h.2]

theorem intercalate_cons {s : List Char} {ss : List (List Char)} (h : ss ≠ []) :
    ['/'].intercalate (s :: ss) = s ++ '/' :: ['/'].intercalate ss := by
  obtain ⟨s', ss, rfl⟩ := List.exists_cons_of_ne_nil h
  rw [List.intercalate_cons_cons, List.append_assoc, List.singleton_append]

theorem intercalate_append {ss ss' : List (List Char)} (h : ss ≠ []) (h' : ss' ≠ []) :
    ['/'].intercalate (ss ++ ss') = ['/'].intercalate ss ++ '/' :: ['/'].intercalate ss' := by
  induction ss with
  | nil => exact absurd rfl h
  | cons s ss ih =>
      rw [List.cons_append, intercalate_cons (by simp [h'])]
      by_cases hss : ss = []
      · rw [hss, List.nil_append, List.intercalate_singleton]
      · rw [ih hss, intercalate_cons hss, List.append_assoc, List.cons_append]

/-- Joined at slashes, the segments of a text give it back. -/
theorem intercalate_segments (cs : List Char) : ['/'].intercalate (segments cs) = cs := by
  induction cs with
  | nil => rfl
  | cons c cs ih =>
      rw [segments]
      split
      · next hc => rw [intercalate_cons (segments_ne_nil cs), ih, hc, List.nil_append]
      · cases h : segments cs with
        | nil => exact absurd h (segments_ne_nil cs)
        | cons s ss =>
            rw [h] at ih
            -- The character joins the first segment, whether others follow or not.
            by_cases hss : ss = []
            · rw [hss, List.intercalate_singleton] at ih ⊢
              rw [ih]
            · rw [intercalate_cons hss] at ih ⊢
              rw [List.cons_append, ih]

theorem segments_inj {cs cs' : List Char} : segments cs = segments cs' ↔ cs = cs' := by
  constructor
  · intro h
    rw [← intercalate_segments cs, h, intercalate_segments]
  · exact congrArg segments

/-- A text begins with the segments of another one, and has more, exactly if it continues
it at a slash. -/
theorem segments_prefix_and_ne_iff {cs cs' : List Char} :
    segments cs <+: segments cs' ∧ segments cs ≠ segments cs' ↔ ∃ rest, cs' = cs ++ '/' :: rest := by
  constructor
  · rintro ⟨⟨ss, hss⟩, hne⟩
    have hmore : ss ≠ [] := by
      rintro rfl
      exact hne ((List.append_nil _).symm.trans hss)
    refine ⟨['/'].intercalate ss, ?_⟩
    rw [← intercalate_segments cs', ← hss, intercalate_append (segments_ne_nil cs) hmore,
      intercalate_segments]
  · rintro ⟨rest, rfl⟩
    rw [segments_append_slash]
    exact ⟨List.prefix_append _ _, by simp [segments_ne_nil]⟩

theorem segments_prefix_iff {cs cs' : List Char} :
    segments cs <+: segments cs' ↔ cs' = cs ∨ ∃ rest, cs' = cs ++ '/' :: rest := by
  rw [← segments_prefix_and_ne_iff]
  by_cases h : cs' = cs
  · simp [h]
  · have hne : segments cs ≠ segments cs' := fun heq => h (segments_inj.1 heq).symm
    simp [h, hne]

end LayeredCatalog.Text
