import LayeredCatalog.Path
import LayeredCatalog.Proofs.Segments

/-!
# Where a joined path leads

What a path from the root names are the steps of its text (`Path.steps`): they are the
segments between the slashes, but for empty ones and dots. A text that is joined to a
directory adds its steps to those of the directory, or it begins at the root itself and
takes their place. So it leads to an entry of the directory by one step, or by the whole
way (`Path.Leads`), and in no other way (`Path.join_parts_eq_iff`). A text that is a plain
name leads to the entry of that name (`Path.leads_of_isPlain`).
-/

namespace LayeredCatalog

namespace Path

/-- The parts that the segments of a text stand for. -/
def steps (cs : List Char) : List Part := (Text.segments cs).filterMap Part.ofSegment?

theorem steps_append_slash (cs cs' : List Char) :
    steps (cs ++ '/' :: cs') = steps cs ++ steps cs' := by
  rw [steps, Text.segments_append_slash, List.filterMap_append, steps, steps]

theorem steps_slash (cs : List Char) : steps ('/' :: cs) = steps cs := steps_append_slash [] cs

theorem ofSegment?_ne_root (cs : List Char) : Part.ofSegment? cs ≠ some .root := by
  unfold Part.ofSegment?
  split <;> simp

theorem isAbsolute_iff {p : Path} : p.isAbsolute ↔ ∃ cs, p.text.toList = '/' :: cs := by
  rw [isAbsolute, decide_eq_true_eq, List.head?_eq_some_iff]

theorem parts_of_isAbsolute {p : Path} (h : p.isAbsolute) :
    p.parts = .root :: steps p.text.toList := by
  obtain ⟨cs, hcs⟩ := isAbsolute_iff.1 h
  have hpieces : p.pieces = (Text.segments cs).map fun s => (s, Part.ofSegment? s) := by
    rw [pieces, hcs]
    rfl
  rw [parts, if_pos h, hpieces, List.filterMap_map, hcs, steps_slash]
  rfl

theorem ne_root_of_mem_pieces {p : Path} {piece : List Char × Option Part}
    (h : piece ∈ p.pieces) : piece.2 ≠ some .root := by
  have hmap : ∀ ss : List (List Char), ∀ piece ∈ ss.map fun s => (s, Part.ofSegment? s),
      piece.2 ≠ some .root := by
    intro ss piece hpiece
    obtain ⟨s, -, rfl⟩ := List.mem_map.1 hpiece
    exact ofSegment?_ne_root s
  rw [pieces] at h
  split at h
  · exact hmap _ piece h
  · split at h
    · rcases List.mem_cons.1 h with rfl | h
      · simp
      · exact hmap _ piece h
    · exact hmap _ piece h

/-- A path begins at the root exactly if the root is its first part. -/
theorem isAbsolute_iff_head? {p : Path} : p.isAbsolute ↔ p.parts.head? = some .root := by
  constructor
  · intro h
    rw [parts_of_isAbsolute h]
    rfl
  · intro h
    by_contra hrelative
    rw [parts, if_neg hrelative, List.nil_append] at h
    obtain ⟨piece, hpiece, hroot⟩ := List.mem_filterMap.1 (List.mem_of_head? h)
    exact ne_root_of_mem_pieces hpiece hroot

section Join

variable {base : Path} {s n : String}

theorem join_of_isAbsolute (hs : isAbsolute ⟨s⟩) : base.join s = ⟨s⟩ := by
  rw [join, if_pos (of_decide_eq_true hs)]

/-- What is joined stands behind a slash, which may be the last one of the directory. -/
theorem exists_join_eq (hbase : base.isAbsolute) (hs : ¬ isAbsolute ⟨s⟩) :
    ∃ cs, steps cs = steps base.text.toList ∧
      (base.join s).text.toList = cs ++ '/' :: s.toList := by
  obtain ⟨cs, hcs⟩ := isAbsolute_iff.1 hbase
  have hempty : base.text.isEmpty = false := by
    refine Bool.eq_false_iff.2 fun hempty => ?_
    rw [String.isEmpty_iff.1 hempty] at hcs
    cases hcs
  rw [join, if_neg fun h => hs (decide_eq_true h), hempty, Bool.false_or]
  split
  · next hlast =>
    obtain ⟨init, hinit⟩ := List.getLast?_eq_some_iff.1 (of_decide_eq_true hlast)
    refine ⟨init, ?_, by simp [hinit]⟩
    rw [hinit, steps_append_slash]
    exact (List.append_nil _).symm
  · exact ⟨base.text.toList, rfl, by simp⟩

theorem isAbsolute_join (hbase : base.isAbsolute) : (base.join s).isAbsolute := by
  by_cases hs : isAbsolute ⟨s⟩
  · rwa [join_of_isAbsolute hs]
  · obtain ⟨cs, hcs⟩ := isAbsolute_iff.1 hbase
    rw [isAbsolute_iff, join, if_neg fun h => hs (decide_eq_true h)]
    split
    · exact ⟨cs ++ s.toList, by simp [hcs]⟩
    · exact ⟨cs ++ '/' :: s.toList, by simp [hcs]⟩

/-- A text that does not begin at the root adds its steps to those of a directory. -/
theorem parts_join (hbase : base.isAbsolute) (hs : ¬ isAbsolute ⟨s⟩) :
    (base.join s).parts = base.parts ++ steps s.toList := by
  obtain ⟨cs, hcs, hjoin⟩ := exists_join_eq hbase hs
  rw [parts_of_isAbsolute (isAbsolute_join hbase), hjoin, steps_append_slash, hcs,
    parts_of_isAbsolute hbase, List.cons_append]

/-- A text leads from a directory to its entry `n`: by one step, or from the root by the
whole way. -/
inductive Leads (base : Path) (s n : String) : Prop
  | step (hs : ¬ isAbsolute ⟨s⟩) (h : steps s.toList = [.name n])
  | way (hs : isAbsolute ⟨s⟩) (h : parts ⟨s⟩ = base.parts ++ [.name n])

theorem parts_join_eq_iff (hbase : base.isAbsolute) :
    (base.join s).parts = base.parts ++ [.name n] ↔ base.Leads s n := by
  by_cases hs : isAbsolute ⟨s⟩
  · rw [join_of_isAbsolute hs]
    constructor
    · exact .way hs
    · intro h
      cases h with
      | step hs' _ => exact absurd hs hs'
      | way _ h => exact h
  · rw [parts_join hbase hs, List.append_cancel_left_eq]
    constructor
    · exact .step hs
    · intro h
      cases h with
      | step _ h => exact h
      | way hs' _ => exact absurd hs' hs

/-- A joined path begins at the root and is an entry of the directory exactly if the
directory begins at the root and the text leads to that entry. -/
theorem join_isEntry_iff :
    (base.join s).isAbsolute ∧ (base.join s).parts = base.parts ++ [.name n] ↔
      base.isAbsolute ∧ base.Leads s n := by
  constructor
  · rintro ⟨hjoin, hparts⟩
    have hbase : base.isAbsolute := by
      rw [isAbsolute_iff_head?, hparts] at hjoin
      rw [isAbsolute_iff_head?]
      cases hbase : base.parts with
      | nil => simp [hbase] at hjoin
      | cons part parts => simpa [hbase] using hjoin
    exact ⟨hbase, (parts_join_eq_iff hbase).1 hparts⟩
  · rintro ⟨hbase, hleads⟩
    exact ⟨isAbsolute_join hbase, (parts_join_eq_iff hbase).2 hleads⟩

end Join

/-- A text that is one segment, and neither empty nor one of the dots. -/
def IsPlain (s : String) : Prop := '/' ∉ s.toList ∧ s ≠ "" ∧ s ≠ "." ∧ s ≠ ".."

instance : DecidablePred IsPlain := fun _ => inferInstanceAs (Decidable (_ ∧ _))

theorem steps_of_isPlain {s : String} (h : IsPlain s) : steps s.toList = [.name s] := by
  obtain ⟨hslash, hempty, hdot, hdots⟩ := h
  have hpart : Part.ofSegment? s.toList = some (.name s) := by
    unfold Part.ofSegment?
    split
    · next hs => exact absurd (String.toList_inj.1 hs) hempty
    · next hs => exact absurd (String.toList_inj.1 hs) hdot
    · next hs => exact absurd (String.toList_inj.1 hs) hdots
    · rw [String.ofList_toList]
  rw [steps, Text.segments_eq_singleton hslash]
  simp [hpart]

/-- A plain name leads to the entry of that name. -/
theorem leads_iff_of_isPlain {base : Path} {s n : String} (h : IsPlain s) :
    base.Leads s n ↔ n = s := by
  have hrelative : ¬ isAbsolute ⟨s⟩ := by
    rw [isAbsolute_iff]
    rintro ⟨cs, hcs⟩
    exact h.1 (hcs ▸ List.mem_cons_self)
  constructor
  · intro hleads
    cases hleads with
    | step _ hsteps => simpa [steps_of_isPlain h, eq_comm] using hsteps
    | way hs _ => exact absurd hs hrelative
  · rintro rfl
    exact .step hrelative (steps_of_isPlain h)

end Path

end LayeredCatalog
