import LayeredCatalog.Proofs.Patch

/-!
# Patches that are told to add

The builders that add to a list of a patch change the stored edit. Afterwards the patch does
what it did before and then appends the new items (`Patch.Changes.addTo`). An edit that does
not say how to merge is the exception: it is forgotten, with the items it lists, and the patch
no longer fails because of it. So a call to a builder adds to a patch exactly if the patch
does not fail because of that very list (`Patch.apply_addTo`).
-/

namespace LayeredCatalog

universe u

/-- A search does not miss what it would not have found first. -/
theorem find?_and_ne {α : Type u} [DecidableEq α] {l : List α} {q : α → Bool} {a : α}
    (h : l.find? q ≠ some a) : l.find? (fun x => q x && decide (x ≠ a)) = l.find? q := by
  induction l with
  | nil => rfl
  | cons x l ih =>
      by_cases hx : q x = true
      · rw [List.find?_cons_of_pos hx] at h ⊢
        have hne : x ≠ a := fun hxa => h (congrArg some hxa)
        exact List.find?_cons_of_pos (by simp [hx, hne])
      · rw [List.find?_cons_of_neg hx] at h ⊢
        rw [List.find?_cons_of_neg (by simp [hx])]
        exact ih h

/-- Appending what is missing takes one list after the other, whether or not the two are put
together before. -/
theorem addAllNew_addAllNew (l items more : List String) :
    addAllNew l (addAllNew items more) = addAllNew (addAllNew l items) more := by
  induction more generalizing items with
  | nil => rfl
  | cons x more ih =>
      rw [addAllNew_cons, addAllNew_cons, ih]
      congr 1
      by_cases hx : x ∈ items
      · rw [addNew, if_pos hx, addNew, if_pos (mem_addAllNew.2 (.inr hx))]
      · rw [addNew, if_neg hx, addAllNew_append]
        rfl

/-- What is appended is what the list lacks, in order and each item once. -/
theorem addAllNew_eq_append (l items : List String) :
    addAllNew l items = l ++ (items.filter (· ∉ l)).eraseDups := by
  induction items generalizing l with
  | nil => simp
  | cons x items ih =>
      rw [addAllNew_cons, ih, addNew]
      by_cases hx : x ∈ l
      · rw [if_pos hx, List.filter_cons_of_neg (by simpa using hx)]
      · have hfilter : items.filter (· ∉ l ++ [x]) =
            (items.filter (· ∉ l)).filter (fun y => !y == x) := by
          rw [List.filter_filter]
          refine List.filter_congr fun y _ => ?_
          by_cases hy : y = x
          · simp [hy]
          · simp [hy]
        rw [if_neg hx, List.filter_cons_of_pos (by simpa using hx), List.eraseDups_cons, hfilter,
          List.append_assoc, List.singleton_append]

theorem addAllNew_nil_left (items : List String) : addAllNew [] items = items.eraseDups := by
  rw [addAllNew_eq_append, List.nil_append, List.filter_eq_self.2 (by simp)]

theorem addAllNew_of_subset {l items : List String} (h : items ⊆ l) : addAllNew l items = l := by
  rw [addAllNew_eq_append, List.filter_eq_nil_iff.2 fun x hx => by simpa using h hx,
    List.eraseDups_nil, List.append_nil]

namespace ListEdit

theorem appliedTo?_extend {edit : ListEdit} (h : ¬ edit.isUnannotated) (items old : List String) :
    (edit.extend items).appliedTo? old = (edit.appliedTo? old).map (addAllNew · items) := by
  cases edit with
  | keep => rfl
  | union existing => exact congrArg some (addAllNew_addAllNew old existing items)
  | replace existing => exact congrArg some (addAllNew_addAllNew [] existing items)
  | unannotated listed => exact absurd rfl h

/-- Told to add, an edit that does not say how to merge forgets what it lists. -/
theorem extend_eq_union {edit : ListEdit} (h : edit.isUnannotated) (items : List String) :
    edit.extend items = .union items := by
  cases edit with
  | unannotated listed => rfl
  | keep => cases h
  | union existing => cases h
  | replace existing => cases h

theorem not_isUnannotated_extend (edit : ListEdit) (items : List String) :
    ¬ (edit.extend items).isUnannotated := by
  cases edit with
  | keep => exact Bool.false_ne_true
  | union existing => exact Bool.false_ne_true
  | replace existing => exact Bool.false_ne_true
  | unannotated listed => exact Bool.false_ne_true

end ListEdit

namespace Component

/-- Appends to a list, in order, the items that it does not have yet. -/
def addTo (c : Component) (field : ListField) (items : List String) : Component :=
  match field with
  | .patches => { c with patches := addAllNew c.patches items }
  | .excludedTests => { c with excludedTests := addAllNew c.excludedTests items }
  | .postBuild => { c with postBuild := addAllNew c.postBuild items }

theorem list_addTo (c : Component) (field : ListField) (items : List String) (field' : ListField) :
    (c.addTo field items).list field' =
      if field' = field then addAllNew (c.list field') items else c.list field' := by
  cases field <;> cases field' <;> rfl

end Component

namespace Patch

variable {p : Patch} {field : ListField}

/-- The builder that adds to a list. -/
def addTo (p : Patch) (field : ListField) (items : List String) : Patch :=
  match field with
  | .patches => p.addPatches items
  | .excludedTests => p.excludeTests items
  | .postBuild => p.addPostBuild items

theorem edit_addTo (p : Patch) (field : ListField) (items : List String) (field' : ListField) :
    (p.addTo field items).edit field' =
      if field' = field then (p.edit field').extend items else p.edit field' := by
  cases field <;> cases field' <;> rfl

theorem isUnannotated_edit_addTo (p : Patch) (field : ListField) (items : List String)
    (field' : ListField) : ((p.addTo field items).edit field').isUnannotated =
      ((p.edit field').isUnannotated && decide (field' ≠ field)) := by
  rw [edit_addTo]
  split
  · next h => simp [h, ListEdit.not_isUnannotated_extend]
  · next h => simp [h]

/-- A patch that does not fail because of a list fails as before, if at all, once it is told to
add to that list. -/
theorem firstUnannotated?_addTo (h : p.firstUnannotated? ≠ some field) (items : List String) :
    (p.addTo field items).firstUnannotated? = p.firstUnannotated? := by
  rw [firstUnannotated?_eq_find?] at h
  rw [firstUnannotated?_eq_find?, firstUnannotated?_eq_find?, ← find?_and_ne h]
  exact congrArg ListField.all.find? (funext (isUnannotated_edit_addTo p field items))

theorem Changes.addTo {old new : Component} (h : p.Changes old new) (field : ListField)
    (items : List String) : (p.addTo field items).Changes old (new.addTo field items) where
  name := by cases field <;> exact h.name
  version := by cases field <;> exact h.version
  builder := by cases field <;> exact h.builder
  inputs := by cases field <;> exact h.inputs
  params := by cases field <;> exact h.params
  list field' := by
    have hlist := h.list field'
    rw [edit_addTo, Component.list_addTo]
    split
    · rw [ListEdit.appliedTo?_extend (ListEdit.not_isUnannotated hlist), hlist]
      rfl
    · exact hlist

theorem apply_addTo_of_ne (h : p.firstUnannotated? ≠ some field) (items : List String)
    (c : Component) : (p.addTo field items).apply c = (p.apply c).map (·.addTo field items) := by
  cases happly : p.apply c with
  | error field' =>
      refine apply_eq_error_iff.2 ?_
      rw [firstUnannotated?_addTo h, apply_eq_error_iff.1 happly]
  | ok new => exact apply_eq_ok_iff.2 ((apply_eq_ok_iff.1 happly).addTo field items)

/-- The patch without an edit of the list that does not say how to merge. -/
def withoutBare (p : Patch) (field : ListField) : Patch :=
  if (p.edit field).isUnannotated then p.setList field .keep else p

theorem not_isUnannotated_withoutBare (p : Patch) (field : ListField) :
    ¬ ((p.withoutBare field).edit field).isUnannotated := by
  rw [withoutBare]
  split
  · cases field <;> exact Bool.false_ne_true
  · next h => exact h

theorem addTo_withoutBare (p : Patch) (field : ListField) (items : List String) :
    (p.withoutBare field).addTo field items = p.addTo field items := by
  rw [withoutBare]
  split
  · next h =>
    have hextend : (p.edit field).extend items = .union items := ListEdit.extend_eq_union h items
    cases field with
    | patches => exact congrArg (fun edit => { p with patches := edit }) hextend.symm
    | excludedTests => exact congrArg (fun edit => { p with excludedTests := edit }) hextend.symm
    | postBuild => exact congrArg (fun edit => { p with postBuild := edit }) hextend.symm
  · rfl

/-- A patch that is told to add to a list does what it did without a bare list there, and then
appends the new items. This is what the patch itself did, and then the new items, exactly if
the patch does not fail because of a bare list there. -/
theorem apply_addTo (p : Patch) (field : ListField) (items : List String) (c : Component) :
    (p.addTo field items).apply c = ((p.withoutBare field).apply c).map (·.addTo field items) ∧
    ((p.addTo field items).apply c = (p.apply c).map (·.addTo field items) ↔
      p.firstUnannotated? ≠ some field) := by
  refine ⟨?_, ?_, fun h => apply_addTo_of_ne h items c⟩
  · rw [← addTo_withoutBare]
    refine apply_addTo_of_ne (fun h => ?_) items c
    exact not_isUnannotated_withoutBare p field (isUnannotated_of_firstUnannotated? h)
  · intro h hfirst
    rw [apply_eq_error_iff.2 hfirst] at h
    have hbare := isUnannotated_of_firstUnannotated? (apply_eq_error_iff.1 h)
    rw [isUnannotated_edit_addTo] at hbare
    simp at hbare

/-- A bare list of patches. -/
def bareList : Patch := { patches := .unannotated ["d"] }

/-- A component without lists, to apply it to. -/
def bareBase : Component := { name := "e", version := "1", builder := "b" }

/-- A bare list cannot be applied. Told to add another item, it can, and what it listed is
gone, so the call to the builder did not add to what the patch does. -/
theorem apply_addPatches_bareList :
    bareList.apply bareBase = .error .patches ∧
    (bareList.addPatches ["c"]).apply bareBase = .ok { bareBase with patches := ["c"] } ∧
    (bareList.addPatches ["c"]).apply bareBase ≠
      (bareList.apply bareBase).map (·.addTo .patches ["c"]) := by
  have hbare : bareList.apply bareBase = .error .patches := rfl
  have hadded : (bareList.addPatches ["c"]).apply bareBase =
      .ok { bareBase with patches := ["c"] } := rfl
  refine ⟨hbare, hadded, ?_⟩
  rw [hbare, hadded]
  exact nofun

end Patch

end LayeredCatalog
