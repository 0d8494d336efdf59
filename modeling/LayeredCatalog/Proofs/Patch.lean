import LayeredCatalog.Patch

/-!
# Which patches cannot be applied, and what the others do to lists

Whether a patch can be applied does not depend on the component. It fails exactly if
one of its list edits does not say how to merge, and then names the first such list
in the order of the fields (`Patch.apply_eq_error_iff`). Otherwise each list of the
component is edited on its own, and so is each other field (`Patch.apply_eq_ok_iff`).
-/

namespace LayeredCatalog

namespace ListEdit

/-- Whether an edit brings a list without a word on how to merge it. -/
def isUnannotated : ListEdit → Bool
  | .unannotated _ => true
  | _ => false

theorem appliedTo?_eq_none_iff {edit : ListEdit} {old : List String} :
    edit.appliedTo? old = none ↔ edit.isUnannotated := by
  cases edit with
  | keep => simp [appliedTo?, isUnannotated]
  | union items => simp [appliedTo?, isUnannotated]
  | replace items => simp [appliedTo?, isUnannotated]
  | unannotated items => simp [appliedTo?, isUnannotated]

theorem not_isUnannotated {edit : ListEdit} {old new : List String}
    (h : edit.appliedTo? old = some new) : ¬ edit.isUnannotated := by
  intro hedit
  cases h.symm.trans (appliedTo?_eq_none_iff.2 hedit)

/-- Whether an edit keeps what the list has. -/
def IsAdditive (edit : ListEdit) : Prop := edit = .keep ∨ ∃ items, edit = .union items

/-- The items that an edit adds to what the list has. -/
def added : ListEdit → List String
  | .union items => items
  | _ => []

theorem IsAdditive.appliedTo?_eq {edit : ListEdit} (h : edit.IsAdditive) (old : List String) :
    edit.appliedTo? old = some (addAllNew old edit.added) := by
  rcases h with rfl | ⟨items, rfl⟩
  · rfl
  · rfl

end ListEdit

/-- A list of a component. -/
def Component.list (c : Component) : ListField → List String
  | .patches => c.patches
  | .excludedTests => c.excludedTests
  | .postBuild => c.postBuild

/-- The list fields, in the order in which a patch is applied. -/
def ListField.all : List ListField := [.patches, .excludedTests, .postBuild]

namespace Patch

/-- The edit of a list. -/
def edit (p : Patch) : ListField → ListEdit
  | .patches => p.patches
  | .excludedTests => p.excludedTests
  | .postBuild => p.postBuild

/-- What the patch makes of a component: what it sets takes the place of the old, its inputs
and parameters go over the old ones, and each list is edited on its own. -/
structure Changes (p : Patch) (old new : Component) : Prop where
  name : new.name = old.name
  version : new.version = p.version.getD old.version
  builder : new.builder = p.builder.getD old.builder
  inputs : new.inputs = old.inputs.insertMany p.inputs.toList
  params : new.params = old.params.insertMany p.params.toList
  list : ∀ field, (p.edit field).appliedTo? (old.list field) = some (new.list field)

theorem apply_eq_ok_iff {p : Patch} {old new : Component} :
    p.apply old = .ok new ↔ p.Changes old new := by
  constructor
  · intro h
    rw [apply] at h
    split at h
    · cases h
    · next hpatches =>
      split at h
      · cases h
      · next hexcluded =>
        split at h
        · cases h
        · next hsteps =>
          cases h
          refine ⟨rfl, rfl, rfl, rfl, rfl, fun field => ?_⟩
          cases field with
          | patches => exact hpatches
          | excludedTests => exact hexcluded
          | postBuild => exact hsteps
  · intro h
    have hpatches : p.patches.appliedTo? old.patches = some new.patches := h.list .patches
    have hexcluded : p.excludedTests.appliedTo? old.excludedTests = some new.excludedTests :=
      h.list .excludedTests
    have hsteps : p.postBuild.appliedTo? old.postBuild = some new.postBuild := h.list .postBuild
    rw [apply, hpatches, hexcluded, hsteps, ← h.name, ← h.version, ← h.builder, ← h.inputs,
      ← h.params]

/-- A list of the patched component is the edited list of the old one. -/
theorem appliedTo?_list {p : Patch} {old new : Component} (h : p.apply old = .ok new)
    (field : ListField) : (p.edit field).appliedTo? (old.list field) = some (new.list field) :=
  (apply_eq_ok_iff.1 h).list field

/-- The inputs of the patched component are the old ones with those of the patch over them. -/
theorem inputs_of_apply {p : Patch} {old new : Component} (h : p.apply old = .ok new) :
    new.inputs = old.inputs.insertMany p.inputs.toList :=
  (apply_eq_ok_iff.1 h).inputs

/-- The edits of the list fields, in the order of the fields. -/
def edits (p : Patch) : List (ListField × ListEdit) :=
  [(.patches, p.patches), (.excludedTests, p.excludedTests), (.postBuild, p.postBuild)]

/-- The first list field whose edit does not say how to merge. -/
def firstUnannotated? (p : Patch) : Option ListField :=
  (p.edits.find? (·.2.isUnannotated)).map Prod.fst

theorem firstUnannotated?_eq_find? (p : Patch) :
    p.firstUnannotated? = ListField.all.find? fun field => (p.edit field).isUnannotated := by
  have hedits : p.edits = ListField.all.map fun field => (field, p.edit field) := rfl
  rw [firstUnannotated?, hedits, List.find?_map, Option.map_map]
  exact Option.map_id_apply

theorem isUnannotated_of_firstUnannotated? {p : Patch} {field : ListField}
    (h : p.firstUnannotated? = some field) : (p.edit field).isUnannotated := by
  rw [firstUnannotated?_eq_find?] at h
  have hfield := List.find?_some h
  exact hfield

theorem firstUnannotated?_eq (p : Patch) :
    p.firstUnannotated? =
      if p.patches.isUnannotated then some .patches
      else if p.excludedTests.isUnannotated then some .excludedTests
      else if p.postBuild.isUnannotated then some .postBuild
      else none := by
  rw [firstUnannotated?, edits, List.find?_cons, List.find?_cons, List.find?_cons, List.find?_nil]
  split
  · next h => simp [h]
  · next h =>
    split
    · next h' => simp [h, h']
    · next h' =>
      split
      · next h'' => simp [h, h', h'']
      · next h'' => simp [h, h', h'']

theorem apply_eq_error_iff {p : Patch} {old : Component} {field : ListField} :
    p.apply old = .error field ↔ p.firstUnannotated? = some field := by
  rw [firstUnannotated?_eq, apply]
  split
  · next h => simp [ListEdit.appliedTo?_eq_none_iff.1 h]
  · next h =>
    rw [if_neg (ListEdit.not_isUnannotated h)]
    split
    · next h => simp [ListEdit.appliedTo?_eq_none_iff.1 h]
    · next h =>
      rw [if_neg (ListEdit.not_isUnannotated h)]
      split
      · next h => simp [ListEdit.appliedTo?_eq_none_iff.1 h]
      · next h => simp [ListEdit.not_isUnannotated h]

end Patch

end LayeredCatalog
