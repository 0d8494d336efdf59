import LayeredCatalog.Proofs.Patch.Additions
import LayeredCatalog.Proofs.Table

/-!
# What a patch leaves alone

Applied to what it has made of a component, a patch makes no further difference
(`Patch.Changes.again`): the entries that it brings are there, and so are the items that it
adds. The rest of the component does not matter to any of this. A patch reads no field to
change another one, and within a table it changes only the entries under its own keys. So
whether a patch can be applied, what it does twice and what it does to each field can be said
together, for every patch and every component (`Patch.apply_idempotent_local`).
-/

namespace LayeredCatalog

universe u

/-- An edit makes no difference to the list that it has made. -/
theorem ListEdit.appliedTo?_again {edit : ListEdit} {old new : List String}
    (h : edit.appliedTo? old = some new) : edit.appliedTo? new = some new := by
  cases edit with
  | keep => rfl
  | union items =>
      obtain rfl := Option.some.inj h
      refine congrArg some (addAllNew_of_subset fun x hx => ?_)
      exact mem_addAllNew.2 (.inr hx)
  | replace items => exact h
  | unannotated items => cases h

/-- What may be replaced stays, or is what replaces it. -/
theorem getD_eq_or {α : Type u} (o : Option α) (a : α) :
    o.getD a = a ∨ o = some (o.getD a) := by
  cases o with
  | none => exact .inl rfl
  | some b => exact .inr rfl

namespace Patch

variable {p : Patch} {c c' old new : Component}

/-- A patch makes no difference to what it has made. -/
theorem Changes.again (h : p.Changes old new) : p.Changes new new where
  name := rfl
  version := by
    rw [h.version]
    cases p.version <;> rfl
  builder := by
    rw [h.builder]
    cases p.builder <;> rfl
  inputs := by rw [h.inputs, Table.insertMany_toList_twice]
  params := by rw [h.params, Table.insertMany_toList_twice]
  list field := ListEdit.appliedTo?_again (h.list field)

/-- How a patch makes one component into another: each field of the new one comes from the same
field of the old one and what the patch says about it. -/
structure IsLocal (p : Patch) (old new : Component) : Prop where
  name : new.name = old.name
  version : new.version = old.version ∨ p.version = some new.version
  version_set : ∀ v, p.version = some v → new.version = v
  builder : new.builder = old.builder ∨ p.builder = some new.builder
  builder_set : ∀ b, p.builder = some b → new.builder = b
  inputs : Table.IsOver p.inputs old.inputs new.inputs
  params : Table.IsOver p.params old.params new.params
  /-- Another patch with the same edit makes the same of an equal list, whatever else the patches
  and the components have. -/
  list : ∀ field (q : Patch) (c c' : Component), q.apply c = .ok c' → q.edit field = p.edit field →
    c.list field = old.list field → c'.list field = new.list field

theorem Changes.isLocal (h : p.Changes old new) : p.IsLocal old new where
  name := h.name
  version := by
    rw [h.version]
    exact getD_eq_or p.version old.version
  version_set v hv := by rw [h.version, hv, Option.getD_some]
  builder := by
    rw [h.builder]
    exact getD_eq_or p.builder old.builder
  builder_set b hb := by rw [h.builder, hb, Option.getD_some]
  inputs := by
    rw [h.inputs]
    exact Table.isOver_insertMany old.inputs p.inputs
  params := by
    rw [h.params]
    exact Table.isOver_insertMany old.params p.params
  list field q c c' hq hedit hlist := by
    have hnew := h.list field
    rw [← hedit, ← hlist, appliedTo?_list hq field] at hnew
    exact Option.some.inj hnew

theorem exists_apply_eq_error_iff :
    (∃ field, p.apply c = .error field) ↔ ∃ field, (p.edit field).isUnannotated := by
  simp only [apply_eq_error_iff]
  constructor
  · rintro ⟨field, h⟩
    exact ⟨field, isUnannotated_of_firstUnannotated? h⟩
  · rintro ⟨field, h⟩
    have hmem : field ∈ ListField.all := by cases field <;> simp [ListField.all]
    rw [firstUnannotated?_eq_find?, ← Option.isSome_iff_exists, List.find?_isSome]
    exact ⟨field, hmem, h⟩

/-- A patch cannot be applied exactly if one of its list edits does not say how to merge, and
then it fails for the first such list. What it makes of a component stays as it is when the
patch is applied again, and each field of it comes from the same field of the component and
what the patch says about it. -/
theorem apply_idempotent_local (p : Patch) (c : Component) :
    ((∃ field, p.apply c = .error field) ↔ ∃ field, (p.edit field).isUnannotated) ∧
    (∀ field, p.apply c = .error field ↔ [ListField.patches, .excludedTests, .postBuild].find?
      (fun f => (p.edit f).isUnannotated) = some field) ∧
    ∀ c', p.apply c = .ok c' → p.apply c' = .ok c' ∧ p.IsLocal c c' := by
  refine ⟨exists_apply_eq_error_iff, fun field => ?_, fun c' h => ?_⟩
  · rw [apply_eq_error_iff, firstUnannotated?_eq_find?, ListField.all]
  · have hchanges := apply_eq_ok_iff.1 h
    exact ⟨apply_eq_ok_iff.2 hchanges.again, hchanges.isLocal⟩

/-- A patch that brings something for every field but the version. -/
def hardening : Patch where
  builder := some "meson"
  inputs := .ofList [("tls", .catalog "openssl")]
  params := .ofList [("pie", "true")]
  patches := .union ["cve.patch", "cve.patch", "fix.patch"]
  excludedTests := .replace ["slow", "net", "slow"]

/-- A component with a list and entries that the patch meets. -/
def unhardened : Component where
  name := "curl"
  version := "8.5"
  inputs := .ofList [("tls", .catalog "gnutls"), ("zlib", .catalog "zlib")]
  patches := ["fix.patch", "fix.patch"]

theorem apply_idempotent_local_hardening :
    ∃ c', hardening.apply unhardened = .ok c' ∧ hardening.apply c' = .ok c' ∧
      c'.patches = ["fix.patch", "fix.patch", "cve.patch"] ∧ c'.excludedTests = ["slow", "net"] ∧
      c'.version = "8.5" ∧ c'.inputs.get? "tls" = some (.catalog "openssl") ∧
      c'.inputs.get? "zlib" = some (.catalog "zlib") := by
  have happly : hardening.apply unhardened = .ok { unhardened with
      builder := "meson", inputs := unhardened.inputs.insertMany hardening.inputs.toList,
      params := unhardened.params.insertMany hardening.params.toList,
      patches := ["fix.patch", "fix.patch", "cve.patch"], excludedTests := ["slow", "net"] } := rfl
  obtain ⟨hagain, hlocal⟩ := (apply_idempotent_local hardening unhardened).2.2 _ happly
  refine ⟨_, happly, hagain, rfl, rfl, rfl, hlocal.inputs.above "tls" _ (by decide +kernel), ?_⟩
  exact (hlocal.inputs.below "zlib" (by decide +kernel)).trans (by decide +kernel)

end Patch

end LayeredCatalog
