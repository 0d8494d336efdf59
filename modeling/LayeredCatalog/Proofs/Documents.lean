import LayeredCatalog.Catalog.Document
import LayeredCatalog.Proofs.Layer
import LayeredCatalog.Proofs.Reference

/-!
# What is read from documents

A value is put together from what the readers of its parts return. So what is true of every
reference that can be read is true of the inputs of every component and of every patch
(`Component.hasValidInputs_of_ofDatum?`, `Patch.hasValidInputs_of_ofNode?`), and from there
of what catalog documents and layer documents hold, whose keys are component names besides
(`Catalog.isValid_of_parse`, `Layer.exists_entry_of_parse`).
-/

namespace LayeredCatalog

/-- A list is read item by item. -/
theorem mapM_eq_some_iff {α β : Type} {f : α → Option β} {l : List α} {l' : List β} :
    l.mapM f = some l' ↔ List.Forall₂ (fun a b => f a = some b) l l' := by
  induction l generalizing l' with
  | nil =>
      rw [List.mapM_nil, List.forall₂_nil_left_iff]
      exact ⟨fun h => (Option.some.inj h).symm, fun h => congrArg some h.symm⟩
  | cons a l ih =>
      rw [List.mapM_cons, List.forall₂_cons_left_iff]
      simp only [Option.bind_eq_bind, Option.bind_eq_some_iff, ih, Option.pure_def,
        Option.some.injEq]
      constructor
      · rintro ⟨b, hb, bs, hbs, rfl⟩
        exact ⟨b, bs, hb, hbs, rfl⟩
      · rintro ⟨b, bs, hb, hbs, rfl⟩
        exact ⟨b, hb, bs, hbs, rfl⟩

namespace Datum

variable {δ α : Type} {read : δ → Option α}

theorem exists_read_of_field? {fields : List (String × δ)} {key : String} {default v : α}
    (h : field? fields key read default = some v) : v = default ∨ ∃ d, read d = some v := by
  rw [field?] at h
  split at h
  · next d _ => exact .inr ⟨d, h⟩
  · exact .inl (Option.some.inj h).symm

theorem exists_read_of_optionalField? {fields : List (String × Yaml.Node)} {key : String}
    {read : Yaml.Node → Option α} {v : α}
    (h : field? fields key (Yaml.Node.optional? read) none = some (some v)) :
    ∃ n, read n = some v := by
  obtain h | ⟨n, hn⟩ := exists_read_of_field? h
  · cases h
  · have hread : (read n).map some = some (some v) := by
      unfold Yaml.Node.optional? at hn
      grind
    obtain ⟨w, hw, heq⟩ := Option.map_eq_some_iff.1 hread
    exact ⟨n, hw.trans heq⟩

/-- Every value of a table was read, though not every value that was read is in it. -/
theorem exists_read_of_table? [Datum δ] {d : δ} {t : Table String α} (h : table? read d = some t)
    {k : String} {v : α} (hv : t.get? k = some v) : ∃ d, read d = some v := by
  simp only [table?, Option.bind_eq_bind, Option.bind_eq_some_iff] at h
  obtain ⟨entries, -, pairs, hpairs, ht⟩ := h
  obtain rfl := Option.some.inj ht
  obtain ⟨e, -, he⟩ :=
    exists_mem_of_forall₂ (mapM_eq_some_iff.1 hpairs).flip (Table.mem_of_get?_ofList hv)
  obtain ⟨w, hw, heq⟩ := Option.map_eq_some_iff.1 he
  obtain ⟨-, rfl⟩ := Prod.mk.inj heq
  exact ⟨e.2, hw⟩

end Datum

namespace InputRef

variable {δ : Type} [Datum δ]

theorem isValid_of_ofDatum? {d : δ} {r : InputRef} (h : ofDatum? d = some r) : r.IsValid := by
  obtain ⟨s, -, hs⟩ := Option.bind_eq_some_iff.1 h
  exact (parse_eq_ok_iff.1 (toOption_eq_some_iff.1 hs)).1

/-- All references of a table of inputs are valid. -/
def AllValid (inputs : Table String InputRef) : Prop :=
  ∀ slot r, inputs.get? slot = some r → r.IsValid

theorem allValid_empty : AllValid .empty := by
  intro slot r h
  cases h

theorem AllValid.insertMany {inputs more : Table String InputRef} (h : AllValid inputs)
    (hmore : AllValid more) : AllValid (inputs.insertMany more.toList) := by
  intro slot r hr
  rw [Table.get?_insertMany_toList, Option.or_eq_some_iff] at hr
  rcases hr with hr | ⟨-, hr⟩
  · exact hmore slot r hr
  · exact h slot r hr

theorem allValid_of_field? {fields : List (String × δ)} {inputs : Table String InputRef}
    (h : Datum.field? fields "inputs" (Datum.table? ofDatum?) .empty = some inputs) :
    AllValid inputs := by
  rcases Datum.exists_read_of_field? h with rfl | ⟨d, hd⟩
  · exact allValid_empty
  · intro slot r hr
    obtain ⟨d', hd'⟩ := Datum.exists_read_of_table? hd hr
    exact isValid_of_ofDatum? hd'

end InputRef

/-- Whether all inputs of a component are valid references. -/
def Component.HasValidInputs (c : Component) : Prop := InputRef.AllValid c.inputs

/-- Whether all inputs that a patch brings are valid references. -/
def Patch.HasValidInputs (p : Patch) : Prop := InputRef.AllValid p.inputs

theorem Component.hasValidInputs_of_ofDatum? {δ : Type} [Datum δ] {d : δ} {c : Component}
    (h : ofDatum? d = some c) : c.HasValidInputs := by
  simp only [ofDatum?, Option.bind_eq_bind, Option.bind_eq_some_iff] at h
  obtain ⟨fields, -, name, -, version, -, builder, -, inputs, hinputs, params, -, patches, -,
    excludedTests, -, postBuild, -, hc⟩ := h
  obtain rfl := Option.some.inj hc
  exact InputRef.allValid_of_field? hinputs

theorem Patch.hasValidInputs_of_ofNode? {n : Yaml.Node} {p : Patch} (h : ofNode? n = some p) :
    p.HasValidInputs := by
  simp only [ofNode?, Option.bind_eq_bind, Option.bind_eq_some_iff] at h
  obtain ⟨fields, -, version, -, builder, -, inputs, hinputs, params, -, patches, -,
    excludedTests, -, postBuild, -, hp⟩ := h
  obtain rfl := Option.some.inj hp
  exact InputRef.allValid_of_field? hinputs

namespace Catalog

/-- The names of a catalog that is read are component names, and the inputs of its
components are valid. -/
theorem isValid_of_parse {s : String} {catalog : Catalog} (h : parse s = .ok catalog)
    {name : String} {c : Component} (hc : catalog.get? name = some c) :
    Name.isValid name ∧ c.HasValidInputs := by
  rw [parse] at h
  split at h
  · cases h
  · next t ht =>
    rw [ofTable] at h
    split at h
    · cases h
    · next hkeys =>
      cases h
      rw [Table.get?_map] at hc
      obtain ⟨c', hc', rfl⟩ := Option.map_eq_some_iff.1 hc
      obtain ⟨j, -, hj⟩ := Option.bind_eq_some_iff.1 ht
      obtain ⟨j', hj'⟩ := Datum.exists_read_of_table? hj hc'
      have hmem : name ∈ t.keys :=
        List.mem_map_of_mem (f := Prod.fst) (Table.get?_eq_some_iff.1 hc')
      refine ⟨?_, Component.hasValidInputs_of_ofDatum? (c := c') hj'⟩
      simpa using List.find?_eq_none.1 hkeys name hmem

end Catalog

namespace LayerEntry

/-- Whether all that an entry says has valid inputs. -/
structure HasValidInputs (e : LayerEntry) : Prop where
  set : ∀ c, e.set = some c → c.HasValidInputs
  modify : ∀ p, e.modify = some p → p.HasValidInputs
  derive : ∀ source p, e.derive = some (source, p) → p.HasValidInputs

theorem hasValidInputs_of_deriveOfNode? {n : Yaml.Node} {source : String} {p : Patch}
    (h : deriveOfNode? n = some (source, p)) : p.HasValidInputs := by
  simp only [deriveOfNode?, Option.bind_eq_bind, Option.bind_eq_some_iff] at h
  obtain ⟨fields, -, source', -, p', hp, heq⟩ := h
  obtain ⟨-, rfl⟩ := Prod.mk.inj (Option.some.inj heq)
  rcases Datum.exists_read_of_field? hp with rfl | ⟨d, hd⟩
  · exact InputRef.allValid_empty
  · exact Patch.hasValidInputs_of_ofNode? hd

theorem hasValidInputs_of_ofNode? {n : Yaml.Node} {e : LayerEntry} (h : ofNode? n = some e) :
    e.HasValidInputs := by
  simp only [ofNode?, Option.bind_eq_bind, Option.bind_eq_some_iff] at h
  obtain ⟨fields, -, set, hset, modify, hmodify, derive, hderive, he⟩ := h
  obtain rfl := Option.some.inj he
  constructor
  · rintro c rfl
    obtain ⟨d, hd⟩ := Datum.exists_read_of_optionalField? hset
    exact Component.hasValidInputs_of_ofDatum? hd
  · rintro p rfl
    obtain ⟨d, hd⟩ := Datum.exists_read_of_optionalField? hmodify
    exact Patch.hasValidInputs_of_ofNode? hd
  · rintro source p rfl
    obtain ⟨d, hd⟩ := Datum.exists_read_of_optionalField? hderive
    exact hasValidInputs_of_deriveOfNode? hd

end LayerEntry

namespace Layer

/-- What a layer that is read assigns to a name comes from an entry of the document. -/
theorem exists_entry_of_parse {s fallback : String} {l : Layer} (h : parse s fallback = .ok l)
    {name : String} {k : Contribution} (hk : l.overlay.get? name = some k) :
    Name.isValid name ∧ ∃ e : LayerEntry,
      e.HasValidInputs ∧ e.contribution l.name name = .ok k := by
  rw [parse] at h
  split at h
  · cases h
  · next d hd =>
    obtain ⟨hvalid, e, he, hcontribution⟩ := exists_entry_of_ofDocument h hk
    refine ⟨hvalid, e, ?_, hcontribution⟩
    obtain ⟨n, -, hn⟩ := Option.bind_eq_some_iff.1 hd
    simp only [LayerDocument.ofNode?, Option.bind_eq_bind, Option.bind_eq_some_iff] at hn
    obtain ⟨fields, -, layerName, -, entries, hentries, heq⟩ := hn
    obtain rfl := Option.some.inj heq
    rcases Datum.exists_read_of_field? hentries with rfl | ⟨n, htable⟩
    · cases he
    · obtain ⟨n', hn'⟩ := Datum.exists_read_of_table? htable he
      exact LayerEntry.hasValidInputs_of_ofNode? hn'

end Layer

end LayeredCatalog
