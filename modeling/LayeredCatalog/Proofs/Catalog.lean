import LayeredCatalog.Catalog.Document

/-!
# Catalogs keep components under their own names

A table of components is a catalog that was put together by additions exactly if
each component stands under its own name (`Catalog.isKeyed_iff_exists_foldl_add`).
Catalogs read from documents are of this kind, whatever names the document holds
below its keys.
-/

namespace LayeredCatalog

namespace Catalog

/-- Every component stands under its own name. -/
def IsKeyed (catalog : Catalog) : Prop := ∀ name c, catalog.get? name = some c → c.name = name

theorem isKeyed_empty : IsKeyed ∅ := by
  intro name c h
  cases h

theorem IsKeyed.add {catalog : Catalog} (h : catalog.IsKeyed) (c : Component) :
    (catalog.add c).IsKeyed := by
  intro name c' hget
  rw [Catalog.add, Table.get?_insert] at hget
  split at hget
  · next hname =>
    rw [← Option.some.inj hget]
    exact hname.symm
  · exact h name c' hget

theorem IsKeyed.foldl_add {catalog : Catalog} (h : catalog.IsKeyed) (l : List Component) :
    (l.foldl Catalog.add catalog).IsKeyed := by
  induction l generalizing catalog with
  | nil => exact h
  | cons c l ih => exact ih (h.add c)

/-- Additions build the keyed catalogs and no others. -/
theorem isKeyed_iff_exists_foldl_add {catalog : Catalog} :
    catalog.IsKeyed ↔ ∃ l : List Component, catalog = l.foldl Catalog.add ∅ := by
  constructor
  · intro h
    have hname : ∀ e ∈ catalog.toList, e.2.name = e.1 :=
      fun e he => h e.1 e.2 (Table.get?_eq_some_iff.2 he)
    have hadd (l : List (String × Component)) (hl : ∀ e ∈ l, e.2.name = e.1) (t : Catalog) :
        (l.map Prod.snd).foldl Catalog.add t = t.insertMany l := by
      induction l generalizing t with
      | nil => rfl
      | cons e l ih =>
          obtain ⟨he, hl⟩ := List.forall_mem_cons.1 hl
          rw [List.map_cons, List.foldl_cons, ih hl, Catalog.add, he]
          rfl
    refine ⟨catalog.values, ?_⟩
    rw [Table.values, hadd catalog.toList hname]
    exact (Table.ofList_toList catalog).symm
  · rintro ⟨l, rfl⟩
    exact isKeyed_empty.foldl_add l

theorem isKeyed_of_parse {s : String} {catalog : Catalog} (h : parse s = .ok catalog) :
    catalog.IsKeyed := by
  rw [parse] at h
  split at h
  · cases h
  · next t _ =>
    rw [ofTable] at h
    split at h
    · cases h
    · cases h
      intro name c hget
      have hmem := Table.get?_eq_some_iff.1 hget
      obtain ⟨e, -, he⟩ := List.mem_map.1 hmem
      cases he
      rfl

end Catalog

end LayeredCatalog
