import LayeredCatalog.Proofs.Composition.Closure
import LayeredCatalog.Proofs.Resolution.Closed

/-!
# Resolved catalogs as bases

The components of a resolved catalog make a catalog of their own, with nothing in it
that says which layer a component came from. Under no layers this catalog resolves to
the catalog that it was taken from (`Composition.resolveWith_flat_components`), whatever the
layers did to get there: plans are made of final components, and a closed catalog is
filled from itself.
-/

namespace LayeredCatalog

namespace Catalog

/-- What additions of components with different names leave in a catalog. -/
theorem get?_foldl_add_eq_some_iff {l : List Component} (h : (l.map Component.name).Nodup)
    (catalog : Catalog) {name : String} {v : Component} :
    (l.foldl Catalog.add catalog).get? name = some v ↔
      v ∈ l ∧ v.name = name ∨ name ∉ l.map Component.name ∧ catalog.get? name = some v := by
  induction l generalizing catalog with
  | nil => simp
  | cons c l ih =>
      obtain ⟨hc, hl⟩ := List.nodup_cons.1 h
      rw [List.foldl_cons, ih hl, Catalog.add, Table.get?_insert, List.map_cons, List.mem_cons,
        List.mem_cons]
      by_cases hname : name = c.name
      · subst hname
        simp only [hc, if_true]
        grind
      · grind

end Catalog

namespace ResolvedCatalog

/-- The final components, in the order of their names. -/
def components (r : ResolvedCatalog) : List Component := r.values.map Plan.component

/-- Every plan is one of a component that bears the name of the plan. -/
def IsKeyed (r : ResolvedCatalog) : Prop :=
  ∀ name p, r.get? name = some p → p.component.name = name

theorem mem_components {r : ResolvedCatalog} {v : Component} :
    v ∈ r.components ↔ ∃ name p, r.get? name = some p ∧ p.component = v := by
  simp [components, Table.values, Table.get?_eq_some_iff]

theorem IsKeyed.nodup_components {r : ResolvedCatalog} (h : r.IsKeyed) :
    (r.components.map Component.name).Nodup := by
  have hnames : r.components.map Component.name = r.keys := by
    rw [components, Table.values, Table.keys, List.map_map, List.map_map]
    refine List.map_congr_left fun e he => ?_
    exact h e.1 e.2 (Table.get?_eq_some_iff.2 he)
  rw [hnames]
  exact Table.nodup_keys r

/-- The catalog of the components holds under each name the component of its plan, in
whichever order the components are added. -/
theorem IsKeyed.get?_foldl_add_components {r : ResolvedCatalog} (h : r.IsKeyed)
    {l : List Component} (hl : l.Perm r.components) {name : String} {v : Component} :
    (l.foldl Catalog.add ∅).get? name = some v ↔ ∃ p, r.get? name = some p ∧ p.component = v := by
  have hnodup : (l.map Component.name).Nodup :=
    (hl.map Component.name).nodup_iff.2 h.nodup_components
  have hempty : (∅ : Catalog).get? name = none := rfl
  rw [Catalog.get?_foldl_add_eq_some_iff hnodup, hempty, hl.mem_iff, mem_components]
  constructor
  · rintro (⟨⟨name', p, hp, rfl⟩, rfl⟩ | ⟨-, hnone⟩)
    · rw [h name' p hp]
      exact ⟨p, hp, rfl⟩
    · cases hnone
  · rintro ⟨p, hp, rfl⟩
    exact .inl ⟨⟨name, p, hp, rfl⟩, h name p hp⟩

theorem fills_of_forall₂_supplies {c : Composition} {r : ResolvedCatalog}
    {inputs : List (String × InputRef)} {filled : List (String × PlanInput)}
    (h : List.Forall₂ r.Supplies inputs filled)
    (hplan : ∀ slot target q, (slot, .component q) ∈ filled → r.get? target = some q →
      c.HasPlan target q) : c.Fills inputs filled := by
  induction h with
  | nil => exact .nil
  | @cons input f inputs filled hf _ ih =>
      have hrest := ih fun slot target q hmem => hplan slot target q (List.mem_cons_of_mem _ hmem)
      obtain ⟨slot, ref⟩ := input
      cases ref with
      | external id =>
          obtain rfl : f = (slot, .external id) := hf
          exact .external hrest
      | catalog target =>
          obtain ⟨q, hq, rfl⟩ := hf
          exact .catalog (hplan slot target q (List.mem_cons_self ..) hq) hrest

/-- A closed catalog has the plans of every composition that ends with its components. -/
theorem IsClosed.hasPlan {r : ResolvedCatalog} (h : r.IsClosed) {c : Composition}
    (hfinal : ∀ name p, r.get? name = some p → c.HasFinal name p.component) {name : String}
    {p : Plan} (hp : r.get? name = some p) : c.HasPlan name p := by
  induction hsize : sizeOf p using Nat.strong_induction_on generalizing name p with
  | _ size ih =>
      have hfeeds : ∀ target q, q.Feeds p → r.get? target = some q → c.HasPlan target q :=
        fun target q hq hget => ih (sizeOf q) (hsize ▸ hq.sizeOf_lt) hget rfl
      obtain ⟨v, filled, hfilled, rfl⟩ := h name p hp
      refine .build (hfinal name _ hp) (fills_of_forall₂_supplies hfilled ?_)
      intro slot target q hmem hget
      exact hfeeds target q ⟨slot, hmem⟩ hget

end ResolvedCatalog

namespace Composition

section NoLayers

variable {base : Catalog}

theorem passesErrors_of_no_layers : (Composition.mk base []).PassesErrors :=
  List.forall_mem_nil _

theorem contains_of_no_layers (name : String) :
    (Composition.mk base []).contains name = base.contains name := by
  simp [contains]

/-- Under no layers a name is what the base has. -/
theorem hasFinal_of_no_layers {name : String} {v : Component} (h : base.get? name = some v) :
    (Composition.mk base []).HasFinal name v := by
  refine ⟨.base, ⟨Option.isSome_iff_exists.2 ⟨v, h⟩, ?_⟩, .base h⟩
  intro s hs
  cases s with
  | base => exact .inl rfl
  | layer i =>
      obtain ⟨l, hl, -⟩ := hs
      cases hl

end NoLayers

/-- In a resolved catalog plans stand under the names of their components. -/
theorem isKeyed_of_resolveWith {c : Composition} (hbase : c.base.IsKeyed) (qs : List Query)
    {r : ResolvedCatalog} (hr : (c.resolveWith (c.memoAfter qs)).1 = .ok r) : r.IsKeyed := by
  obtain ⟨hsteps, hresolved⟩ := resolveWith_reaches c (c.memoAfter qs)
  have hm := hsteps.isConsistent (isConsistent_memoAfter c qs)
  intro name p hp
  obtain ⟨v, filled, hv, -, rfl⟩ := hm.plan name p ((hresolved r hr).2 name p hp)
  exact hv.name_eq hbase hm

/-- Components on their own, under no layers. -/
def flat (l : List Component) : Composition := ⟨l.foldl Catalog.add ∅, []⟩

/-- The components of a resolved catalog, added to an empty catalog in whichever order
and resolved under no layers, give that resolved catalog again: the same names with the
same plans, and so the same build order. The layers that it comes from may do anything,
and anything may have been asked before. The base is a catalog as additions build it. -/
theorem resolveWith_flat_components {c : Composition} (hbase : c.base.IsKeyed)
    (qs qs' : List Query) {r : ResolvedCatalog} (hr : (c.resolveWith (c.memoAfter qs)).1 = .ok r)
    {l : List Component} (hl : l.Perm r.components) :
    ((flat l).resolveWith ((flat l).memoAfter qs')).1 = .ok r := by
  have hkeyed := isKeyed_of_resolveWith hbase qs hr
  have hclosed := isClosed_of_resolveWith qs hr
  have hpasses : (flat l).PassesErrors := passesErrors_of_no_layers
  rw [resolveWith_eq_ok_iff hpasses (isSound_memoAfter hpasses qs')]
  constructor
  · intro name
    rw [flat, contains_of_no_layers, Table.contains, Table.contains,
      Option.isSome_iff_exists, Option.isSome_iff_exists]
    simp only [hkeyed.get?_foldl_add_components hl]
    constructor
    · rintro ⟨p, hp⟩
      exact ⟨p.component, p, hp, rfl⟩
    · rintro ⟨-, p, hp, -⟩
      exact ⟨p, hp⟩
  · intro name p hp
    refine hclosed.hasPlan (fun name p hp => hasFinal_of_no_layers ?_) hp
    exact (hkeyed.get?_foldl_add_components hl).2 ⟨p, hp, rfl⟩

theorem resolveWith_flat_refreshed :
    refreshed.base.IsKeyed ∧ ∃ r,
      (refreshed.resolveWith (refreshed.memoAfter [.plan "perl"])).1 = .ok r ∧
      r.keys = ["curl", "wget", "zlib"] ∧
      r.components.reverse.Perm r.components ∧
      ((flat r.components.reverse).resolveWith
        ((flat r.components.reverse).memoAfter [.lookup "wget"])).1 = .ok r := by
  have hkeys : (refreshed.resolveWith (refreshed.memoAfter [.plan "perl"])).1.toOption.map
      Table.keys = some ["curl", "wget", "zlib"] := by
    decide +kernel
  cases hr : (refreshed.resolveWith (refreshed.memoAfter [.plan "perl"])).1 with
  | error e =>
      rw [hr] at hkeys
      cases hkeys
  | ok r =>
      rw [hr] at hkeys
      have hperm := r.components.reverse_perm
      refine ⟨isKeyed_base_refreshed, r, rfl, Option.some.inj hkeys, hperm, ?_⟩
      exact resolveWith_flat_components isKeyed_base_refreshed [.plan "perl"] [.lookup "wget"] hr
        hperm

end Composition

end LayeredCatalog
