import LayeredCatalog.Proofs.Dependencies.Order
import LayeredCatalog.Proofs.Resolution.Closed

/-!
# Resolved catalogs can be built

The graph that the build order sorts is made of additions read off the catalog: a node
for each name, and a dependency for each catalog input of its component. In a closed
catalog these say what the catalog itself says (`requires_additions`), so the graph
has its names for nodes and no cycle, and the build order exists.
-/

namespace LayeredCatalog

open scoped List

theorem Component.mem_catalogInputs {c : Component} {slot target : String} :
    (slot, target) ∈ c.catalogInputs ↔ c.inputs.get? slot = some (.catalog target) := by
  rw [Table.get?_eq_some_iff, catalogInputs, List.mem_filterMap]
  constructor
  · rintro ⟨⟨slot', ref⟩, hmem, href⟩
    cases ref with
    | catalog target' =>
        cases href
        exact hmem
    | external id => cases href
  · intro hmem
    exact ⟨_, hmem, rfl⟩

namespace ResolvedCatalog

open Dependencies (Addition ofAdditions mentions Requires)

/-- What one name adds to the graph: itself, and what the inputs of its component ask
for. -/
def additionsFor (e : String × Plan) : List Addition :=
  .node e.1 :: e.2.component.catalogInputs.map fun input => .dependency e.1 input.2

def additions (r : ResolvedCatalog) : List Addition := r.toList.flatMap additionsFor

theorem dependencies_eq_ofAdditions (r : ResolvedCatalog) :
    r.dependencies = ofAdditions r.additions := by
  rw [dependencies, ofAdditions, additions, List.foldl_flatMap]
  congr 1
  funext g e
  rw [additionsFor, List.foldl_cons, List.foldl_map, List.foldl_map]
  rfl

theorem mem_additions {r : ResolvedCatalog} {x : Addition} :
    x ∈ r.additions ↔ ∃ n p, r.get? n = some p ∧ x ∈ additionsFor (n, p) := by
  simp [additions, Table.get?_eq_some_iff]

theorem node_mem_additions {r : ResolvedCatalog} {n : String} :
    .node n ∈ r.additions ↔ r.contains n := by
  rw [mem_additions, Table.contains, Option.isSome_iff_exists]
  simp [additionsFor]

theorem requires_additions {r : ResolvedCatalog} {a b : String} :
    Requires r.additions a b ↔ r.Uses a b := by
  rw [Requires, mem_additions]
  constructor
  · rintro ⟨n, p, hp, hx⟩
    have hx' : ∃ slot, (slot, b) ∈ p.component.catalogInputs ∧ n = a := by
      simpa [additionsFor] using hx
    obtain ⟨slot, hslot, rfl⟩ := hx'
    exact ⟨p, slot, hp, Component.mem_catalogInputs.1 hslot⟩
  · rintro ⟨p, slot, hp, hslot⟩
    refine ⟨a, p, hp, List.mem_cons_of_mem _ (List.mem_map.2 ⟨(slot, b), ?_, rfl⟩)⟩
    exact Component.mem_catalogInputs.2 hslot

theorem Uses.contains {r : ResolvedCatalog} {a b : String} (h : r.Uses a b) : r.contains a := by
  obtain ⟨p, -, hp, -⟩ := h
  rw [Table.contains, hp]
  rfl

/-- The graph of a closed catalog has no other names than the catalog. -/
theorem IsClosed.mem_mentions_additions {r : ResolvedCatalog} (h : r.IsClosed) {n : String} :
    n ∈ mentions r.additions ↔ r.contains n := by
  simp only [Dependencies.mem_mentions_iff, node_mem_additions, requires_additions]
  constructor
  · rintro (hn | ⟨m, huses | huses⟩)
    · exact hn
    · exact huses.contains
    · exact h.contains_of_uses huses
  · exact .inl

theorem IsClosed.exists_buildOrder {r : ResolvedCatalog} (h : r.IsClosed) :
    ∃ order, r.buildOrder = .ok order ∧ order.Nodup ∧ (∀ n, n ∈ order ↔ r.contains n) ∧
      ∀ a b, r.Uses a b → [b, a] <+ order := by
  have hacyclic : ∀ n, ¬ Relation.TransGen (Requires r.additions) n n := by
    have huses : Requires r.additions = r.Uses := by
      ext a b
      exact requires_additions
    rw [huses]
    exact h.not_uses_self
  obtain ⟨order, horder⟩ := Dependencies.order_ofAdditions_ok_iff.2 hacyclic
  obtain ⟨hnodup, hmem, hsub⟩ := Dependencies.order_ofAdditions_eq_ok horder
  refine ⟨order, ?_, hnodup, ?_, ?_⟩
  · rw [buildOrder, dependencies_eq_ofAdditions, horder]
    rfl
  · intro n
    rw [hmem, h.mem_mentions_additions]
  · intro a b huses
    exact hsub a b (requires_additions.2 huses)

end ResolvedCatalog

namespace Composition

/-- A catalog that resolves has a build order, whatever its layers do and whatever was
asked before: a list of its names, each once, in which the target of every catalog
input of a final component stands before the component's name. -/
theorem resolveWith_buildOrder {c : Composition} (qs : List Query) {r : ResolvedCatalog}
    (hr : (c.resolveWith (c.memoAfter qs)).1 = .ok r) :
    ∃ order, r.buildOrder = .ok order ∧ order.Nodup ∧ (∀ n, n ∈ order ↔ r.contains n) ∧
      ∀ n p slot target, r.get? n = some p →
        p.component.inputs.get? slot = some (.catalog target) → [target, n] <+ order := by
  obtain ⟨order, horder, hnodup, hmem, hsub⟩ := (isClosed_of_resolveWith qs hr).exists_buildOrder
  refine ⟨order, horder, hnodup, hmem, ?_⟩
  intro n p slot target hp hslot
  exact hsub n target ⟨p, slot, hp, hslot⟩

theorem resolveWith_buildOrder_refreshed :
    ∃ r order, (refreshed.resolveWith (refreshed.memoAfter [.plan "perl"])).1 = .ok r ∧
      r.buildOrder = .ok order ∧ ["zlib", "wget"] <+ order := by
  have hslot : ((refreshed.resolveWith (refreshed.memoAfter [.plan "perl"])).1.toOption.bind
      fun r => (r.get? "wget").bind fun p => p.component.inputs.get? "tls") =
        some (.catalog "zlib") := by
    decide +kernel
  cases hr : (refreshed.resolveWith (refreshed.memoAfter [.plan "perl"])).1 with
  | error e =>
      rw [hr] at hslot
      cases hslot
  | ok r =>
      rw [hr] at hslot
      change ((r.get? "wget").bind fun p => p.component.inputs.get? "tls") = _ at hslot
      obtain ⟨p, hp, hslot⟩ := Option.bind_eq_some_iff.1 hslot
      obtain ⟨order, horder, -, -, hsub⟩ := resolveWith_buildOrder [.plan "perl"] hr
      exact ⟨r, order, rfl, horder, hsub "wget" p "tls" "zlib" hp hslot⟩

end Composition

end LayeredCatalog
