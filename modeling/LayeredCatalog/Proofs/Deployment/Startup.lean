import LayeredCatalog.Proofs.Deployment.References
import LayeredCatalog.Proofs.Dependencies.Order

/-!
# The startup order

The startup graph is made of additions read off the configuration: first a node for
each deployed service, then a dependency for each name in its lists. If all references
are good, these say which service waits for which, so there is a startup order exactly
if no service waits for itself (`exists_startupOrder_eq_ok_iff`), and the order lists
the deployed services (`startupOrder_eq_ok`).
-/

namespace LayeredCatalog

open scoped List

namespace DeploymentConfig

open Dependencies (Addition ofAdditions mentions Requires)

variable {c : DeploymentConfig}

/-- A deployed service names another deployed one among those that start before it. -/
def WaitsFor (c : DeploymentConfig) (a b : String) : Prop :=
  ∃ s t, c.Runs a s ∧ c.Runs b t ∧ (b ∈ s.connect ∨ b ∈ s.after)

def startupAdditions (c : DeploymentConfig) : List Addition :=
  c.enabledServices.map (fun e => .node e.1) ++
    c.enabledServices.flatMap fun e => (e.2.connect ++ e.2.after).map (.dependency e.1)

theorem startupGraph_eq_ofAdditions (c : DeploymentConfig) :
    c.startupGraph = ofAdditions c.startupAdditions := by
  rw [startupGraph, ofAdditions, startupAdditions, List.foldl_append, List.foldl_map,
    List.foldl_flatMap]
  simp only [List.foldl_map]
  rfl

theorem node_mem_startupAdditions {n : String} :
    .node n ∈ c.startupAdditions ↔ ∃ s, c.Runs n s := by
  simp [startupAdditions, mem_enabledServices]

theorem requires_startupAdditions {a b : String} :
    Requires c.startupAdditions a b ↔ ∃ s, c.Runs a s ∧ (b ∈ s.connect ∨ b ∈ s.after) := by
  have h : Requires c.startupAdditions a b ↔
      ∃ n s, c.Runs n s ∧ (b ∈ s.connect ∧ n = a ∨ b ∈ s.after ∧ n = a) := by
    simp [Requires, startupAdditions, mem_enabledServices]
  rw [h]
  constructor
  · rintro ⟨n, s, hs, ⟨hb, rfl⟩ | ⟨hb, rfl⟩⟩
    · exact ⟨s, hs, .inl hb⟩
    · exact ⟨s, hs, .inr hb⟩
  · rintro ⟨s, hs, hb | hb⟩
    · exact ⟨a, s, hs, .inl ⟨hb, rfl⟩⟩
    · exact ⟨a, s, hs, .inr ⟨hb, rfl⟩⟩

theorem startupOrder_eq_ok_iff {order : List String} :
    c.startupOrder = .ok order ↔ (ofAdditions c.startupAdditions).order = .ok order := by
  rw [startupOrder, mapError_eq_ok_iff, startupGraph_eq_ofAdditions]

section References

variable (hreferences : c.checkReferences = .ok ())

include hreferences

/-- Behind good references there is no edge but between deployed services. -/
theorem requires_startupAdditions_iff_waitsFor {a b : String} :
    Requires c.startupAdditions a b ↔ c.WaitsFor a b := by
  rw [requires_startupAdditions, WaitsFor]
  constructor
  · rintro ⟨s, hs, hb⟩
    obtain ⟨hconnect, hafter⟩ := checkReferences_eq_ok_iff.1 hreferences a s hs
    have hruns : ∃ t, c.Runs b t := by
      rcases hb with hb | hb
      · obtain ⟨t, ht, -⟩ := hconnect b hb
        exact ⟨t, ht⟩
      · exact hafter b hb
    obtain ⟨t, ht⟩ := hruns
    exact ⟨s, t, hs, ht, hb⟩
  · rintro ⟨s, t, hs, -, hb⟩
    exact ⟨s, hs, hb⟩

theorem mem_mentions_startupAdditions {n : String} :
    n ∈ mentions c.startupAdditions ↔ ∃ s, c.Runs n s := by
  simp only [Dependencies.mem_mentions_iff, node_mem_startupAdditions,
    requires_startupAdditions_iff_waitsFor hreferences]
  constructor
  · rintro (hn | ⟨m, ⟨s, -, hs, -⟩ | ⟨-, t, -, ht, -⟩⟩)
    · exact hn
    · exact ⟨s, hs⟩
    · exact ⟨t, ht⟩
  · exact .inl

theorem exists_startupOrder_eq_ok_iff :
    (∃ order, c.startupOrder = .ok order) ↔ ∀ n, ¬ Relation.TransGen c.WaitsFor n n := by
  have hwaits : Requires c.startupAdditions = c.WaitsFor := by
    ext a b
    exact requires_startupAdditions_iff_waitsFor hreferences
  simp only [startupOrder_eq_ok_iff, Dependencies.order_ofAdditions_ok_iff, hwaits]

theorem startupOrder_eq_ok {order : List String} (h : c.startupOrder = .ok order) :
    order.Nodup ∧ (∀ n, n ∈ order ↔ ∃ s, c.Runs n s) ∧ ∀ a b, c.WaitsFor a b → [b, a] <+ order := by
  obtain ⟨hnodup, hmem, hsub⟩ := Dependencies.order_ofAdditions_eq_ok (startupOrder_eq_ok_iff.1 h)
  refine ⟨hnodup, ?_, ?_⟩
  · intro n
    rw [hmem, mem_mentions_startupAdditions hreferences]
  · intro a b hwaits
    exact hsub a b ((requires_startupAdditions_iff_waitsFor hreferences).2 hwaits)

/-- Where there is no order, the service found is deployed and waits for itself. -/
theorem startupOrder_eq_error {n : String} (h : c.startupOrder = .error (.startupCycle n)) :
    (∃ s, c.Runs n s) ∧ Relation.TransGen c.WaitsFor n n := by
  rw [startupOrder, mapError_eq_error_iff, startupGraph_eq_ofAdditions] at h
  obtain ⟨m, hm, heq⟩ := h
  obtain rfl := DeploymentError.startupCycle.inj heq
  obtain ⟨hmem, hcycle⟩ := Dependencies.order_ofAdditions_eq_error hm
  refine ⟨(mem_mentions_startupAdditions hreferences).1 hmem, ?_⟩
  exact Relation.TransGen.mono
    (fun a b => (requires_startupAdditions_iff_waitsFor hreferences).1) _ _ hcycle

end References

end DeploymentConfig

end LayeredCatalog
