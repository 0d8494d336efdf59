import LayeredCatalog.Proofs.ByteOrder
import LayeredCatalog.Proofs.Deployment.Faults
import LayeredCatalog.Proofs.Deployment.Services

/-!
# The startup schedule

The services of a compiled deployment are the deployed ones, each described once and by
its own configuration (`mem_services_iff`), and none is listed before a service that it
waits for (`IsSchedule`). The reference checks come before the startup order, so an edge
of the startup graph never leads out of the deployed services. Only the startup order
blames a cycle, so a cycle that is blamed is one of deployed services
(`compile_schedules`).
-/

namespace LayeredCatalog

open scoped List

/-- In a list without repeats, what is listed before a name is in the part before it. -/
theorem mem_of_pair_sublist {before rest : List String} {a b : String}
    (hnodup : (before ++ a :: rest).Nodup) (h : [b, a] <+ before ++ a :: rest) : b ∈ before := by
  obtain ⟨-, hrest, -⟩ := List.nodup_append.1 hnodup
  obtain ⟨l, l', heq, hl, hl'⟩ := List.sublist_append_iff.1 h
  cases l with
  | nil =>
      obtain rfl : [b, a] = l' := heq
      have ha : a ∈ rest := List.singleton_sublist.1 hl'.tail
      exact absurd ha (List.nodup_cons.1 hrest).1
  | cons x l =>
      obtain ⟨rfl, -⟩ := List.cons.inj heq
      exact hl.subset List.mem_cons_self

namespace DeploymentConfig

variable {c : DeploymentConfig} {catalog : ResolvedCatalog} {secrets : SecretSet}

/-- Only the startup order blames a cycle, behind good references. -/
theorem compile_eq_startupCycle {n : String}
    (h : c.compile catalog secrets = .error (.startupCycle n)) :
    c.checkReferences = .ok () ∧ c.startupOrder = .error (.startupCycle n) := by
  rcases compile_eq_error_iff.1 h with h | ⟨hreferences, h | ⟨-, -, h | ⟨order, horder, h⟩⟩⟩
  · cases checkReferences_fault h
  · cases compileRouting_fault h
  · exact ⟨hreferences, h⟩
  · obtain ⟨name, s, -, h⟩ := exists_serviceFault hreferences horder h
    cases h

section After

variable {name : String} {s : ServiceConfig} {desc : ServiceDescription}

theorem mem_after_iff (h : c.describe catalog secrets name s = .ok desc) {b : String} :
    b ∈ desc.after ↔ b ∈ s.connect ∨ b ∈ s.after := by
  obtain ⟨plan, -, -, -, -, -, rfl⟩ := describe_eq_ok_iff.1 h
  rw [description, ← Table.contains_iff_mem_keys, Table.contains_ofList, List.any_map,
    List.any_eq_true, ← List.mem_append]
  simp

theorem pairwise_after (h : c.describe catalog secrets name s = .ok desc) :
    desc.after.Pairwise fun a b => utf8 a < utf8 b := by
  obtain ⟨plan, -, -, -, -, -, rfl⟩ := describe_eq_ok_iff.1 h
  exact Table.pairwise_keys_utf8 _

end After

/-- The services of a deployment as a startup schedule: each deployed service once, and
none before a service that it waits for. -/
structure IsSchedule (c : DeploymentConfig) (services : List ServiceDescription) : Prop where
  nodup : (services.map (·.name)).Nodup
  complete : ∀ name, name ∈ services.map (·.name) ↔ ∃ s, c.Runs name s
  /-- A description names what its own service connects to or starts after. -/
  after : ∀ desc ∈ services, ∃ s, c.Runs desc.name s ∧
    (desc.after.Pairwise fun a b => utf8 a < utf8 b) ∧
    ∀ b, b ∈ desc.after ↔ b ∈ s.connect ∨ b ∈ s.after
  /-- What is named there has been described before. -/
  earlier : ∀ before desc rest, services = before ++ desc :: rest →
    ∀ b ∈ desc.after, b ∈ before.map (·.name)

theorem isSchedule_services {d : Deployment} (h : c.compile catalog secrets = .ok d) :
    c.IsSchedule d.services := by
  obtain ⟨hreferences, -⟩ := compile_eq_ok_iff.1 h
  obtain ⟨hnodup, hmem, hsub⟩ := startupOrder_eq_ok hreferences (startupOrder_eq_map_name h)
  have hafter : ∀ desc ∈ d.services, ∃ s, c.Runs desc.name s ∧
      (desc.after.Pairwise fun a b => utf8 a < utf8 b) ∧
      ∀ b, b ∈ desc.after ↔ b ∈ s.connect ∨ b ∈ s.after := by
    intro desc hdesc
    obtain ⟨name, s, hs, hd⟩ := (mem_services_iff h).1 hdesc
    obtain rfl := describe_name hd
    exact ⟨s, hs, pairwise_after hd, fun b => mem_after_iff hd⟩
  refine ⟨hnodup, hmem, hafter, fun before desc rest hservices b hb => ?_⟩
  obtain ⟨s, hs, -, hafter⟩ := hafter desc (by simp [hservices])
  have hwaits : c.WaitsFor desc.name b :=
    (requires_startupAdditions_iff_waitsFor hreferences).1
      (requires_startupAdditions.2 ⟨s, hs, (hafter b).1 hb⟩)
  have hpair := hsub _ _ hwaits
  rw [hservices, List.map_append, List.map_cons] at hnodup hpair
  exact mem_of_pair_sublist hnodup hpair

/-- The services of a compiled deployment are a startup schedule, whatever the catalog,
the configuration and the secrets are. Where a startup cycle is blamed on a service, the
service is deployed and waits for itself along deployed services. -/
theorem compile_schedules (c : DeploymentConfig) (catalog : ResolvedCatalog)
    (secrets : SecretSet) :
    (∀ d, c.compile catalog secrets = .ok d → c.IsSchedule d.services) ∧
      ∀ n, c.compile catalog secrets = .error (.startupCycle n) →
        (∃ s, c.Runs n s) ∧ Relation.TransGen c.WaitsFor n n := by
  refine ⟨fun d h => isSchedule_services h, fun n h => ?_⟩
  obtain ⟨hreferences, horder⟩ := compile_eq_startupCycle h
  exact startupOrder_eq_error hreferences horder

/-- Two services that wait for each other. -/
def looped : DeploymentConfig where
  services := .ofList [("indexer", { after := ["reader"] }), ("reader", { after := ["indexer"] })]

theorem compile_looped : looped.compile .empty .empty = .error (.startupCycle "reader") := by
  have hgraph : looped.startupGraph =
      ⟨["indexer", "reader"], [("reader", "indexer"), ("indexer", "reader")]⟩ := by
    decide +kernel
  have horder : looped.startupOrder = .error (.startupCycle "reader") := by
    rw [startupOrder, hgraph]
    simp [Dependencies.order, Dependencies.walk, Dependencies.dependents,
      Dependencies.misplaced?, Dependencies.dependencies, Except.mapError]
  exact compile_eq_error_iff.2 (.inr ⟨by decide +kernel, .inr ⟨none, by decide +kernel, .inl horder⟩⟩)

theorem compile_schedules_assistant_looped :
    (∃ d, assistant.compile assistantCatalog assistantSecrets = .ok d ∧
      d.services.map (·.name) = ["backend", "frontend"] ∧ assistant.IsSchedule d.services) ∧
    looped.compile .empty .empty = .error (.startupCycle "reader") ∧
      Relation.TransGen looped.WaitsFor "reader" "reader" := by
  obtain ⟨d, hd⟩ := exists_compile_assistant
  have hnames := startupOrder_eq_map_name hd
  rw [startupOrder_assistant, Except.ok.injEq] at hnames
  have hschedule := (compile_schedules assistant assistantCatalog assistantSecrets).1 d hd
  have hcycle := (compile_schedules looped .empty .empty).2 "reader" compile_looped
  exact ⟨⟨d, hd, hnames.symm, hschedule⟩, compile_looped, hcycle.2⟩

end DeploymentConfig

end LayeredCatalog
