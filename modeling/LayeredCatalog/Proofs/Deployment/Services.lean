import LayeredCatalog.Proofs.Deployment.Validity

/-!
# The services of a deployment

The services of a compiled deployment are described one by one along the startup order
(`forall₂_services`), each by its own configuration. As the order lists the deployed
services, these are the ones that are described (`mem_services_iff`) and found by name
(`service?_eq_some_iff`).
-/

namespace LayeredCatalog

namespace DeploymentConfig

variable {c : DeploymentConfig} {catalog : ResolvedCatalog} {secrets : SecretSet}
  {d : Deployment} {name : String} {s : ServiceConfig} {desc : ServiceDescription}

theorem describe_name (h : c.describe catalog secrets name s = .ok desc) : desc.name = name := by
  obtain ⟨plan, -, -, -, -, -, rfl⟩ := describe_eq_ok_iff.1 h
  rfl

/-- The services of a deployment are described one by one along the startup order. -/
theorem forall₂_services (h : c.compile catalog secrets = .ok d) :
    ∃ order, c.startupOrder = .ok order ∧ List.Forall₂ (fun name desc =>
      ∃ s, c.Runs name s ∧ c.describe catalog secrets name s = .ok desc) order d.services := by
  obtain ⟨hreferences, -, order, services, -, horder, hservices, rfl⟩ := compile_eq_ok_iff.1 h
  obtain ⟨-, hmem, -⟩ := startupOrder_eq_ok hreferences horder
  exact ⟨order, horder, (describeAll_eq_ok_iff fun name hname => (hmem name).1 hname).1 hservices⟩

theorem startupOrder_eq_map_name (h : c.compile catalog secrets = .ok d) :
    c.startupOrder = .ok (d.services.map (·.name)) := by
  obtain ⟨order, horder, hservices⟩ := forall₂_services h
  have hnames : order.map id = d.services.map (·.name) :=
    map_eq_map_of_forall₂ hservices fun _ _ ⟨_, _, hdesc⟩ => (describe_name hdesc).symm
  rwa [← hnames, List.map_id]

theorem exists_mem_services (h : c.compile catalog secrets = .ok d) (hs : c.Runs name s) :
    ∃ desc ∈ d.services, c.describe catalog secrets name s = .ok desc := by
  obtain ⟨hreferences, -⟩ := compile_eq_ok_iff.1 h
  obtain ⟨order, horder, hservices⟩ := forall₂_services h
  obtain ⟨-, hmem, -⟩ := startupOrder_eq_ok hreferences horder
  obtain ⟨desc, hdesc, t, ht, hd⟩ := exists_mem_of_forall₂ hservices ((hmem name).2 ⟨s, hs⟩)
  exact ⟨desc, hdesc, hs.eq ht ▸ hd⟩

/-- The services of a deployment are the deployed ones. -/
theorem mem_services_iff (h : c.compile catalog secrets = .ok d) :
    desc ∈ d.services ↔
      ∃ name s, c.Runs name s ∧ c.describe catalog secrets name s = .ok desc := by
  constructor
  · intro hdesc
    obtain ⟨order, -, hservices⟩ := forall₂_services h
    obtain ⟨name, -, s, hs, hd⟩ := exists_mem_of_forall₂ hservices.flip hdesc
    exact ⟨name, s, hs, hd⟩
  · rintro ⟨name, s, hs, hd⟩
    obtain ⟨desc', hdesc', hd'⟩ := exists_mem_services h hs
    obtain rfl := Except.ok.inj (hd.symm.trans hd')
    exact hdesc'

/-- A deployed service is found by its name, with its own description. -/
theorem service?_eq_some_iff (h : c.compile catalog secrets = .ok d) :
    d.service? name = some desc ↔
      ∃ s, c.Runs name s ∧ c.describe catalog secrets name s = .ok desc := by
  have hfound : ∀ desc, d.service? name = some desc →
      ∃ s, c.Runs name s ∧ c.describe catalog secrets name s = .ok desc := by
    intro desc hdesc
    obtain ⟨name', s, hs, hd⟩ := (mem_services_iff h).1 (List.mem_of_find?_eq_some hdesc)
    obtain rfl : name' = name :=
      (describe_name hd).symm.trans (of_decide_eq_true (List.find?_some hdesc :))
    exact ⟨s, hs, hd⟩
  refine ⟨hfound desc, fun ⟨s, hs, hd⟩ => ?_⟩
  obtain ⟨desc', hdesc', hd'⟩ := exists_mem_services h hs
  have hsome : (d.service? name).isSome :=
    List.find?_isSome.2 ⟨desc', hdesc', decide_eq_true (describe_name hd')⟩
  obtain ⟨found, hfound'⟩ := Option.isSome_iff_exists.1 hsome
  obtain ⟨t, ht, hd''⟩ := hfound found hfound'
  rw [ht.eq hs] at hd''
  rw [hfound', Except.ok.inj (hd''.symm.trans hd)]

/-- A front end that is told twice to connect to its back end, and whose operator knows the
address better. -/
def frontend : ServiceConfig where
  portNumber := 3782
  connect := ["backend", "backend"]
  environment := .ofList [("BACKEND_URL", "https://example.org"), ("THEME", "dark")]

/-- The front end and its back end, which uses a model of a vendor. -/
def assistant : DeploymentConfig where
  llm := .vendor .openAi "gpt-4o" none none
  services := .ofList [
    ("backend", { portNumber := 8001, providers := [.llm, .embedding, .llm] }),
    ("frontend", frontend)]

def assistantCatalog : ResolvedCatalog := .ofList [
  ("backend", .build { name := "backend" } []), ("frontend", .build { name := "frontend" } [])]

def assistantSecrets : SecretSet := .ofList [("OPENAI_API_KEY", "vault:7")]

theorem startupOrder_assistant : assistant.startupOrder = .ok ["backend", "frontend"] := by
  have hgraph : assistant.startupGraph =
      ⟨["backend", "frontend"], [("backend", "frontend")]⟩ := by decide +kernel
  rw [startupOrder, hgraph]
  simp [Dependencies.order, Dependencies.walk, Dependencies.dependents, Dependencies.misplaced?,
    Dependencies.dependencies, Except.mapError]

theorem exists_compile_assistant :
    ∃ d, assistant.compile assistantCatalog assistantSecrets = .ok d := by
  obtain ⟨services, hservices⟩ := exists_eq_ok_of_isOk (x := assistant.describeAll
    assistantCatalog assistantSecrets ["backend", "frontend"]) (by decide +kernel)
  exact ⟨_, compile_eq_ok_iff.2 ⟨by decide +kernel, none, ["backend", "frontend"], services,
    by decide +kernel, startupOrder_assistant, hservices, rfl⟩⟩

end DeploymentConfig

end LayeredCatalog
