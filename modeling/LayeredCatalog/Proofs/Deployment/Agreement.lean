import LayeredCatalog.Proofs.Deployment.Services

/-!
# Two compilations side by side

A compilation looks at the deployed services, at which of the others are configured, at
the artifacts of the packages in use, at the records of the providers in use and at the
secrets that those need. Two inputs that agree on all this (`AgreesWith`) are taken through
the same stages: no stage can tell them apart, so the compilations end in the same way.

The secrets may have other handles. A handle is put into the credentials of a
description and nothing looks at it, so the results are then equal up to the handles
(`compile_eq_mapHandles`), and equal where the handles are (`compile_eq_of_agreesWith`).
-/

namespace LayeredCatalog

/-- Credentials with other handles: `f` gives the one for the name of a secret and the
handle that it had. -/
def mapHandles (f : String → String → String) (credentials : Table String Credential) :
    Table String Credential :=
  credentials.map fun k credential => { credential with secret := f k credential.secret }

theorem mapHandles_insert (f : String → String → String) (credentials : Table String Credential)
    (k : String) (credential : Credential) :
    mapHandles f (credentials.insert k credential) =
      (mapHandles f credentials).insert k { credential with secret := f k credential.secret } :=
  Table.map_insert _ credentials k credential

def ServiceDescription.mapHandles (f : String → String → String) (desc : ServiceDescription) :
    ServiceDescription :=
  { desc with credentials := LayeredCatalog.mapHandles f desc.credentials }

def Deployment.mapHandles (f : String → String → String) (d : Deployment) : Deployment :=
  { d with services := d.services.map (·.mapHandles f) }

theorem mapHandles_id (credentials : Table String Credential) :
    mapHandles (fun _ handle => handle) credentials = credentials := by
  refine Table.ext_get? fun k => ?_
  rw [mapHandles, Table.get?_map]
  simp

theorem Deployment.mapHandles_id (d : Deployment) : d.mapHandles (fun _ handle => handle) = d := by
  have hdesc : ∀ desc : ServiceDescription, desc.mapHandles (fun _ handle => handle) = desc := by
    intro desc
    rw [ServiceDescription.mapHandles, LayeredCatalog.mapHandles_id]
  simp [Deployment.mapHandles, hdesc]

namespace DeploymentConfig

/-- Some deployed service lists a role. -/
def Uses (c : DeploymentConfig) (role : Role) : Prop :=
  ∃ name s, c.Runs name s ∧ role ∈ s.providers

/-- A role that some deployed service lists needs a secret. -/
def NeedsSecret (c : DeploymentConfig) (secret : String) : Prop :=
  ∃ role needed, c.Uses role ∧ c.credential? role = some needed ∧ needed.secret = secret

/-- Two configurations, each with a catalog, agree on what a compilation looks at. -/
structure AgreesWith (c c' : DeploymentConfig) (catalog catalog' : ResolvedCatalog) : Prop where
  dataDir : c'.dataDir = c.dataDir
  credentialsDir : c'.credentialsDir = c.credentialsDir
  logLevel : c'.logLevel = c.logLevel
  user : c'.user = c.user
  /-- The same services are deployed, with the same records. -/
  runs : ∀ name s, c'.Runs name s ↔ c.Runs name s
  /-- The same services are configured besides. Their records need not be the same. -/
  disabled : ∀ name, c'.IsDisabled name ↔ c.IsDisabled name
  proxy : c'.proxy = c.proxy
  /-- A package of a deployed service is in both catalogs, with one artifact, or in none. -/
  artifact : ∀ name s, c.Runs name s →
    (catalog'.get? (s.package.getD name)).map (·.artifact) =
      (catalog.get? (s.package.getD name)).map (·.artifact)
  llm : c.Uses .llm → c'.llm = c.llm
  embedding : c.Uses .embedding → c'.embedding = c.embedding
  search : c.Uses .search → c'.search = c.search

variable {c c' : DeploymentConfig} {catalog catalog' : ResolvedCatalog}
  {secrets secrets' : SecretSet} {name : String} {s : ServiceConfig}

theorem AgreesWith.refl (c : DeploymentConfig) (catalog : ResolvedCatalog) :
    c.AgreesWith c catalog catalog where
  dataDir := rfl
  credentialsDir := rfl
  logLevel := rfl
  user := rfl
  runs _ _ := .rfl
  disabled _ := .rfl
  proxy := rfl
  artifact _ _ _ := rfl
  llm _ := rfl
  embedding _ := rfl
  search _ := rfl

namespace AgreesWith

section References

variable (h : c.AgreesWith c' catalog catalog')

include h

theorem get?_eq_none_iff {name : String} :
    c'.services.get? name = none ↔ c.services.get? name = none := by
  simp only [DeploymentConfig.get?_eq_none_iff, h.runs, h.disabled]

theorem target_eq : c'.target = c.target := by
  funext service target
  -- A service that is not deployed can have two records, but only its name gets into the fault.
  cases htarget : c.target service target with
  | ok t => exact target_eq_ok_iff.2 ((h.runs target t).2 (target_eq_ok_iff.1 htarget))
  | error e =>
      rw [target_eq_error_iff] at htarget ⊢
      rwa [h.get?_eq_none_iff, h.disabled]

theorem listenerOf_eq : c'.listenerOf = c.listenerOf := by
  funext service target
  rw [listenerOf, listenerOf, h.target_eq]

theorem enabledServices_eq : c'.enabledServices = c.enabledServices := by
  -- The deployed services are a table of their own, which its lookups determine.
  have htables : c'.services.filter (fun _ s => s.enable) = c.services.filter fun _ s => s.enable := by
    refine Table.ext_get? fun name => Option.ext fun s => ?_
    rw [Table.get?_eq_some_iff, Table.get?_eq_some_iff]
    exact mem_enabledServices.trans ((h.runs name s).trans mem_enabledServices.symm)
  exact congrArg Table.toList htables

theorem checkReferences_eq : c'.checkReferences = c.checkReferences := by
  simp only [checkReferences, checkService, h.enabledServices_eq, h.listenerOf_eq, h.target_eq]

theorem compileRoutes_eq (i : Nat) (rules : List RouteConfig) :
    c'.compileRoutes i rules = c.compileRoutes i rules := by
  induction rules generalizing i with
  | nil => rfl
  | cons rule rules ih => simp only [compileRoutes, h.listenerOf_eq, ih]

theorem compileRouting_eq : c'.compileRouting = c.compileRouting := by
  simp only [compileRouting, h.proxy, h.listenerOf_eq, h.compileRoutes_eq]

theorem startupOrder_eq : c'.startupOrder = c.startupOrder := by
  simp only [startupOrder, startupGraph, h.enabledServices_eq]

end References

section Services

variable {f : String → String → String} (h : c.AgreesWith c' catalog catalog')

include h

theorem ownVars_eq : c'.ownVars name s = c.ownVars name s := by
  simp only [ownVars, stateDir, h.dataDir, h.logLevel]

theorem provide_eq {role : Role} (hrole : c.Uses role) :
    c'.provide name role = c.provide name role := by
  cases role with
  | llm => rw [provide, provide, h.llm hrole]
  | embedding => rw [provide, provide, h.embedding hrole]
  | search => rw [provide, provide, h.search hrole]

theorem addConnection_eq : c'.addConnection name = c.addConnection name := by
  funext env target
  rw [addConnection, addConnection, h.listenerOf_eq]

theorem pathDirectives_eq (services : List ServiceDescription) :
    c'.pathDirectives (services.map (·.mapHandles f)) = c.pathDirectives services := by
  have hadd : c'.addAccess = c.addAccess := by
    funext directives a
    simp only [addAccess, h.user]
  rw [pathDirectives, pathDirectives, List.flatMap_map, hadd, rootDirective, rootDirective,
    h.dataDir, h.user]
  rfl

variable (hsecrets : ∀ k, c.NeedsSecret k → secrets'.get? k = (secrets.get? k).map (f k))

include hsecrets

/-- A provider adds the same variables and fails in the same way, and the handle of its
credential is the other one. -/
theorem addProvider_eq {role : Role} (hrole : c.Uses role)
    (made : DerivedEnv × Table String Credential) :
    c'.addProvider secrets' name (Prod.map id (mapHandles f) made) role =
      Prod.map id (mapHandles f) <$> c.addProvider secrets name made role := by
  rw [addProvider, addProvider, h.provide_eq hrole, map_bind]
  refine bind_congr_of_ok fun p hp => ?_
  rw [map_bind]
  refine bind_congr fun env => ?_
  cases hneeded : p.credential with
  | none => rfl
  | some needed =>
      have hcredential : c.credential? role = some needed := (provide_eq_ok hp).1 ▸ hneeded
      have hsecret := hsecrets needed.secret ⟨role, needed, hrole, hcredential, rfl⟩
      cases hhandle : secrets.get? needed.secret with
      | none =>
          rw [hhandle] at hsecret
          simp only [hsecret, hhandle]
          rfl
      | some handle =>
          rw [hhandle] at hsecret
          simp only [hsecret, hhandle, Option.map_some, credentialPath, h.credentialsDir, map_bind,
            map_pure, Prod.map, mapHandles_insert]
          rfl

theorem addProviders_eq (hs : c.Runs name s) (env : DerivedEnv) :
    (rolesOf s).foldlM (c'.addProvider secrets' name) (env, .empty) =
      Prod.map id (mapHandles f) <$>
        (rolesOf s).foldlM (c.addProvider secrets name) (env, .empty) := by
  refine foldlM_map_state (Prod.map id (mapHandles f)) (fun role hrole made => ?_) (env, .empty)
  exact h.addProvider_eq hsecrets ⟨name, s, hs, mem_rolesOf.1 hrole⟩ made

/-- A deployed service is described in the same way but for the handles. -/
theorem describe_eq (hs : c.Runs name s) :
    c'.describe catalog' secrets' name s =
      ServiceDescription.mapHandles f <$> c.describe catalog secrets name s := by
  have hartifact := h.artifact name s hs
  rw [describe, describe, ServiceConfig.packageFor, ← rolesOf]
  cases hplan : catalog.get? (s.package.getD name) with
  | none =>
      rw [hplan, Option.map_none, Option.map_eq_none_iff] at hartifact
      rw [hartifact]
      rfl
  | some plan =>
      rw [hplan, Option.map_some, Option.map_eq_some_iff] at hartifact
      obtain ⟨plan', hplan', heq⟩ := hartifact
      rw [hplan']
      simp only [h.ownVars_eq, h.addProviders_eq hsecrets hs, h.addConnection_eq, map_bind,
        bind_map_left, heq, h.user, stateDir, h.dataDir]
      rfl

theorem describeAll_eq {names : List String} (hnames : ∀ name ∈ names, ∃ s, c.Runs name s) :
    c'.describeAll catalog' secrets' names =
      List.map (·.mapHandles f) <$> c.describeAll catalog secrets names := by
  induction names with
  | nil => rfl
  | cons name names ih =>
      obtain ⟨⟨s, hs⟩, hnames⟩ := List.forall_mem_cons.1 hnames
      simp only [describeAll, hs.1, ((h.runs name s).2 hs).1, h.describe_eq hsecrets hs, ih hnames,
        map_bind, bind_map_left]
      rfl

/-- The compilations end in the same way but for the handles. -/
theorem compile_eq_mapHandles : c'.compile catalog' secrets' =
    Deployment.mapHandles f <$> c.compile catalog secrets := by
  rw [compile, compile, h.checkReferences_eq, h.compileRouting_eq, h.startupOrder_eq, map_bind]
  refine bind_congr_of_ok fun _ hreferences => ?_
  rw [map_bind]
  refine bind_congr fun routing => ?_
  rw [map_bind]
  refine bind_congr_of_ok fun order horder => ?_
  -- The order lists deployed services only, since the references have been checked.
  obtain ⟨-, hmem, -⟩ := startupOrder_eq_ok hreferences horder
  rw [h.describeAll_eq hsecrets fun name hname => (hmem name).1 hname, map_bind, bind_map_left]
  simp only [h.pathDirectives_eq]
  rfl

end Services

end AgreesWith

/-- What a compilation does not look at makes no difference to it. -/
theorem compile_eq_of_agreesWith (h : c.AgreesWith c' catalog catalog')
    (hsecrets : ∀ k, c.NeedsSecret k → secrets'.get? k = secrets.get? k) :
    c'.compile catalog' secrets' = c.compile catalog secrets := by
  have hid : ∀ k, c.NeedsSecret k →
      secrets'.get? k = (secrets.get? k).map fun handle => handle := by
    intro k hk
    rw [hsecrets k hk, Option.map_id']
  rw [h.compile_eq_mapHandles hid, funext Deployment.mapHandles_id]
  exact id_map _

/-- The front end and its back end beside a service that is not deployed. -/
def resting : DeploymentConfig :=
  { assistant with services := assistant.services.insert "indexer" { enable := false } }

/-- The service is prepared, and so is the web search that it will need. -/
def prepared : DeploymentConfig :=
  { assistant with
    search := { enable := true, provider := .kagi }
    services := assistant.services.insert "indexer"
      { enable := false, portNumber := 7000, connect := ["reader"], providers := [.search] } }

theorem agreesWith_prepared (plan : Plan) : resting.AgreesWith prepared assistantCatalog
    (assistantCatalog.insert "indexer" plan) := by
  have henabled : prepared.enabledServices = resting.enabledServices := by decide +kernel
  have hservices : ∀ e ∈ resting.enabledServices,
      .search ∉ e.2.providers ∧ e.2.package.getD e.1 ≠ "indexer" := by decide +kernel
  refine {
    dataDir := rfl, credentialsDir := rfl, logLevel := rfl, user := rfl, proxy := rfl
    runs := fun name s => ?_
    disabled := fun name => ?_
    artifact := fun name s hs => ?_
    llm := fun _ => rfl
    embedding := fun _ => rfl
    search := ?_ }
  · rw [← mem_enabledServices, henabled, mem_enabledServices]
  · simp only [IsDisabled, prepared, resting, Table.get?_insert]
    split
    · simp
    · rfl
  · have hpackage := (hservices _ (mem_enabledServices.2 hs)).2
    rw [Table.get?_insert, if_neg hpackage]
  · rintro ⟨name, s, hs, hrole⟩
    exact absurd hrole (hservices _ (mem_enabledServices.2 hs)).1

theorem compile_prepared : ∃ d, resting.compile assistantCatalog assistantSecrets = .ok d ∧
    prepared.compile (assistantCatalog.insert "indexer" (.build { name := "indexer" } []))
      (assistantSecrets.insert "KAGI_API_KEY" "vault:8") = .ok d := by
  have hsecret : ∀ e ∈ resting.enabledServices, ∀ role ∈ e.2.providers,
      ∀ needed ∈ resting.credential? role, needed.secret ≠ "KAGI_API_KEY" := by decide +kernel
  obtain ⟨services, hservices⟩ := exists_eq_ok_of_isOk (x := resting.describeAll assistantCatalog
    assistantSecrets ["backend", "frontend"]) (by decide +kernel)
  have hgraph : resting.startupGraph = assistant.startupGraph := by decide +kernel
  have horder : resting.startupOrder = .ok ["backend", "frontend"] := by
    rw [startupOrder, hgraph]
    exact startupOrder_assistant
  have hcompile := compile_eq_ok_iff.2 ⟨by decide +kernel, none, _, services, by decide +kernel,
    horder, hservices, rfl⟩
  refine ⟨_, hcompile, ?_⟩
  rw [compile_eq_of_agreesWith (agreesWith_prepared _) ?_]
  · exact hcompile
  · rintro k ⟨role, needed, ⟨name, s, hs, hrole⟩, hneeded, rfl⟩
    rw [Table.get?_insert, if_neg]
    exact hsecret _ (mem_enabledServices.2 hs) role hrole needed hneeded

end DeploymentConfig

end LayeredCatalog
