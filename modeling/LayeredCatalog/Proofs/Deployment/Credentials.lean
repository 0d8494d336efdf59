import LayeredCatalog.Proofs.Deployment.Variables

/-!
# The credentials of a service

A service has a credential for each secret that stands behind one of its roles. The
credentials are kept by their secrets, while each role has a variable of its own for the
path, and several roles can share a secret. A later role then writes the entry of an earlier
one again, and it writes the same: the path of a credential depends on the service and the
secret only. So the variable of a role always names the file of the entry that is kept
(`compile_hasCredentials`).
-/

namespace LayeredCatalog

namespace DeploymentConfig

variable {c : DeploymentConfig} {catalog : ResolvedCatalog} {secrets : SecretSet}
  {name : String} {s : ServiceConfig} {desc : ServiceDescription} {role : Role}

/-- A secret stands behind a role, and a variable holds the path of its file. Behind a model
there is one if it is reached through a vendor, and web search always has one. Where the
configuration names no secret, it is the one of the vendor or of the search provider. -/
inductive UsesSecret (c : DeploymentConfig) : Role → String → String → Prop
  | vendor {role : Role} {company : Vendor} {model : String} {apiKey baseUrl : Option String}
      (h : c.binding? role = some (.vendor company model apiKey baseUrl)) :
      UsesSecret c role (role.about ++ "_API_KEY_FILE") (apiKey.getD company.secret)
  | search : UsesSecret c .search (c.search.provider.keyVariable ++ "_FILE")
      (c.search.apiKey.getD c.search.provider.keyVariable)

/-- The credentials of a described service are those that its roles need, each is found
where the variables of these roles say, and each has the handle of its secret. -/
structure HasCredentials (c : DeploymentConfig) (secrets : SecretSet) (name : String)
    (s : ServiceConfig) (desc : ServiceDescription) : Prop where
  nodup : desc.credentials.keys.Nodup
  mem_keys_iff : ∀ k, k ∈ desc.credentials.keys ↔ ∃ role ∈ s.providers, ∃ v, c.UsesSecret role v k
  entry : ∀ k credential, desc.credentials.get? k = some credential →
    secrets.get? k = some credential.secret ∧
      credential.path = (c.credentialsDir.join name).join k
  told : ∀ role ∈ s.providers, ∀ v k, c.UsesSecret role v k →
    ∃ credential, desc.credentials.get? k = some credential ∧
      (s.environment.get? v = none → desc.environment.get? v = some credential.path.text)

theorem usesSecret_iff {v k : String} :
    c.UsesSecret role v k ↔ c.credential? role = some ⟨v, k⟩ := by
  constructor
  · intro h
    cases h with
    | @vendor _ company model apiKey baseUrl h =>
        cases role with
        | llm => rw [credential?, Option.some.inj h, Binding.credential?, Role.about]
        | embedding => rw [credential?, Option.some.inj h, Binding.credential?, Role.about]
        | search => cases h
    | search => rfl
  · intro h
    have hvendor : ∀ b : Binding, c.binding? role = some b →
        b.credential? role.about = some ⟨v, k⟩ → c.UsesSecret role v k := by
      intro b hb hneeded
      cases b with
      | onPremises model baseUrl => cases hneeded
      | vendor company model apiKey baseUrl =>
          cases hneeded
          exact .vendor hb
    cases role with
    | llm => exact hvendor c.llm rfl h
    | embedding => exact hvendor c.embedding.binding rfl h
    | search =>
        cases h
        exact .search

/-- What a source gives is in the environment, unless the operator gives the variable. -/
theorem get?_environment_of_derives (h : c.describe catalog secrets name s = .ok desc)
    {a : Source} {key v : String} (ha : c.Derives name s a key v)
    (hnone : s.environment.get? key = none) : desc.environment.get? key = some v := by
  obtain ⟨plan, -, havailable, -, hagree, -, rfl⟩ := describe_eq_ok_iff.1 h
  have hunique : ∀ a b key v w, c.Derives name s a key v → c.Derives name s b key w → v = w := by
    intro a b key v w ha hb
    obtain rfl := (agree_derivedPairs_iff havailable).1 hagree a b key v w ha hb
    exact ha.value_unique havailable hb
  refine (Table.get?_insertMany_toList _ _ key).trans ?_
  rw [hnone, Option.none_or]
  exact (get?_values_derivedPairs_eq_some_iff havailable hunique).2 ⟨a, ha⟩

theorem hasCredentials_of_describe (h : c.describe catalog secrets name s = .ok desc) :
    c.HasCredentials secrets name s desc := by
  have hentry : ∀ k credential, desc.credentials.get? k = some credential →
      secrets.get? k = some credential.secret ∧
        credential.path = (c.credentialsDir.join name).join k := by
    intro k credential hk
    obtain ⟨-, handle, hhandle, rfl⟩ := (get?_credentials_iff h).1 hk
    exact ⟨hhandle, rfl⟩
  have hkept : ∀ role ∈ s.providers, ∀ v k, c.UsesSecret role v k →
      ∃ credential, desc.credentials.get? k = some credential := by
    intro role hrole v k huses
    have hneeded := usesSecret_iff.1 huses
    obtain ⟨-, -, havailable, -⟩ := describe_eq_ok_iff.1 h
    obtain ⟨handle, hhandle⟩ :=
      Option.isSome_iff_exists.1 ((havailable role hrole).secret _ hneeded)
    exact ⟨_, (get?_credentials_iff h).2 ⟨⟨role, hrole, _, hneeded, rfl⟩, handle, hhandle, rfl⟩⟩
  refine ⟨desc.credentials.nodup_keys, fun k => ?_, hentry, fun role hrole v k huses => ?_⟩
  · rw [← Table.contains_iff_mem_keys, Table.contains, Option.isSome_iff_exists]
    constructor
    · rintro ⟨credential, hk⟩
      obtain ⟨⟨role, hrole, needed, hneeded, rfl⟩, -⟩ := (get?_credentials_iff h).1 hk
      exact ⟨role, hrole, needed.fileVariable, usesSecret_iff.2 hneeded⟩
    · rintro ⟨role, hrole, v, huses⟩
      exact hkept role hrole v k huses
  · obtain ⟨credential, hk⟩ := hkept role hrole v k huses
    refine ⟨credential, hk, fun hnone => ?_⟩
    rw [(hentry k credential hk).2]
    exact get?_environment_of_derives h (.keyFile hrole (usesSecret_iff.1 huses)) hnone

/-- Every service of a deployment has the credentials that its roles need. -/
theorem compile_hasCredentials {d : Deployment} (h : c.compile catalog secrets = .ok d)
    (hs : c.Runs name s) :
    ∃ desc, d.service? name = some desc ∧ c.HasCredentials secrets name s desc := by
  obtain ⟨desc, -, hdesc⟩ := exists_mem_services h hs
  exact ⟨desc, (service?_eq_some_iff h).2 ⟨s, hs, hdesc⟩, hasCredentials_of_describe hdesc⟩

/-- A service that uses two models through one gateway. -/
def gatewayUser : ServiceConfig := { providers := [.embedding, .llm] }

/-- Both models are reached with one secret. -/
def sharedSecret : DeploymentConfig where
  llm := .vendor .anthropic "claude" (some "GATEWAY_KEY") none
  embedding := { binding := .vendor .openAi "text-embedding-3-small" (some "GATEWAY_KEY") none }
  services := .ofList [("backend", gatewayUser)]

def gatewaySecrets : SecretSet := .ofList [("GATEWAY_KEY", "vault:9")]

theorem exists_compile_sharedSecret :
    ∃ d, sharedSecret.compile assistantCatalog gatewaySecrets = .ok d := by
  have horder : sharedSecret.startupOrder = .ok ["backend"] := by
    have hgraph : sharedSecret.startupGraph = ⟨["backend"], []⟩ := by decide +kernel
    rw [startupOrder, hgraph]
    simp [Dependencies.order, Dependencies.walk, Dependencies.dependents,
      Dependencies.misplaced?, Dependencies.dependencies, Except.mapError]
  obtain ⟨services, hservices⟩ := exists_eq_ok_of_isOk (x := sharedSecret.describeAll
    assistantCatalog gatewaySecrets ["backend"]) (by decide +kernel)
  exact ⟨_, compile_eq_ok_iff.2 ⟨by decide +kernel, none, ["backend"], services,
    by decide +kernel, horder, hservices, rfl⟩⟩

/-- The variables of both models name the file of the one credential. -/
theorem compile_hasCredentials_sharedSecret :
    ∃ d desc credential, sharedSecret.compile assistantCatalog gatewaySecrets = .ok d ∧
      sharedSecret.Runs "backend" gatewayUser ∧ d.service? "backend" = some desc ∧
      desc.credentials.get? "GATEWAY_KEY" = some credential ∧ credential.secret = "vault:9" ∧
      desc.environment.get? "LLM_API_KEY_FILE" = some credential.path.text ∧
      desc.environment.get? "EMBEDDING_API_KEY_FILE" = some credential.path.text := by
  obtain ⟨d, hd⟩ := exists_compile_sharedSecret
  have hs : sharedSecret.Runs "backend" gatewayUser := ⟨by decide +kernel, rfl⟩
  obtain ⟨desc, hdesc, hcredentials⟩ := compile_hasCredentials hd hs
  obtain ⟨credential, hk, hllm⟩ := hcredentials.told .llm (by decide) "LLM_API_KEY_FILE"
    "GATEWAY_KEY" (usesSecret_iff.2 rfl)
  obtain ⟨credential', hk', hembedding⟩ := hcredentials.told .embedding (by decide)
    "EMBEDDING_API_KEY_FILE" "GATEWAY_KEY" (usesSecret_iff.2 rfl)
  obtain rfl := Option.some.inj (hk.symm.trans hk')
  have hsecret : gatewaySecrets.get? "GATEWAY_KEY" = some "vault:9" := by decide +kernel
  have hhandle := (hcredentials.entry _ _ hk).1
  exact ⟨d, desc, credential, hd, hs, hdesc, hk, Option.some.inj (hhandle.symm.trans hsecret),
    hllm rfl, hembedding rfl⟩

end DeploymentConfig

end LayeredCatalog
