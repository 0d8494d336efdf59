import LayeredCatalog.Proofs.Deployment.Environment
import LayeredCatalog.Proofs.Deployment.References

/-!
# What is derived for a service

Each variable of a service comes from a source: the service itself, a provider or a
service that it connects to. `Derives` says which variables each source gives and which
values; `Available` says when a provider can be used. Adding a provider or a connection
to an environment succeeds exactly if it is available and the pairs still agree
(`addProvider_eq_ok_iff`, `addConnection_eq_ok_iff`).
-/

namespace LayeredCatalog

/-- Where a variable of a service comes from. -/
inductive Source where
  | service
  | provider (role : Role)
  | connection (target : String)
deriving DecidableEq, Repr

def Source.connectionLabel (target : String) : String := s!"connect target \"{target}\""

/-- What a source is called in an environment. -/
def Source.label : Source → String
  | .service => "service"
  | .provider role => "provider " ++ role.name
  | .connection target => connectionLabel target

theorem Role.name_inj {r r' : Role} (h : r.name = r'.name) : r = r' := by
  cases r <;> cases r' <;> first | rfl | (absurd h; decide)

namespace Source

/-- The kinds of sources are told apart by the first letter of what they are called. -/
def initial : Source → Char
  | .service => 's'
  | .provider _ => 'p'
  | .connection _ => 'c'

theorem connectionLabel_eq (target : String) :
    connectionLabel target = "connect target \"" ++ target ++ "\"" := rfl

theorem head?_label (a : Source) : a.label.toList.head? = some a.initial := by
  cases a with
  | service => rfl
  | provider role =>
      rw [label, String.toList_append]
      rfl
  | connection target =>
      rw [label, connectionLabel_eq, String.toList_append, String.toList_append]
      rfl

theorem label_inj {a b : Source} (h : a.label = b.label) : a = b := by
  have hinitial : a.initial = b.initial := by
    rw [← Option.some.injEq, ← head?_label, ← head?_label, h]
  cases a with
  | service =>
      cases b with
      | service => rfl
      | provider role => simp [initial] at hinitial
      | connection target => simp [initial] at hinitial
  | provider role =>
      cases b with
      | service => simp [initial] at hinitial
      | provider role' =>
          rw [label, label, String.append_right_inj] at h
          rw [Role.name_inj h]
      | connection target => simp [initial] at hinitial
  | connection target =>
      cases b with
      | service => simp [initial] at hinitial
      | provider role => simp [initial] at hinitial
      | connection target' =>
          rw [label, label, connectionLabel_eq, connectionLabel_eq, String.append_left_inj,
            String.append_right_inj] at h
          exact congrArg connection h

end Source

namespace Binding

/-- What services are told about how the model is reached. -/
def label : Binding → String
  | .onPremises _ _ => "local"
  | .vendor company _ _ _ => company.binding

/-- Where the model is reached, unless a vendor has no endpoint and is given none. -/
def endpoint? : Binding → Option String
  | .onPremises _ baseUrl => some baseUrl
  | .vendor company _ _ baseUrl => baseUrl.or company.endpoint?

def credential? (about : String) : Binding → Option Environment.CredentialVar
  | .onPremises _ _ => none
  | .vendor company _ apiKey _ => some ⟨about ++ "_API_KEY_FILE", apiKey.getD company.secret⟩

end Binding

/-- What the variables of a provider begin with. -/
def Role.about : Role → String
  | .llm => "LLM"
  | .embedding => "EMBEDDING"
  | .search => "SEARCH"

namespace DeploymentConfig

variable {c : DeploymentConfig} {secrets : SecretSet} {name : String} {role : Role}

/-- The binding behind a role. -/
def binding? (c : DeploymentConfig) : Role → Option Binding
  | .llm => some c.llm
  | .embedding => some c.embedding.binding
  | .search => none

/-- The credential of a role, with the variable for its path. -/
def credential? (c : DeploymentConfig) : Role → Option Environment.CredentialVar
  | .llm => c.llm.credential? "LLM"
  | .embedding => c.embedding.binding.credential? "EMBEDDING"
  | .search => some ⟨c.search.provider.keyVariable ++ "_FILE",
      c.search.apiKey.getD c.search.provider.keyVariable⟩

/-- A role gives a variable a value, apart from the path of its credential. -/
inductive Tells (c : DeploymentConfig) : Role → String → String → Prop
  | label {role : Role} {b : Binding} (h : c.binding? role = some b) :
      Tells c role (role.about ++ "_BINDING") b.label
  | model {role : Role} {b : Binding} (h : c.binding? role = some b) :
      Tells c role (role.about ++ "_MODEL") b.model
  | endpoint {role : Role} {b : Binding} {url : String} (h : c.binding? role = some b)
      (hurl : b.endpoint? = some url) : Tells c role (role.about ++ "_HOST") url
  | dimension : Tells c .embedding "EMBEDDING_DIMENSION" (toString c.embedding.dimension.toNat)
  | search : Tells c .search "SEARCH_PROVIDER" c.search.provider.name

/-- A role can be used: a vendor behind it is given an endpoint or has one, web search
is switched on, and the secret of its credential is there. -/
structure Available (c : DeploymentConfig) (secrets : SecretSet) (role : Role) : Prop where
  endpoint : ∀ vendor model apiKey baseUrl,
    c.binding? role = some (.vendor vendor model apiKey baseUrl) →
      baseUrl.isSome ∨ vendor.endpoint?.isSome
  search : role = .search → c.search.enable
  secret : ∀ needed, c.credential? role = some needed → secrets.contains needed.secret

/-- A source gives a variable of a service a value. -/
inductive Derives (c : DeploymentConfig) (name : String) (s : ServiceConfig) :
    Source → String → String → Prop
  | name : Derives c name s .service "STRATA_SERVICE" name
  | logLevel : Derives c name s .service "LOG_LEVEL" c.logLevel.name
  | dataDir : Derives c name s .service "DATA_DIR" (c.stateDir name).text
  | host (h : 0 < s.portNumber) : Derives c name s .service "HOST" s.host
  | portNumber (h : 0 < s.portNumber) :
      Derives c name s .service "PORT" (toString s.portNumber.toNat)
  | provider {role : Role} {key value : String} (h : role ∈ s.providers)
      (htells : c.Tells role key value) : Derives c name s (.provider role) key value
  | keyFile {role : Role} {needed : Environment.CredentialVar} (h : role ∈ s.providers)
      (hneeded : c.credential? role = some needed) :
      Derives c name s (.provider role) needed.fileVariable
        (c.credentialPath name needed.secret).text
  | connection {target : String} {t : ServiceConfig} {e : String × String}
      (h : target ∈ s.connect) (ht : c.services.get? target = some t)
      (he : e ∈ Environment.connection target ⟨t.host, t.portNumber⟩) :
      Derives c name s (.connection target) e.1 e.2

end DeploymentConfig

namespace Binding

/-- What a binding with an endpoint tells. -/
def told (about : String) (b : Binding) (url : String) : List (String × String) :=
  [(about ++ "_BINDING", b.label), (about ++ "_MODEL", b.model), (about ++ "_HOST", url)]

theorem exists_endpoint?_iff {b : Binding} :
    (∃ url, b.endpoint? = some url) ↔ ∀ company model apiKey baseUrl,
      b = .vendor company model apiKey baseUrl → baseUrl.isSome ∨ company.endpoint?.isSome := by
  cases b with
  | onPremises model baseUrl => simp [endpoint?]
  | vendor company model apiKey baseUrl =>
      rw [← Option.isSome_iff_exists, endpoint?, Option.isSome_or, Bool.or_eq_true]
      constructor
      · rintro h _ _ _ _ ⟨⟩
        exact h
      · intro h
        exact h company model apiKey baseUrl rfl

theorem ofBinding_eq_ok_iff {about option : String} {b : Binding} {p : Environment.ProviderVars} :
    Environment.ofBinding about option b = .ok p ↔
      ∃ url, b.endpoint? = some url ∧ p = ⟨.ofList (b.told about url), b.credential? about⟩ := by
  cases b with
  | onPremises model baseUrl => simp [Environment.ofBinding, endpoint?, told, label, Binding.model,
      credential?, eq_comm]
  | vendor company model apiKey baseUrl =>
      rw [Environment.ofBinding, endpoint?]
      split
      · next hnone => simp [hnone]
      · next url hurl => simp [hurl, told, label, Binding.model, credential?, eq_comm]

end Binding

namespace DeploymentConfig

variable {c : DeploymentConfig} {secrets : SecretSet} {name : String} {role : Role}
  {p : Environment.ProviderVars}

/-- What a role tells besides its binding. -/
def toldBesides (c : DeploymentConfig) : Role → List (String × String)
  | .embedding => [("EMBEDDING_DIMENSION", toString c.embedding.dimension.toNat)]
  | .llm | .search => []

theorem tells_iff {b : Binding} {url key value : String} (hb : c.binding? role = some b)
    (hurl : b.endpoint? = some url) :
    c.Tells role key value ↔ (key, value) ∈ b.told role.about url ++ c.toldBesides role := by
  constructor
  · intro h
    cases h with
    | label hb' =>
        rw [← Option.some.inj (hb.symm.trans hb')]
        simp [Binding.told]
    | model hb' =>
        rw [← Option.some.inj (hb.symm.trans hb')]
        simp [Binding.told]
    | endpoint hb' hurl' =>
        rw [← Option.some.inj (hb.symm.trans hb')] at hurl'
        rw [← Option.some.inj (hurl.symm.trans hurl')]
        simp [Binding.told]
    | dimension => simp [toldBesides]
    | search => cases hb
  · intro h
    simp only [Binding.told, List.mem_append, List.mem_cons, Prod.mk.injEq, List.not_mem_nil,
      or_false] at h
    rcases h with (⟨rfl, rfl⟩ | ⟨rfl, rfl⟩ | ⟨rfl, rfl⟩) | h
    · exact .label hb
    · exact .model hb
    · exact .endpoint hb hurl
    · cases role with
      | llm => cases h
      | embedding =>
          obtain ⟨rfl, rfl⟩ := Prod.mk.inj (List.mem_singleton.1 h)
          exact .dimension
      | search => cases h

theorem nodup_keys_told (c : DeploymentConfig) (role : Role) (b : Binding) (url : String) :
    ((b.told role.about url ++ c.toldBesides role).map Prod.fst).Nodup := by
  cases role with
  | llm => simp [Binding.told, toldBesides]
  | embedding => simp [Binding.told, toldBesides, Role.about]
  | search => simp [Binding.told, toldBesides]

theorem provide_binding_eq_ok_iff {b : Binding} (hb : c.binding? role = some b) :
    c.provide name role = .ok p ↔ ∃ url, b.endpoint? = some url ∧
      p = ⟨.ofList (b.told role.about url ++ c.toldBesides role), c.credential? role⟩ := by
  cases role with
  | llm =>
      cases hb
      rw [provide, Binding.ofBinding_eq_ok_iff]
      simp [toldBesides, Role.about, credential?]
  | embedding =>
      cases hb
      have hinsert : ∀ url, (Table.ofList (c.embedding.binding.told "EMBEDDING" url)).insert
          "EMBEDDING_DIMENSION" (toString c.embedding.dimension.toNat) =
            .ofList (c.embedding.binding.told "EMBEDDING" url ++ c.toldBesides .embedding) :=
        fun url => rfl
      simp only [provide, map_eq_ok_iff, Binding.ofBinding_eq_ok_iff]
      constructor
      · rintro ⟨-, ⟨url, hurl, rfl⟩, rfl⟩
        exact ⟨url, hurl, by rw [hinsert]; rfl⟩
      · rintro ⟨url, hurl, rfl⟩
        exact ⟨_, ⟨url, hurl, rfl⟩, by rw [hinsert]; rfl⟩
  | search => cases hb

theorem provide_search_eq_ok_iff :
    c.provide name .search = .ok p ↔ c.search.enable ∧ p = Environment.ofSearch c.search := by
  rw [provide]
  split
  · next h => simp [h, eq_comm]
  · next h => simp [h]

theorem binding?_cases (c : DeploymentConfig) (role : Role) :
    role = .search ∨ ∃ b, c.binding? role = some b := by
  cases role with
  | llm => exact .inr ⟨_, rfl⟩
  | embedding => exact .inr ⟨_, rfl⟩
  | search => exact .inl rfl

/-- What a provider adds to an environment are its variables and its credential. -/
theorem provide_eq_ok (h : c.provide name role = .ok p) :
    p.credential = c.credential? role ∧
      ∀ key value, (key, value) ∈ p.vars.toList ↔ c.Tells role key value := by
  rcases c.binding?_cases role with rfl | ⟨b, hb⟩
  · obtain ⟨-, rfl⟩ := provide_search_eq_ok_iff.1 h
    refine ⟨rfl, fun key value => ?_⟩
    rw [Environment.ofSearch, Table.mem_toList_ofList (by simp), List.mem_singleton]
    constructor
    · intro he
      obtain ⟨rfl, rfl⟩ := Prod.mk.inj he
      exact .search
    · intro htells
      cases htells with
      | label hb => cases hb
      | model hb => cases hb
      | endpoint hb _ => cases hb
      | search => rfl
  · obtain ⟨url, hurl, rfl⟩ := (provide_binding_eq_ok_iff hb).1 h
    refine ⟨rfl, fun key value => ?_⟩
    rw [tells_iff hb hurl, Table.mem_toList_ofList (nodup_keys_told c role b url)]

theorem exists_provide_eq_ok_iff :
    (∃ p, c.provide name role = .ok p) ↔
      (∀ company model apiKey baseUrl,
        c.binding? role = some (.vendor company model apiKey baseUrl) →
          baseUrl.isSome ∨ company.endpoint?.isSome) ∧ (role = .search → c.search.enable) := by
  rcases c.binding?_cases role with rfl | ⟨b, hb⟩
  · simp [provide_search_eq_ok_iff, binding?]
  · have hne : role ≠ .search := by
      rintro rfl
      cases hb
    simp only [provide_binding_eq_ok_iff hb, hb, Option.some.injEq, hne, false_imp_iff, and_true,
      ← Binding.exists_endpoint?_iff]
    constructor
    · rintro ⟨-, url, hurl, -⟩
      exact ⟨url, hurl⟩
    · rintro ⟨url, hurl⟩
      exact ⟨_, url, hurl, rfl⟩

theorem available_iff (name : String) :
    c.Available secrets role ↔ (∃ p, c.provide name role = .ok p) ∧
      ∀ needed, c.credential? role = some needed → secrets.contains needed.secret := by
  rw [exists_provide_eq_ok_iff]
  constructor
  · rintro ⟨hendpoint, hsearch, hsecret⟩
    exact ⟨⟨hendpoint, hsearch⟩, hsecret⟩
  · rintro ⟨⟨hendpoint, hsearch⟩, hsecret⟩
    exact ⟨hendpoint, hsearch, hsecret⟩

open DerivedEnv

/-- The variable that holds the path of a credential. -/
def keyFile (c : DeploymentConfig) (name : String) (needed : Environment.CredentialVar) :
    String × String :=
  (needed.fileVariable, (c.credentialPath name needed.secret).text)

/-- The pairs that a provider adds. -/
def providerPairs (c : DeploymentConfig) (name : String) (role : Role) :
    List (String × DerivedValue) :=
  match c.provide name role with
  | .ok p => derivedFrom (Source.provider role).label
      (p.vars.toList ++ (p.credential.map (c.keyFile name)).toList)
  | .error _ => []

/-- The credential that a provider adds, if it needs one. -/
def credentialEntries (c : DeploymentConfig) (secrets : SecretSet) (name : String) (role : Role) :
    List (String × Credential) :=
  match c.credential? role with
  | some needed => ((secrets.get? needed.secret).map fun handle =>
      (needed.secret, ⟨handle, c.credentialPath name needed.secret⟩)).toList
  | none => []

theorem mem_credentialEntries {k : String} {credential : Credential} :
    (k, credential) ∈ c.credentialEntries secrets name role ↔
      ∃ needed handle, c.credential? role = some needed ∧
        secrets.get? needed.secret = some handle ∧ k = needed.secret ∧
        credential = ⟨handle, c.credentialPath name needed.secret⟩ := by
  rw [credentialEntries]
  cases c.credential? role with
  | none => simp
  | some needed =>
      simp [Option.map_eq_some_iff, eq_comm (a := k), eq_comm (a := credential)]

theorem mem_providerPairs (h : c.provide name role = .ok p) {key : String} {v : DerivedValue} :
    (key, v) ∈ c.providerPairs name role ↔ v.source = (Source.provider role).label ∧
      (c.Tells role key v.value ∨
        ∃ needed, c.credential? role = some needed ∧ c.keyFile name needed = (key, v.value)) := by
  obtain ⟨hcredential, htells⟩ := provide_eq_ok h
  simp only [providerPairs, h, mem_derivedFrom, List.mem_append, Option.mem_toList,
    Option.map_eq_some_iff, hcredential, ← htells]

/-- A provider is added exactly if it is available and the pairs still agree. -/
theorem addProvider_eq_ok_iff {pairs : List (String × DerivedValue)} (h : Agree pairs)
    {made : Table String Credential} {made' : DerivedEnv × Table String Credential} :
    c.addProvider secrets name (ofPairs name pairs, made) role = .ok made' ↔
      c.Available secrets role ∧ Agree (pairs ++ c.providerPairs name role) ∧
        made' = (ofPairs name (pairs ++ c.providerPairs name role),
          made.insertMany (c.credentialEntries secrets name role)) := by
  have hconcat : ∀ vars needed, pairs ++ derivedFrom (Source.provider role).label vars ++
      [(needed.fileVariable, ⟨(Source.provider role).label,
        (c.credentialPath name needed.secret).text⟩)] =
      pairs ++ derivedFrom (Source.provider role).label (vars ++ [c.keyFile name needed]) := by
    intro vars needed
    rw [derivedFrom_append, List.append_assoc]
    rfl
  rw [addProvider, available_iff name]
  cases hp : c.provide name role with
  | error e => simp [bind_eq_ok_iff]
  | ok p =>
      have hcredential := (provide_eq_ok hp).1
      simp only [bind_eq_ok_iff, Except.ok.injEq, exists_eq_left', exists_eq', true_and,
        providerPairs, hp, credentialEntries, ← hcredential]
      cases hneeded : p.credential with
      | none =>
          simp only [pure_eq_ok_iff, Option.map_none, Option.toList_none, List.append_nil]
          constructor
          · rintro ⟨env, henv, rfl⟩
            obtain ⟨hagree, rfl⟩ := (extend_eq_ok_iff h).1 henv
            exact ⟨by simp, hagree, rfl⟩
          · rintro ⟨-, hagree, rfl⟩
            exact ⟨_, (extend_eq_ok_iff h).2 ⟨hagree, rfl⟩, rfl⟩
      | some needed =>
          cases hsecret : secrets.get? needed.secret with
          | none =>
              -- The variables were taken up, but the provider is not available.
              constructor
              · rintro ⟨env, -, hmissing⟩
                simp only [hsecret] at hmissing
                cases hmissing
              · rintro ⟨hcontains, -⟩
                have := hcontains needed rfl
                rw [Table.contains, hsecret] at this
                cases this
          | some handle =>
              simp only [Option.map_some, Option.toList_some, hsecret, bind_eq_ok_iff,
                pure_eq_ok_iff, ← hconcat]
              constructor
              · rintro ⟨env, henv, env', henv', rfl⟩
                obtain ⟨hagree, rfl⟩ := (extend_eq_ok_iff h).1 henv
                obtain ⟨hagree', rfl⟩ := (insert_eq_ok_iff hagree).1 henv'
                refine ⟨?_, hagree', rfl⟩
                rintro needed' ⟨⟩
                rw [Table.contains, hsecret]
                rfl
              · rintro ⟨-, hagree, rfl⟩
                have hvars := hagree.of_append
                exact ⟨_, (extend_eq_ok_iff h).2 ⟨hvars, rfl⟩, _,
                  (insert_eq_ok_iff hvars).2 ⟨hagree, rfl⟩, rfl⟩

/-- What the providers make of the pairs so far. -/
def withProviders (c : DeploymentConfig) (secrets : SecretSet) (name : String)
    (pairs : List (String × DerivedValue)) (roles : List Role) :
    DerivedEnv × Table String Credential :=
  (ofPairs name (pairs ++ roles.flatMap (c.providerPairs name)),
    .ofList (roles.flatMap (c.credentialEntries secrets name)))

theorem addProviders_eq_ok_iff {pairs : List (String × DerivedValue)} (h : Agree pairs)
    {roles : List Role} {made : DerivedEnv × Table String Credential} :
    roles.foldlM (c.addProvider secrets name) (ofPairs name pairs, .empty) = .ok made ↔
      (∀ role ∈ roles, c.Available secrets role) ∧
        Agree (pairs ++ roles.flatMap (c.providerPairs name)) ∧
        made = c.withProviders secrets name pairs roles := by
  have hnil : c.withProviders secrets name pairs [] = (ofPairs name pairs, .empty) := by
    rw [withProviders, List.flatMap_nil, List.append_nil]
    rfl
  rw [← hnil]
  refine foldlM_eq_ok_iff_agree (c.Available secrets) (c.providerPairs name)
    (c.withProviders secrets name pairs) ?_ h
  intro roles role made hagree
  rw [withProviders, addProvider_eq_ok_iff hagree, withProviders, Table.ofList, Table.ofList,
    ← Table.insertMany_append, List.flatMap_append, List.flatMap_append, List.flatMap_singleton,
    List.flatMap_singleton, ← List.append_assoc]

/-- The pairs that a service is told about one that it connects to. -/
def connectionPairs (c : DeploymentConfig) (target : String) : List (String × DerivedValue) :=
  match c.services.get? target with
  | some t => derivedFrom (Source.connection target).label
      (Environment.connection target ⟨t.host, t.portNumber⟩)
  | none => []

theorem addConnection_eq_ok_iff {pairs : List (String × DerivedValue)} (h : Agree pairs)
    {target : String} {env : DerivedEnv} :
    c.addConnection name (ofPairs name pairs) target = .ok env ↔
      (∃ t, c.Listens target t) ∧ Agree (pairs ++ c.connectionPairs target) ∧
        env = ofPairs name (pairs ++ c.connectionPairs target) := by
  have hpairs : ∀ t, c.Listens target t → c.connectionPairs target =
      derivedFrom (Source.connection target).label
        (Environment.connection target ⟨t.host, t.portNumber⟩) := by
    intro t ht
    rw [connectionPairs, ht.1.1]
  simp only [addConnection, bind_eq_ok_iff, listenerOf_eq_ok_iff]
  constructor
  · rintro ⟨-, ⟨t, ht, rfl⟩, henv⟩
    rw [hpairs t ht]
    exact ⟨⟨t, ht⟩, (extend_eq_ok_iff h).1 henv⟩
  · rintro ⟨⟨t, ht⟩, henv⟩
    rw [hpairs t ht] at henv
    exact ⟨_, ⟨t, ht, rfl⟩, (extend_eq_ok_iff h).2 henv⟩

theorem addConnections_eq_ok_iff {pairs : List (String × DerivedValue)} (h : Agree pairs)
    {targets : List String} {env : DerivedEnv} :
    targets.foldlM (c.addConnection name) (ofPairs name pairs) = .ok env ↔
      (∀ target ∈ targets, ∃ t, c.Listens target t) ∧
        Agree (pairs ++ targets.flatMap c.connectionPairs) ∧
        env = ofPairs name (pairs ++ targets.flatMap c.connectionPairs) := by
  have hnil : ofPairs name (pairs ++ [].flatMap c.connectionPairs) = ofPairs name pairs := by
    rw [List.flatMap_nil, List.append_nil]
  rw [← hnil]
  refine foldlM_eq_ok_iff_agree (fun target => ∃ t, c.Listens target t) c.connectionPairs
    (fun targets => ofPairs name (pairs ++ targets.flatMap c.connectionPairs)) ?_ h
  intro targets target env hagree
  rw [addConnection_eq_ok_iff hagree, List.flatMap_append, List.flatMap_singleton,
    ← List.append_assoc]

end DeploymentConfig

end LayeredCatalog
