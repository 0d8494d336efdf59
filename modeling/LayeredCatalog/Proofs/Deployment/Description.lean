import LayeredCatalog.Proofs.Deployment.Derivation

/-!
# Descriptions of services

A service is described exactly if its program is in the catalog, its providers are
available, the services that it connects to listen, no variable has two sources and the
paths it is granted begin at the root; and what the description says is then known
(`describe_eq_ok_iff`).
-/

namespace LayeredCatalog

namespace DeploymentConfig

open DerivedEnv

variable {c : DeploymentConfig} {catalog : ResolvedCatalog} {secrets : SecretSet} {name : String}
  {s : ServiceConfig}

/-- The roles of a service, each once. -/
def rolesOf (s : ServiceConfig) : List Role := Role.all.filter s.providers.contains

theorem mem_rolesOf {role : Role} : role ∈ rolesOf s ↔ role ∈ s.providers := by
  have hall : role ∈ Role.all := by
    cases role <;> decide
  simp [rolesOf, hall]

/-- Everything that is derived for a service, in the order in which it is. -/
def derivedPairs (c : DeploymentConfig) (name : String) (s : ServiceConfig) :
    List (String × DerivedValue) :=
  derivedFrom Source.service.label (c.ownVars name s) ++
    (rolesOf s).flatMap (c.providerPairs name) ++ s.connect.flatMap c.connectionPairs

theorem mem_ownVars {key value : String} :
    (key, value) ∈ c.ownVars name s ↔ c.Derives name s .service key value := by
  rw [ownVars, List.mem_append]
  constructor
  · rintro (h | h)
    · simp only [List.mem_cons, Prod.mk.injEq, List.not_mem_nil, or_false] at h
      rcases h with ⟨rfl, rfl⟩ | ⟨rfl, rfl⟩ | ⟨rfl, rfl⟩
      · exact .name
      · exact .logLevel
      · exact .dataDir
    · split at h
      · next e he =>
        obtain ⟨hpos, rfl⟩ := listener?_eq_some_iff.1 he
        simp only [List.mem_cons, Prod.mk.injEq, List.not_mem_nil, or_false] at h
        rcases h with ⟨rfl, rfl⟩ | ⟨rfl, rfl⟩
        · exact .host hpos
        · exact .portNumber hpos
      · cases h
  · intro h
    cases h with
    | name => exact .inl (by simp)
    | logLevel => exact .inl (by simp)
    | dataDir => exact .inl (by simp)
    | host hpos =>
        rw [listener?_eq_some_iff.2 ⟨hpos, rfl⟩]
        exact .inr (by simp)
    | portNumber hpos =>
        rw [listener?_eq_some_iff.2 ⟨hpos, rfl⟩]
        exact .inr (by simp)

theorem derives_provider_iff {role : Role} {key value : String} :
    c.Derives name s (.provider role) key value ↔ role ∈ s.providers ∧
      (c.Tells role key value ∨
        ∃ needed, c.credential? role = some needed ∧ c.keyFile name needed = (key, value)) := by
  constructor
  · intro h
    cases h with
    | provider hrole htells => exact ⟨hrole, .inl htells⟩
    | keyFile hrole hneeded => exact ⟨hrole, .inr ⟨_, hneeded, rfl⟩⟩
  · rintro ⟨hrole, htells | ⟨needed, hneeded, hkey⟩⟩
    · exact .provider hrole htells
    · obtain ⟨rfl, rfl⟩ := Prod.mk.inj hkey
      exact .keyFile hrole hneeded

theorem derives_connection_iff {target key value : String} :
    c.Derives name s (.connection target) key value ↔ target ∈ s.connect ∧
      ∃ t, c.services.get? target = some t ∧
        (key, value) ∈ Environment.connection target ⟨t.host, t.portNumber⟩ := by
  constructor
  · intro h
    cases h with
    | connection htarget ht he => exact ⟨htarget, _, ht, he⟩
  · rintro ⟨htarget, t, ht, he⟩
    exact .connection htarget ht he

theorem mem_connectionPairs {target key : String} {v : DerivedValue} :
    (key, v) ∈ c.connectionPairs target ↔ v.source = (Source.connection target).label ∧
      ∃ t, c.services.get? target = some t ∧
        (key, v.value) ∈ Environment.connection target ⟨t.host, t.portNumber⟩ := by
  rw [connectionPairs]
  cases c.services.get? target with
  | none => simp
  | some t =>
      rw [mem_derivedFrom]
      simp

/-- Each of the pairs is what a source of the service gives. -/
def AreDerived (c : DeploymentConfig) (name : String) (s : ServiceConfig)
    (pairs : List (String × DerivedValue)) : Prop :=
  ∀ key v, (key, v) ∈ pairs → ∃ a, v.source = a.label ∧ c.Derives name s a key v.value

theorem AreDerived.append {pairs pairs' : List (String × DerivedValue)}
    (h : c.AreDerived name s pairs) (h' : c.AreDerived name s pairs') :
    c.AreDerived name s (pairs ++ pairs') := by
  intro key v hv
  rcases List.mem_append.1 hv with hv | hv
  · exact h key v hv
  · exact h' key v hv

theorem areDerived_flatMap {α : Type*} {l : List α} {g : α → List (String × DerivedValue)}
    (h : ∀ a ∈ l, c.AreDerived name s (g a)) : c.AreDerived name s (l.flatMap g) := by
  intro key v hv
  obtain ⟨a, ha, hv⟩ := List.mem_flatMap.1 hv
  exact h a ha key v hv

theorem areDerived_derivedFrom {a : Source} {vars : List (String × String)}
    (h : ∀ key value, (key, value) ∈ vars → c.Derives name s a key value) :
    c.AreDerived name s (derivedFrom a.label vars) := by
  intro key v hv
  obtain ⟨hsource, hv⟩ := mem_derivedFrom.1 hv
  exact ⟨a, hsource, h key v.value hv⟩

theorem areDerived_providerPairs {role : Role} (hrole : role ∈ s.providers) :
    c.AreDerived name s (c.providerPairs name role) := by
  intro key v hv
  cases hp : c.provide name role with
  | error e => simp [providerPairs, hp] at hv
  | ok p =>
      obtain ⟨hsource, hgives⟩ := (mem_providerPairs hp).1 hv
      exact ⟨.provider role, hsource, derives_provider_iff.2 ⟨hrole, hgives⟩⟩

theorem areDerived_connectionPairs {target : String} (htarget : target ∈ s.connect) :
    c.AreDerived name s (c.connectionPairs target) := by
  intro key v hv
  obtain ⟨hsource, hv⟩ := mem_connectionPairs.1 hv
  exact ⟨.connection target, hsource, derives_connection_iff.2 ⟨htarget, hv⟩⟩

theorem areDerived_ownVars :
    c.AreDerived name s (derivedFrom Source.service.label (c.ownVars name s)) :=
  areDerived_derivedFrom fun _ _ => mem_ownVars.1

theorem areDerived_providers :
    c.AreDerived name s ((rolesOf s).flatMap (c.providerPairs name)) :=
  areDerived_flatMap fun _ hrole => areDerived_providerPairs (mem_rolesOf.1 hrole)

/-- The pairs are what the sources give. -/
theorem mem_derivedPairs (havailable : ∀ role ∈ s.providers, c.Available secrets role)
    {key : String} {v : DerivedValue} :
    (key, v) ∈ c.derivedPairs name s ↔
      ∃ source, v.source = source.label ∧ c.Derives name s source key v.value := by
  constructor
  · have hconnections : c.AreDerived name s (s.connect.flatMap c.connectionPairs) :=
      areDerived_flatMap fun _ => areDerived_connectionPairs
    exact ((areDerived_ownVars.append areDerived_providers).append hconnections) key v
  · simp only [derivedPairs, List.mem_append, List.mem_flatMap, mem_rolesOf, mem_derivedFrom,
      mem_ownVars, mem_connectionPairs]
    rintro ⟨source, hsource, h⟩
    cases source with
    | service => exact .inl (.inl ⟨hsource, h⟩)
    | provider role =>
        obtain ⟨hrole, hgives⟩ := derives_provider_iff.1 h
        obtain ⟨⟨p, hp⟩, -⟩ := (available_iff name).1 (havailable role hrole)
        exact .inl (.inr ⟨role, hrole, (mem_providerPairs hp).2 ⟨hsource, hgives⟩⟩)
    | connection target =>
        obtain ⟨htarget, h⟩ := derives_connection_iff.1 h
        exact .inr ⟨target, htarget, hsource, h⟩

theorem agree_derivedPairs_iff (havailable : ∀ role ∈ s.providers, c.Available secrets role) :
    Agree (c.derivedPairs name s) ↔ ∀ a b key v w, c.Derives name s a key v →
      c.Derives name s b key w → a = b := by
  constructor
  · intro h a b key v w ha hb
    have ha := (mem_derivedPairs havailable (v := ⟨a.label, v⟩)).2 ⟨a, rfl, ha⟩
    have hb := (mem_derivedPairs havailable (v := ⟨b.label, w⟩)).2 ⟨b, rfl, hb⟩
    exact Source.label_inj (h _ ha _ hb rfl)
  · rintro h ⟨key, v⟩ hv ⟨key', w⟩ hw heq
    obtain rfl : key = key' := heq
    obtain ⟨a, hsource, ha⟩ := (mem_derivedPairs havailable).1 hv
    obtain ⟨b, hsource', hb⟩ := (mem_derivedPairs havailable).1 hw
    rw [hsource, hsource', h a b key _ _ ha hb]

theorem compileGrants_eq_ok_iff {i : Nat} {grants : List PathGrant} {accesses : List PathAccess} :
    compileGrants name i grants = .ok accesses ↔
      (∀ g ∈ grants, g.path.isAbsolute) ∧ accesses = grants.map fun g => ⟨g.path, g.mode⟩ := by
  induction grants generalizing i accesses with
  | nil =>
      rw [compileGrants, Except.ok.injEq, eq_comm]
      simp
  | cons g grants ih =>
      rw [compileGrants, List.forall_mem_cons]
      split
      · next h =>
        constructor
        · intro h'
          cases h'
        · rintro ⟨⟨habsolute, -⟩, -⟩
          simp [habsolute] at h
      · next h =>
        have habsolute : g.path.isAbsolute := by simpa using h
        simp only [bind_eq_ok_iff, ih, pure_eq_ok_iff]
        constructor
        · rintro ⟨-, ⟨hgrants, rfl⟩, rfl⟩
          exact ⟨⟨habsolute, hgrants⟩, rfl⟩
        · rintro ⟨⟨-, hgrants⟩, rfl⟩
          exact ⟨_, ⟨hgrants, rfl⟩, rfl⟩

/-- The description of a service. -/
def description (c : DeploymentConfig) (secrets : SecretSet) (name : String) (s : ServiceConfig)
    (plan : Plan) : ServiceDescription where
  name
  entrypoint := {
    package := s.packageFor name
    artifact := plan.artifact
    program := s.programFor name
    args := s.args }
  user := c.user
  listen := s.listener?
  environment := (ofPairs name (c.derivedPairs name s)).withOperator s.environment
  credentials := .ofList ((rolesOf s).flatMap (c.credentialEntries secrets name))
  after := (Table.ofList ((s.connect ++ s.after).map (·, ()))).keys
  paths := ⟨c.stateDir name, .readWrite⟩ :: s.paths.map fun g => ⟨g.path, g.mode⟩

theorem describe_eq_ok_iff {d : ServiceDescription} :
    c.describe catalog secrets name s = .ok d ↔
      ∃ plan, catalog.get? (s.packageFor name) = some plan ∧
        (∀ role ∈ s.providers, c.Available secrets role) ∧
        (∀ target ∈ s.connect, ∃ t, c.Listens target t) ∧
        Agree (c.derivedPairs name s) ∧
        (∀ g ∈ s.paths, g.path.isAbsolute) ∧
        d = c.description secrets name s plan := by
  have hnil : ({ service := name } : DerivedEnv) = ofPairs name [] := rfl
  have hagree : Agree [] := fun e he => by cases he
  rw [describe, hnil]
  cases hplan : catalog.get? (s.packageFor name) with
  | none =>
      constructor
      · intro h
        cases h
      · rintro ⟨plan, ⟨⟩, -⟩
  | some plan =>
      simp only [bind_eq_ok_iff, extend_eq_ok_iff hagree, List.nil_append, pure_eq_ok_iff,
        compileGrants_eq_ok_iff]
      constructor
      · rintro ⟨-, ⟨hown, rfl⟩, made, hmade, env, henv, -, ⟨hgrants, rfl⟩, rfl⟩
        obtain ⟨havailable, hprovided, rfl⟩ := (addProviders_eq_ok_iff hown).1 hmade
        obtain ⟨hlistens, hconnected, rfl⟩ := (addConnections_eq_ok_iff hprovided).1 henv
        exact ⟨plan, rfl, fun role hrole => havailable role (mem_rolesOf.2 hrole), hlistens,
          hconnected, hgrants, rfl⟩
      · rintro ⟨plan', hplan', havailable, hlistens, hconnected, hgrants, rfl⟩
        obtain rfl := Option.some.inj hplan'
        have hprovided := hconnected.of_append
        refine ⟨_, ⟨hprovided.of_append, rfl⟩, _, (addProviders_eq_ok_iff hprovided.of_append).2
          ⟨?_, hprovided, rfl⟩, _, (addConnections_eq_ok_iff hprovided).2
          ⟨hlistens, hconnected, rfl⟩, _, ⟨hgrants, rfl⟩, rfl⟩
        exact fun role hrole => havailable role (mem_rolesOf.1 hrole)

/-- The credentials of a service are those of its roles. -/
theorem get?_credentials_iff {d : ServiceDescription}
    (h : c.describe catalog secrets name s = .ok d) {k : String} {credential : Credential} :
    d.credentials.get? k = some credential ↔
      (∃ role ∈ s.providers, ∃ needed, c.credential? role = some needed ∧ needed.secret = k) ∧
        ∃ handle, secrets.get? k = some handle ∧
          credential = ⟨handle, c.credentialPath name k⟩ := by
  obtain ⟨plan, -, -, -, -, -, rfl⟩ := describe_eq_ok_iff.1 h
  have hof : ∀ {credential}, (c.description secrets name s plan).credentials.get? k =
      some credential → (∃ role ∈ s.providers, ∃ needed, c.credential? role = some needed ∧
        needed.secret = k) ∧ ∃ handle, secrets.get? k = some handle ∧
          credential = ⟨handle, c.credentialPath name k⟩ := by
    intro credential hk
    obtain ⟨role, hrole, hentry⟩ := List.mem_flatMap.1 (Table.mem_of_get?_ofList hk)
    obtain ⟨needed, handle, hneeded, hhandle, rfl, rfl⟩ := mem_credentialEntries.1 hentry
    exact ⟨⟨role, mem_rolesOf.1 hrole, needed, hneeded, rfl⟩, handle, hhandle, rfl⟩
  refine ⟨hof, ?_⟩
  rintro ⟨⟨role, hrole, needed, hneeded, rfl⟩, handle, hhandle, rfl⟩
  have hcontains : (c.description secrets name s plan).credentials.contains needed.secret := by
    have hentry : (needed.secret, ⟨handle, c.credentialPath name needed.secret⟩) ∈
        c.credentialEntries secrets name role :=
      mem_credentialEntries.2 ⟨needed, handle, hneeded, hhandle, rfl, rfl⟩
    rw [description, Table.contains_ofList, List.any_eq_true]
    exact ⟨_, List.mem_flatMap.2 ⟨role, mem_rolesOf.2 hrole, hentry⟩, decide_eq_true rfl⟩
  obtain ⟨credential, hk⟩ := Option.isSome_iff_exists.1 hcontains
  obtain ⟨-, handle', hhandle', rfl⟩ := hof hk
  rw [hk, Option.some.inj (hhandle.symm.trans hhandle')]

theorem describeAll_eq_ok_iff {names : List String} {ds : List ServiceDescription}
    (h : ∀ name ∈ names, ∃ s, c.Runs name s) :
    c.describeAll catalog secrets names = .ok ds ↔
      List.Forall₂ (fun name d => ∃ s, c.Runs name s ∧ c.describe catalog secrets name s = .ok d)
        names ds := by
  induction names generalizing ds with
  | nil => rw [describeAll, Except.ok.injEq, List.forall₂_nil_left_iff, eq_comm]
  | cons name names ih =>
      obtain ⟨⟨s, hs⟩, hnames⟩ := List.forall_mem_cons.1 h
      rw [describeAll, hs.1, List.forall₂_cons_left_iff]
      simp only [bind_eq_ok_iff, ih hnames, pure_eq_ok_iff]
      constructor
      · rintro ⟨d, hd, rest, hrest, rfl⟩
        exact ⟨d, rest, ⟨s, hs, hd⟩, hrest, rfl⟩
      · rintro ⟨d, rest, ⟨t, ht, hd⟩, hrest, rfl⟩
        rw [ht.eq hs] at hd
        exact ⟨d, hd, rest, hrest, rfl⟩

end DeploymentConfig

end LayeredCatalog
