import LayeredCatalog.Proofs.Deployment.Validity

/-!
# Faults of a configuration name their culprits

A configuration can break many rules at once, and the compilation reports the first
fault that it meets. Each stage has its own faults: the checks of references and the
making of routes share those of a reference (`ReferenceFault`), the description of a
service has those of a single service (`ServiceFault`), and only the startup order has
a cycle to blame. Whichever stage fails, the fault is there, and the names, the option
and the position that it gives are those of what is wrong (`compile_isGenuine`).
-/

namespace LayeredCatalog

/-- The option that holds the binding behind a role. -/
def Role.bindingOption : Role → String
  | .llm => "llm"
  | .embedding => "embedding.binding"
  | .search => "search"

namespace DeploymentConfig

variable {c : DeploymentConfig} {catalog : ResolvedCatalog} {secrets : SecretSet}
  {name service target : String} {s : ServiceConfig} {e : DeploymentError}

/-- The address of `target` is asked for: by a deployed service that connects to it, or
by a proxy that sends requests to it. -/
inductive Connects (c : DeploymentConfig) : String → String → Prop
  | service {name target : String} {s : ServiceConfig} (hs : c.Runs name s)
      (h : target ∈ s.connect) : Connects c name target
  | default (h : c.proxy.enable) : Connects c "proxy" c.proxy.default
  | route {rule : RouteConfig} (h : c.proxy.enable) (hrule : rule ∈ c.proxy.routes) :
      Connects c "proxy" rule.service

/-- A name refers to `target`: it asks for its address or starts after it. -/
inductive Refers (c : DeploymentConfig) : String → String → Prop
  | connects {service target : String} (h : c.Connects service target) :
      Refers c service target
  | after {name target : String} {s : ServiceConfig} (hs : c.Runs name s)
      (h : target ∈ s.after) : Refers c name target

/-- What can be wrong with a reference or with a rule of the proxy. -/
inductive ReferenceFault (c : DeploymentConfig) : DeploymentError → Prop
  | unknown {service target : String} (h : c.Refers service target)
      (hnone : c.services.get? target = none) :
      ReferenceFault c (.unknownService service target)
  | disabled {service target : String} (h : c.Refers service target)
      (htarget : c.IsDisabled target) : ReferenceFault c (.disabledService service target)
  | noListener {service target : String} {t : ServiceConfig} (h : c.Connects service target)
      (ht : c.Runs target t) (hport : t.portNumber = 0) :
      ReferenceFault c (.invalidOption s!"services.{target}.port" (.noListener service target))
  | unrooted {i : Nat} {rule : RouteConfig} (h : c.proxy.enable)
      (hrule : c.proxy.routes[i]? = some rule) (hslash : rule.under.toList.head? ≠ some '/') :
      ReferenceFault c (.invalidOption s!"proxy.routes[{i}].prefix" (.unrooted rule.under))

/-- What can be wrong with a single service. -/
inductive ServiceFault (c : DeploymentConfig) (catalog : ResolvedCatalog) (secrets : SecretSet)
    (name : String) (s : ServiceConfig) : DeploymentError → Prop
  | missingEntrypoint (h : ¬ catalog.contains (s.package.getD name)) :
      ServiceFault c catalog secrets name s (.missingEntrypoint name (s.package.getD name))
  | missingSecret {role : Role} {needed : Environment.CredentialVar} (hrole : role ∈ s.providers)
      (hneeded : c.credential? role = some needed) (h : ¬ secrets.contains needed.secret) :
      ServiceFault c catalog secrets name s (.missingSecret name needed.secret)
  | disabledSearch (hrole : .search ∈ s.providers) (h : ¬ c.search.enable) :
      ServiceFault c catalog secrets name s (.disabledProvider name .search)
  | noEndpoint {role : Role} {vendor : Vendor} {model : String} {apiKey : Option String}
      (hrole : role ∈ s.providers)
      (hb : c.binding? role = some (.vendor vendor model apiKey none))
      (h : vendor.endpoint? = none) :
      ServiceFault c catalog secrets name s
        (.invalidOption (role.bindingOption ++ ".base_url") (.noEndpoint vendor))
  | derivedTwice {a b : Source} {key v w : String} (ha : c.Derives name s a key v)
      (hb : c.Derives name s b key w) (h : a ≠ b) :
      ServiceFault c catalog secrets name s
        (.invalidOption ("services." ++ name) (.derivedTwice key a.label b.label))
  | relativePath {i : Nat} {g : PathGrant} (hg : s.paths[i]? = some g)
      (h : ¬ g.path.isAbsolute) :
      ServiceFault c catalog secrets name s
        (.invalidOption s!"services.{name}.paths[{i}]" (.relativePath g.path.text))

/-- What a fault says is so: of a reference, of a deployed service on its own, or of
deployed services that wait for each other. -/
inductive IsGenuine (c : DeploymentConfig) (catalog : ResolvedCatalog) (secrets : SecretSet) :
    DeploymentError → Prop
  | reference {e : DeploymentError} (h : c.ReferenceFault e) : IsGenuine c catalog secrets e
  | service {name : String} {s : ServiceConfig} {e : DeploymentError} (hs : c.Runs name s)
      (h : c.ServiceFault catalog secrets name s e) : IsGenuine c catalog secrets e
  | startup {name : String} {s : ServiceConfig} (hs : c.Runs name s)
      (h : Relation.TransGen c.WaitsFor name name) :
      IsGenuine c catalog secrets (.startupCycle name)

section References

theorem target_fault (hrefers : c.Refers service target) (h : c.target service target = .error e) :
    c.ReferenceFault e := by
  rcases target_eq_error_iff.1 h with ⟨hnone, rfl⟩ | ⟨hdisabled, rfl⟩
  · exact .unknown hrefers hnone
  · exact .disabled hrefers hdisabled

theorem listenerOf_fault (hconnects : c.Connects service target)
    (h : c.listenerOf service target = .error e) : c.ReferenceFault e := by
  rcases listenerOf_eq_error_iff.1 h with h | ⟨t, ht, hport, rfl⟩
  · exact target_fault (.connects hconnects) h
  · exact .noListener hconnects ht hport

theorem checkReferences_fault (h : c.checkReferences = .error e) : c.ReferenceFault e := by
  obtain ⟨⟨name, s⟩, hmem, h⟩ := forM_eq_error h
  have hs : c.Runs name s := mem_enabledServices.1 hmem
  rw [checkService, bind_eq_error_iff] at h
  rcases h with h | ⟨-, -, h⟩
  · obtain ⟨target, htarget, h⟩ := forM_eq_error h
    rcases bind_eq_error_iff.1 h with h | ⟨_, _, ⟨⟩⟩
    exact listenerOf_fault (.service hs htarget) h
  · obtain ⟨target, htarget, h⟩ := forM_eq_error h
    rcases bind_eq_error_iff.1 h with h | ⟨_, _, ⟨⟩⟩
    exact target_fault (.after hs htarget) h

/-- Routes fail to be made at one of the rules, and its position is reported. -/
theorem compileRoutes_eq_error {i : Nat} {rules : List RouteConfig}
    (h : c.compileRoutes i rules = .error e) :
    ∃ k rule, rules[k]? = some rule ∧ (c.listenerOf "proxy" rule.service = .error e ∨
      rule.under.toList.head? ≠ some '/' ∧
        e = .invalidOption s!"proxy.routes[{i + k}].prefix" (.unrooted rule.under)) := by
  induction rules generalizing i with
  | nil => cases h
  | cons rule rules ih =>
      rw [compileRoutes] at h
      split at h
      · next hslash =>
        cases h
        exact ⟨0, rule, rfl, .inr ⟨hslash, rfl⟩⟩
      · simp only [bind_eq_error_iff] at h
        rcases h with h | ⟨-, -, h | ⟨_, _, ⟨⟩⟩⟩
        · exact ⟨0, rule, rfl, .inl h⟩
        · obtain ⟨k, rule', hrule', h⟩ := ih h
          rw [Nat.add_right_comm] at h
          exact ⟨k + 1, rule', hrule', h⟩

theorem compileRouting_fault (h : c.compileRouting = .error e) : c.ReferenceFault e := by
  rw [compileRouting] at h
  split at h
  · next henable =>
    simp only [bind_eq_error_iff] at h
    rcases h with h | ⟨-, -, h | ⟨_, _, ⟨⟩⟩⟩
    · exact listenerOf_fault (.default henable) h
    · obtain ⟨k, rule, hrule, h | ⟨hslash, rfl⟩⟩ := compileRoutes_eq_error h
      · exact listenerOf_fault (.route henable (List.mem_of_getElem? hrule)) h
      · rw [Nat.zero_add]
        exact .unrooted henable hrule hslash
  · cases h

end References

section Services

open DerivedEnv

variable {role : Role}

theorem Binding.ofBinding_eq_error {about option : String} {b : Binding}
    (h : Environment.ofBinding about option b = .error e) :
    ∃ vendor model apiKey, b = .vendor vendor model apiKey none ∧ vendor.endpoint? = none ∧
      e = .invalidOption (option ++ ".base_url") (.noEndpoint vendor) := by
  cases b with
  | onPremises model baseUrl => cases h
  | vendor vendor model apiKey baseUrl =>
      rw [Environment.ofBinding] at h
      split at h
      · next hnone =>
        obtain ⟨rfl, hendpoint⟩ := Option.or_eq_none_iff.1 hnone
        cases h
        exact ⟨vendor, model, apiKey, rfl, hendpoint, rfl⟩
      · cases h

theorem provide_fault (hrole : role ∈ s.providers) (h : c.provide name role = .error e) :
    c.ServiceFault catalog secrets name s e := by
  cases role with
  | llm =>
      obtain ⟨vendor, model, apiKey, hb, hnone, rfl⟩ := Binding.ofBinding_eq_error h
      exact .noEndpoint hrole (congrArg some hb) hnone
  | embedding =>
      obtain ⟨vendor, model, apiKey, hb, hnone, rfl⟩ :=
        Binding.ofBinding_eq_error (map_eq_error_iff.1 h)
      exact .noEndpoint hrole (congrArg some hb) hnone
  | search =>
      rw [provide] at h
      split at h
      · cases h
      · next hdisabled =>
        cases h
        exact .disabledSearch hrole hdisabled

variable {pairs : List (String × DerivedValue)}

/-- A variable that a source gives and that has come from elsewhere comes from two
sources. -/
theorem AreDerived.fault (h : c.AreDerived name s pairs) {b : Source} {key value : String}
    {old : DerivedValue} (hold : (key, old) ∈ pairs) (hsource : old.source ≠ b.label)
    (hb : c.Derives name s b key value) :
    c.ServiceFault catalog secrets name s
      (.invalidOption ("services." ++ name) (.derivedTwice key old.source b.label)) := by
  obtain ⟨a, ha, hderives⟩ := h key old hold
  rw [ha] at hsource ⊢
  refine .derivedTwice hderives hb ?_
  rintro rfl
  exact hsource rfl

theorem AreDerived.extend_fault (h : c.AreDerived name s pairs) (hagree : Agree pairs) {b : Source}
    {vars : List (String × String)}
    (hb : ∀ key value, (key, value) ∈ vars → c.Derives name s b key value)
    (hextend : (ofPairs name pairs).extend b.label vars = .error e) :
    c.ServiceFault catalog secrets name s e := by
  obtain ⟨key, value, old, hmem, hold, hsource, rfl⟩ := extend_eq_error hagree hextend
  exact h.fault hold hsource (hb key value hmem)

theorem addProvider_fault (h : c.AreDerived name s pairs) (hagree : Agree pairs)
    (hrole : role ∈ s.providers) {made : Table String Credential}
    (hadd : c.addProvider secrets name (ofPairs name pairs, made) role = .error e) :
    c.ServiceFault catalog secrets name s e := by
  simp only [addProvider, bind_eq_error_iff] at hadd
  rcases hadd with hprovide | ⟨p, hp, hadd⟩
  · exact provide_fault hrole hprovide
  obtain ⟨hcredential, htells⟩ := provide_eq_ok hp
  have hvars : ∀ key value, (key, value) ∈ p.vars.toList →
      c.Derives name s (.provider role) key value := fun key value hmem =>
    .provider hrole ((htells key value).1 hmem)
  rcases hadd with hextend | ⟨env, henv, hadd⟩
  · exact h.extend_fault hagree hvars hextend
  obtain ⟨-, rfl⟩ := (extend_eq_ok_iff hagree).1 henv
  split at hadd
  · cases hadd
  · next needed hneeded =>
    rw [hcredential] at hneeded
    split at hadd
    · next hsecret =>
      cases hadd
      exact .missingSecret hrole hneeded (by simp [Table.contains, hsecret])
    · rcases bind_eq_error_iff.1 hadd with hinsert | ⟨_, _, ⟨⟩⟩
      obtain ⟨old, hold, hsource, rfl⟩ := insert_eq_error hinsert
      exact (h.append (areDerived_derivedFrom hvars)).fault (b := .provider role) hold hsource
        (.keyFile hrole hneeded)

theorem addProviders_fault (h : c.AreDerived name s pairs) (hagree : Agree pairs)
    {roles : List Role} (hroles : ∀ role ∈ roles, role ∈ s.providers)
    (hadd : roles.foldlM (c.addProvider secrets name) (ofPairs name pairs, .empty) = .error e) :
    c.ServiceFault catalog secrets name s e := by
  obtain ⟨before, role, rest, made, rfl, hbefore, hadd⟩ := foldlM_eq_error hadd
  obtain ⟨-, hagree, rfl⟩ := (addProviders_eq_ok_iff hagree).1 hbefore
  refine addProvider_fault (h.append (areDerived_flatMap fun r hr => ?_)) hagree
    (hroles role (by simp)) hadd
  exact areDerived_providerPairs (hroles r (List.mem_append_left _ hr))

theorem addConnection_fault (h : c.AreDerived name s pairs) (hagree : Agree pairs)
    (htarget : target ∈ s.connect) (hlistens : ∃ t, c.Listens target t)
    (hadd : c.addConnection name (ofPairs name pairs) target = .error e) :
    c.ServiceFault catalog secrets name s e := by
  obtain ⟨t, ht⟩ := hlistens
  rw [addConnection, listenerOf_eq_ok_iff.2 ⟨t, ht, rfl⟩] at hadd
  refine h.extend_fault hagree (b := .connection target) ?_ hadd
  intro key value hmem
  exact derives_connection_iff.2 ⟨htarget, t, ht.1.1, hmem⟩

theorem addConnections_fault (h : c.AreDerived name s pairs) (hagree : Agree pairs)
    (hconnect : ∀ target ∈ s.connect, ∃ t, c.Listens target t)
    (hadd : s.connect.foldlM (c.addConnection name) (ofPairs name pairs) = .error e) :
    c.ServiceFault catalog secrets name s e := by
  obtain ⟨before, target, rest, env, htargets, hbefore, hadd⟩ := foldlM_eq_error hadd
  obtain ⟨-, hagree, rfl⟩ := (addConnections_eq_ok_iff hagree).1 hbefore
  have hmem : ∀ t ∈ before ++ target :: rest, t ∈ s.connect := fun t ht => htargets.symm ▸ ht
  refine addConnection_fault (h.append (areDerived_flatMap fun t ht => ?_)) hagree
    (hmem target (by simp)) (hconnect target (hmem target (by simp))) hadd
  exact areDerived_connectionPairs (hmem t (List.mem_append_left _ ht))

/-- Grants fail to be made at one that is relative, and its position is reported. -/
theorem compileGrants_eq_error {i : Nat} {grants : List PathGrant}
    (h : compileGrants name i grants = .error e) :
    ∃ k g, grants[k]? = some g ∧ ¬ g.path.isAbsolute ∧
      e = .invalidOption s!"services.{name}.paths[{i + k}]" (.relativePath g.path.text) := by
  induction grants generalizing i with
  | nil => cases h
  | cons g grants ih =>
      rw [compileGrants] at h
      split at h
      · next hrelative =>
        cases h
        exact ⟨0, g, rfl, by simpa using hrelative, rfl⟩
      · simp only [bind_eq_error_iff] at h
        rcases h with h | ⟨_, _, ⟨⟩⟩
        obtain ⟨k, g', hg', h⟩ := ih h
        rw [Nat.add_right_comm] at h
        exact ⟨k + 1, g', hg', h⟩

theorem describe_fault (hconnect : ∀ target ∈ s.connect, ∃ t, c.Listens target t)
    (h : c.describe catalog secrets name s = .error e) :
    c.ServiceFault catalog secrets name s e := by
  have hnil : ({ service := name } : DerivedEnv) = ofPairs name [] := rfl
  have hagree : Agree [] := fun e he => by cases he
  have hempty : c.AreDerived name s [] := fun key v hv => by cases hv
  rw [describe, hnil] at h
  split at h
  · simp only [bind_eq_error_iff] at h
    rcases h with h | ⟨env, henv, h⟩
    · exact hempty.extend_fault hagree (fun key value => mem_ownVars.1) h
    -- What has been added before a stage is derived, and agrees since the stages before passed.
    obtain ⟨hagree, rfl⟩ := (extend_eq_ok_iff hagree).1 henv
    have hservice := hempty.append areDerived_ownVars
    rcases h with h | ⟨made, hmade, h⟩
    · exact addProviders_fault hservice hagree (fun role => mem_rolesOf.1) h
    obtain ⟨-, hagree, rfl⟩ := (addProviders_eq_ok_iff hagree).1 hmade
    have hprovided := hservice.append areDerived_providers
    rcases h with h | ⟨env, -, h | ⟨_, _, ⟨⟩⟩⟩
    · exact addConnections_fault hprovided hagree hconnect h
    · obtain ⟨k, g, hg, hrelative, rfl⟩ := compileGrants_eq_error h
      rw [Nat.zero_add]
      exact .relativePath hg hrelative
  · next hnone =>
    cases h
    refine .missingEntrypoint ?_
    rw [Table.contains, Option.isSome_iff_exists]
    rintro ⟨plan, hplan⟩
    exact hnone plan hplan

theorem describeAll_eq_error {names : List String} (hnames : ∀ name ∈ names, ∃ s, c.Runs name s)
    (h : c.describeAll catalog secrets names = .error e) :
    ∃ name s, c.Runs name s ∧ c.describe catalog secrets name s = .error e := by
  induction names with
  | nil => cases h
  | cons name names ih =>
      obtain ⟨⟨s, hs⟩, hnames⟩ := List.forall_mem_cons.1 hnames
      rw [describeAll, hs.1] at h
      simp only [bind_eq_error_iff] at h
      rcases h with h | ⟨-, -, h | ⟨_, _, ⟨⟩⟩⟩
      · exact ⟨name, s, hs, h⟩
      · exact ih hnames h

/-- Behind good references, the services of a startup order fail to be described only
through a fault of one of them. -/
theorem exists_serviceFault (hreferences : c.checkReferences = .ok ()) {order : List String}
    (horder : c.startupOrder = .ok order)
    (h : c.describeAll catalog secrets order = .error e) :
    ∃ name s, c.Runs name s ∧ c.ServiceFault catalog secrets name s e := by
  obtain ⟨-, hmem, -⟩ := startupOrder_eq_ok hreferences horder
  obtain ⟨name, s, hs, h⟩ := describeAll_eq_error (fun name hname => (hmem name).1 hname) h
  exact ⟨name, s, hs, describe_fault (checkReferences_eq_ok_iff.1 hreferences name s hs).1 h⟩

end Services

/-- Where a configuration does not compile, what is reported is so. -/
theorem compile_isGenuine (h : c.compile catalog secrets = .error e) :
    c.IsGenuine catalog secrets e := by
  rcases compile_eq_error_iff.1 h with h | ⟨hreferences, h | ⟨routing, -, h | ⟨order, horder, h⟩⟩⟩
  · exact .reference (checkReferences_fault h)
  · exact .reference (compileRouting_fault h)
  · obtain ⟨n, -, rfl⟩ := mapError_eq_error_iff.1 h
    obtain ⟨⟨s, hs⟩, hcycle⟩ := startupOrder_eq_error hreferences h
    exact .startup hs hcycle
  · obtain ⟨name, s, hs, h⟩ := exists_serviceFault hreferences horder h
    exact .service hs h

/-- A back end that uses a model and connects to a service with the name of a role. It is
also granted a relative path, which is not reported. -/
def shadowed : DeploymentConfig where
  services := .ofList [
    ("backend", { providers := [.llm], connect := ["llm"], paths := [{ path := ⟨"models"⟩ }] }),
    ("llm", { package := some "backend", portNumber := 9000 })]

theorem compile_shadowed : shadowed.compile (.ofList [("backend", .build { name := "backend" } [])])
    .empty = .error (.invalidOption "services.backend"
      (.derivedTwice "LLM_HOST" "provider llm" "connect target \"llm\"")) := by
  have hgraph : shadowed.startupGraph = ⟨["backend", "llm"], [("llm", "backend")]⟩ := by
    decide +kernel
  have horder : shadowed.startupOrder = .ok ["llm", "backend"] := by
    rw [startupOrder, hgraph]
    simp [Dependencies.order, Dependencies.walk, Dependencies.dependents,
      Dependencies.misplaced?, Dependencies.dependencies, Except.mapError]
  exact compile_eq_error_iff.2 (.inr ⟨by decide +kernel, .inr ⟨none, by decide +kernel,
    .inr ⟨_, horder, by decide +kernel⟩⟩⟩)

theorem compile_isGenuine_shadowed :
    ∃ catalog e, shadowed.compile catalog .empty = .error e ∧
      shadowed.IsGenuine catalog .empty e ∧ e.message = "invalid option services.backend: " ++
        "LLM_HOST is derived from both provider llm and connect target \"llm\"" :=
  ⟨_, _, compile_shadowed, compile_isGenuine compile_shadowed, by decide +kernel⟩

end DeploymentConfig

end LayeredCatalog
