import LayeredCatalog.Proofs.Deployment.Description
import LayeredCatalog.Proofs.Deployment.Startup

/-!
# When compilation succeeds

The conditions on a configuration are checked in several places and in the order of the
compilation, some of them only for services that the startup order has come to. Put
together they are `IsDeployable`, which is said without the compiler, and a
configuration compiles exactly if it is deployable (`exists_compile_eq_ok_iff`).
-/

namespace LayeredCatalog

namespace DeploymentConfig

variable {c : DeploymentConfig} {catalog : ResolvedCatalog} {secrets : SecretSet}

/-- A configuration that can be deployed from a catalog with some secrets. -/
structure IsDeployable (c : DeploymentConfig) (catalog : ResolvedCatalog) (secrets : SecretSet) :
    Prop where
  /-- Services connect to deployed ones that listen. -/
  connect : ∀ name s, c.Runs name s → ∀ target ∈ s.connect, ∃ t, c.Listens target t
  after : ∀ name s, c.Runs name s → ∀ target ∈ s.after, ∃ t, c.Runs target t
  /-- A proxy sends requests to deployed services that listen, by paths that begin with
  a slash. -/
  proxy : c.proxy.enable → (∃ t, c.Listens c.proxy.default t) ∧
    ∀ rule ∈ c.proxy.routes,
      rule.under.toList.head? = some '/' ∧ ∃ t, c.Listens rule.service t
  /-- No service waits for itself, directly or through others. -/
  startup : ∀ n, ¬ Relation.TransGen c.WaitsFor n n
  package : ∀ name s, c.Runs name s → catalog.contains (s.package.getD name)
  providers : ∀ name s, c.Runs name s → ∀ role ∈ s.providers, c.Available secrets role
  /-- No variable comes from two sources. -/
  sources : ∀ name s, c.Runs name s → ∀ a b key v w,
    c.Derives name s a key v → c.Derives name s b key w → a = b
  paths : ∀ name s, c.Runs name s → ∀ g ∈ s.paths, g.path.isAbsolute

theorem compile_eq_ok_iff {d : Deployment} :
    c.compile catalog secrets = .ok d ↔ c.checkReferences = .ok () ∧
      ∃ routing order services, c.compileRouting = .ok routing ∧ c.startupOrder = .ok order ∧
        c.describeAll catalog secrets order = .ok services ∧
        d = ⟨services, c.pathDirectives services, routing⟩ := by
  simp only [compile, bind_eq_ok_iff, pure_eq_ok_iff]
  constructor
  · rintro ⟨⟨⟩, hreferences, routing, hrouting, order, horder, services, hservices, rfl⟩
    exact ⟨hreferences, routing, order, services, hrouting, horder, hservices, rfl⟩
  · rintro ⟨hreferences, routing, order, services, hrouting, horder, hservices, rfl⟩
    exact ⟨_, hreferences, routing, hrouting, order, horder, services, hservices, rfl⟩

theorem compile_eq_error_iff {e : DeploymentError} :
    c.compile catalog secrets = .error e ↔ c.checkReferences = .error e ∨
      c.checkReferences = .ok () ∧ (c.compileRouting = .error e ∨
        ∃ routing, c.compileRouting = .ok routing ∧ (c.startupOrder = .error e ∨
          ∃ order, c.startupOrder = .ok order ∧
            c.describeAll catalog secrets order = .error e)) := by
  simp only [compile, bind_eq_error_iff]
  constructor
  · rintro (h | ⟨⟨⟩, hreferences, h | ⟨routing, hrouting, h | ⟨order, horder, h | ⟨_, _, ⟨⟩⟩⟩⟩⟩)
    · exact .inl h
    · exact .inr ⟨hreferences, .inl h⟩
    · exact .inr ⟨hreferences, .inr ⟨routing, hrouting, .inl h⟩⟩
    · exact .inr ⟨hreferences, .inr ⟨routing, hrouting, .inr ⟨order, horder, h⟩⟩⟩
  · rintro (h | ⟨hreferences, h | ⟨routing, hrouting, h | ⟨order, horder, h⟩⟩⟩)
    · exact .inl h
    · exact .inr ⟨_, hreferences, .inl h⟩
    · exact .inr ⟨_, hreferences, .inr ⟨routing, hrouting, .inl h⟩⟩
    · exact .inr ⟨_, hreferences, .inr ⟨routing, hrouting, .inr ⟨order, horder, .inl h⟩⟩⟩

/-- A service is described if and only if it meets the conditions on single services. -/
theorem exists_describe_eq_ok_iff {name : String} {s : ServiceConfig}
    (hconnect : ∀ target ∈ s.connect, ∃ t, c.Listens target t) :
    (∃ d, c.describe catalog secrets name s = .ok d) ↔
      catalog.contains (s.package.getD name) ∧ (∀ role ∈ s.providers, c.Available secrets role) ∧
        (∀ a b key v w, c.Derives name s a key v → c.Derives name s b key w → a = b) ∧
        ∀ g ∈ s.paths, g.path.isAbsolute := by
  simp only [describe_eq_ok_iff, Table.contains, Option.isSome_iff_exists]
  constructor
  · rintro ⟨-, plan, hplan, havailable, -, hagree, hpaths, -⟩
    exact ⟨⟨plan, hplan⟩, havailable, (agree_derivedPairs_iff havailable).1 hagree, hpaths⟩
  · rintro ⟨⟨plan, hplan⟩, havailable, hsources, hpaths⟩
    exact ⟨_, plan, hplan, havailable, hconnect, (agree_derivedPairs_iff havailable).2 hsources,
      hpaths, rfl⟩

/-- The services of a startup order are described if and only if all deployed ones are. -/
theorem exists_describeAll_eq_ok_iff (hreferences : c.checkReferences = .ok ())
    {order : List String} (horder : c.startupOrder = .ok order) :
    (∃ ds, c.describeAll catalog secrets order = .ok ds) ↔
      ∀ name s, c.Runs name s → ∃ d, c.describe catalog secrets name s = .ok d := by
  obtain ⟨-, hmem, -⟩ := startupOrder_eq_ok hreferences horder
  simp only [describeAll_eq_ok_iff fun name hname => (hmem name).1 hname, exists_forall₂_iff, hmem]
  constructor
  · intro h name s hs
    obtain ⟨d, t, ht, hd⟩ := h name ⟨s, hs⟩
    rw [ht.eq hs] at hd
    exact ⟨d, hd⟩
  · rintro h name ⟨s, hs⟩
    obtain ⟨d, hd⟩ := h name s hs
    exact ⟨d, s, hs, hd⟩

/-- A configuration compiles exactly if it is deployable. -/
theorem exists_compile_eq_ok_iff (c : DeploymentConfig) (catalog : ResolvedCatalog)
    (secrets : SecretSet) :
    (∃ d, c.compile catalog secrets = .ok d) ↔ c.IsDeployable catalog secrets := by
  simp only [compile_eq_ok_iff]
  constructor
  · rintro ⟨-, hreferences, routing, order, services, hrouting, horder, hservices, -⟩
    have hgood := checkReferences_eq_ok_iff.1 hreferences
    have hdescribed : ∀ name s, c.Runs name s → _ := fun name s hs =>
      (exists_describe_eq_ok_iff (hgood name s hs).1).1
        ((exists_describeAll_eq_ok_iff hreferences horder).1 ⟨services, hservices⟩ name s hs)
    exact {
      connect := fun name s hs => (hgood name s hs).1
      after := fun name s hs => (hgood name s hs).2
      proxy := exists_compileRouting_eq_ok_iff.1 ⟨routing, hrouting⟩
      startup := (exists_startupOrder_eq_ok_iff hreferences).1 ⟨order, horder⟩
      package := fun name s hs => (hdescribed name s hs).1
      providers := fun name s hs => (hdescribed name s hs).2.1
      sources := fun name s hs => (hdescribed name s hs).2.2.1
      paths := fun name s hs => (hdescribed name s hs).2.2.2 }
  · intro h
    have hreferences : c.checkReferences = .ok () :=
      checkReferences_eq_ok_iff.2 fun name s hs => ⟨h.connect name s hs, h.after name s hs⟩
    -- The order comes before the descriptions, since it says which of them are made.
    obtain ⟨routing, hrouting⟩ := exists_compileRouting_eq_ok_iff.2 h.proxy
    obtain ⟨order, horder⟩ := (exists_startupOrder_eq_ok_iff hreferences).2 h.startup
    have hdescribed : ∀ name s, c.Runs name s → ∃ d, c.describe catalog secrets name s = .ok d :=
      fun name s hs => (exists_describe_eq_ok_iff (h.connect name s hs)).2
        ⟨h.package name s hs, h.providers name s hs, h.sources name s hs, h.paths name s hs⟩
    obtain ⟨services, hservices⟩ :=
      (exists_describeAll_eq_ok_iff hreferences horder).2 hdescribed
    exact ⟨_, hreferences, routing, order, services, hrouting, horder, hservices, rfl⟩

end DeploymentConfig

end LayeredCatalog
