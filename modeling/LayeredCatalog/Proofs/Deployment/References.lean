import LayeredCatalog.Deployment.Compile
import LayeredCatalog.Proofs.Stages

/-!
# References between services

A reference is good if it leads to a service that is deployed, and one to an address
if that service also listens. The checks before anything is described pass exactly if
all references of the deployed services are good (`checkReferences_eq_ok_iff`), and
the routing rules are made exactly if there is no proxy, or its references are good and
its paths begin with a slash (`exists_compileRouting_eq_ok_iff`).
-/

namespace LayeredCatalog

namespace DeploymentConfig

variable {c : DeploymentConfig}

/-- A service is configured and deployed. -/
def Runs (c : DeploymentConfig) (name : String) (s : ServiceConfig) : Prop :=
  c.services.get? name = some s ∧ s.enable

/-- A service is deployed and listens. -/
def Listens (c : DeploymentConfig) (name : String) (s : ServiceConfig) : Prop :=
  c.Runs name s ∧ 0 < s.portNumber

theorem Runs.eq {name : String} {s t : ServiceConfig} (hs : c.Runs name s) (ht : c.Runs name t) :
    s = t :=
  Option.some.inj (hs.1.symm.trans ht.1)

theorem mem_enabledServices {name : String} {s : ServiceConfig} :
    (name, s) ∈ c.enabledServices ↔ c.Runs name s := by
  rw [enabledServices, List.mem_filter, Runs, Table.get?_eq_some_iff]

theorem target_eq_ok_iff {service target : String} {t : ServiceConfig} :
    c.target service target = .ok t ↔ c.Runs target t := by
  rw [DeploymentConfig.target, Runs]
  split
  · next hnone => simp [hnone]
  · next u hu =>
    rw [hu, Option.some.injEq]
    split
    · next henable =>
      rw [Except.ok.injEq]
      constructor
      · rintro rfl
        exact ⟨rfl, henable⟩
      · exact And.left
    · next henable =>
      constructor
      · intro h
        cases h
      · rintro ⟨rfl, h⟩
        exact absurd h henable

/-- A service is configured, but not deployed. -/
def IsDisabled (c : DeploymentConfig) (name : String) : Prop :=
  ∃ s, c.services.get? name = some s ∧ s.enable = false

theorem get?_eq_none_iff {name : String} :
    c.services.get? name = none ↔ (¬ ∃ s, c.Runs name s) ∧ ¬ c.IsDisabled name := by
  cases h : c.services.get? name with
  | none => simp [Runs, IsDisabled, h]
  | some s => cases henable : s.enable <;> simp [Runs, IsDisabled, h, henable]

theorem target_eq_error_iff {service target : String} {e : DeploymentError} :
    c.target service target = .error e ↔
      c.services.get? target = none ∧ e = .unknownService service target ∨
        c.IsDisabled target ∧ e = .disabledService service target := by
  rw [DeploymentConfig.target, IsDisabled]
  cases h : c.services.get? target with
  | none => simp [eq_comm (b := e)]
  | some t => cases henable : t.enable <;> simp [henable, eq_comm (b := e)]

theorem listener?_eq_some_iff {s : ServiceConfig} {e : Endpoint} :
    s.listener? = some e ↔ 0 < s.portNumber ∧ e = ⟨s.host, s.portNumber⟩ := by
  rw [ServiceConfig.listener?, UInt16.pos_iff_ne_zero, eq_comm (a := e)]
  split
  · next h => simp [h]
  · next h => simp [h]

theorem listenerOf_eq_ok_iff {service target : String} {e : Endpoint} :
    c.listenerOf service target = .ok e ↔
      ∃ t, c.Listens target t ∧ e = ⟨t.host, t.portNumber⟩ := by
  have htarget : ∀ t, c.target service target = .ok t ↔ c.Runs target t :=
    fun t => target_eq_ok_iff
  simp only [Listens, ← htarget]
  rw [listenerOf]
  split
  · next hfault => simp [hfault]
  · next t ht =>
    rw [ht]
    simp only [Except.ok.injEq, and_assoc, exists_eq_left', ← listener?_eq_some_iff]
    split
    · next h => simp [h]
    · next h => simp [h]

theorem listenerOf_eq_error_iff {service target : String} {e : DeploymentError} :
    c.listenerOf service target = .error e ↔ c.target service target = .error e ∨
      ∃ t, c.Runs target t ∧ t.portNumber = 0 ∧
        e = .invalidOption s!"services.{target}.port" (.noListener service target) := by
  have htarget : ∀ t, c.target service target = .ok t ↔ c.Runs target t :=
    fun t => target_eq_ok_iff
  simp only [← htarget]
  rw [listenerOf]
  cases c.target service target with
  | error e' => simp
  | ok t =>
      by_cases hport : t.portNumber = 0 <;>
        simp [ServiceConfig.listener?, hport, eq_comm (b := e)]

theorem checkService_eq_ok_iff {name : String} {s : ServiceConfig} :
    c.checkService name s = .ok () ↔
      (∀ target ∈ s.connect, ∃ t, c.Listens target t) ∧
        ∀ target ∈ s.after, ∃ t, c.Runs target t := by
  have hconnect : ∀ target : String,
      (do let _ ← c.listenerOf name target : Except _ Unit) = .ok () ↔
        ∃ t, c.Listens target t := by
    intro target
    simp only [bind_eq_ok_iff, pure_eq_ok_iff, listenerOf_eq_ok_iff, and_true]
    constructor
    · rintro ⟨-, t, ht, -⟩
      exact ⟨t, ht⟩
    · rintro ⟨t, ht⟩
      exact ⟨_, t, ht, rfl⟩
  have hafter : ∀ target : String, (do let _ ← c.target name target : Except _ Unit) = .ok () ↔
      ∃ t, c.Runs target t := by
    intro target
    simp only [bind_eq_ok_iff, pure_eq_ok_iff, target_eq_ok_iff, and_true]
  rw [checkService, bind_eq_ok_iff]
  simp only [forM_eq_ok_iff, hconnect, hafter, exists_const]

theorem checkReferences_eq_ok_iff :
    c.checkReferences = .ok () ↔ ∀ name s, c.Runs name s →
      (∀ target ∈ s.connect, ∃ t, c.Listens target t) ∧
        ∀ target ∈ s.after, ∃ t, c.Runs target t := by
  rw [checkReferences, forM_eq_ok_iff]
  simp only [checkService_eq_ok_iff, Prod.forall, mem_enabledServices]

/-- A rule makes a route: its path has a slash in front, and its service listens at the
route's address. -/
def Makes (c : DeploymentConfig) (rule : RouteConfig) (route : Route) : Prop :=
  rule.under.toList.head? = some '/' ∧ ∃ t, c.Listens rule.service t ∧
    route = ⟨rule.under, rule.service, (⟨t.host, t.portNumber⟩ : Endpoint).url⟩

theorem exists_makes_iff {rule : RouteConfig} :
    (∃ route, c.Makes rule route) ↔
      rule.under.toList.head? = some '/' ∧ ∃ t, c.Listens rule.service t := by
  constructor
  · rintro ⟨route, hslash, t, ht, -⟩
    exact ⟨hslash, t, ht⟩
  · rintro ⟨hslash, t, ht⟩
    exact ⟨_, hslash, t, ht, rfl⟩

theorem compileRoutes_eq_ok_iff {i : Nat} {rules : List RouteConfig} {routes : List Route} :
    c.compileRoutes i rules = .ok routes ↔ List.Forall₂ c.Makes rules routes := by
  induction rules generalizing i routes with
  | nil =>
      rw [compileRoutes, Except.ok.injEq, List.forall₂_nil_left_iff, eq_comm]
  | cons rule rules ih =>
      rw [compileRoutes, List.forall₂_cons_left_iff]
      split
      · next h =>
        constructor
        · intro h'
          cases h'
        · rintro ⟨route, rest, ⟨h', -⟩, -⟩
          exact absurd h' h
      · next h =>
        simp only [bind_eq_ok_iff, listenerOf_eq_ok_iff, ih, pure_eq_ok_iff]
        constructor
        · rintro ⟨-, ⟨t, ht, rfl⟩, rest, hrest, rfl⟩
          exact ⟨_, rest, ⟨not_not.1 h, t, ht, rfl⟩, hrest, rfl⟩
        · rintro ⟨route, rest, ⟨-, t, ht, rfl⟩, hrest, rfl⟩
          exact ⟨_, ⟨t, ht, rfl⟩, rest, hrest, rfl⟩

theorem compileRouting_eq_ok_iff {routing : Option RoutingTable} :
    c.compileRouting = .ok routing ↔
      if c.proxy.enable then ∃ t routes, c.Listens c.proxy.default t ∧
        List.Forall₂ c.Makes c.proxy.routes routes ∧ routing = some {
          listen := ⟨c.proxy.host, c.proxy.portNumber⟩
          routes
          defaultService := c.proxy.default
          defaultAddress := (⟨t.host, t.portNumber⟩ : Endpoint).url }
      else routing = none := by
  rw [compileRouting]
  split
  · simp only [bind_eq_ok_iff, pure_eq_ok_iff, listenerOf_eq_ok_iff, compileRoutes_eq_ok_iff]
    constructor
    · rintro ⟨-, ⟨t, ht, rfl⟩, routes, hroutes, rfl⟩
      exact ⟨t, routes, ht, hroutes, rfl⟩
    · rintro ⟨t, routes, ht, hroutes, rfl⟩
      exact ⟨_, ⟨t, ht, rfl⟩, routes, hroutes, rfl⟩
  · rw [pure_eq_ok_iff, eq_comm]

theorem exists_compileRouting_eq_ok_iff :
    (∃ routing, c.compileRouting = .ok routing) ↔ (c.proxy.enable →
      (∃ t, c.Listens c.proxy.default t) ∧ ∀ rule ∈ c.proxy.routes,
        rule.under.toList.head? = some '/' ∧ ∃ t, c.Listens rule.service t) := by
  simp only [compileRouting_eq_ok_iff, ← exists_makes_iff, ← exists_forall₂_iff]
  split
  · next henable =>
    constructor
    · rintro ⟨-, t, routes, ht, hroutes, -⟩ -
      exact ⟨⟨t, ht⟩, routes, hroutes⟩
    · intro h
      obtain ⟨⟨t, ht⟩, routes, hroutes⟩ := h henable
      exact ⟨_, t, routes, ht, hroutes, rfl⟩
  · next henable =>
    constructor
    · intro _ h
      exact absurd h henable
    · intro _
      exact ⟨none, rfl⟩

end DeploymentConfig

end LayeredCatalog
