import LayeredCatalog.Proofs.Deployment.Services

/-!
# Where requests go

The routes of a deployment are made one by one from the rules of the configuration, so
the first route that covers a path comes from the first rule that the path is under
(`exists_rule_of_find?`). Every service that is routed to is deployed and listens, and
its description says where. The service and the address that are found for a path are
therefore those of one rule, or of the default service (`routing_agrees`).
-/

namespace LayeredCatalog

/-- A path continues another one at a slash, or is the same. -/
def IsUnder (path under : String) : Prop :=
  ∃ rest, path = under ++ rest ∧
    (rest = "" ∨ under.toList.getLast? = some '/' ∨ rest.toList.head? = some '/')

theorem Route.covers_iff {r : Route} {path : String} : r.covers path ↔ IsUnder path r.under := by
  have hsplit : ∀ rest : String, Text.afterPrefix? r.under.toList path.toList = some rest.toList ↔
      path = r.under ++ rest := by
    intro rest
    rw [Text.afterPrefix?_eq_some_iff, ← String.toList_append, String.toList_inj]
  rw [covers]
  split
  · next hnone =>
    constructor
    · rintro ⟨⟩
    · rintro ⟨rest, hrest, -⟩
      cases hnone.symm.trans ((hsplit rest).2 hrest)
  · next chars hchars =>
    have hpath := (hsplit (String.ofList chars)).1 (by rw [hchars, String.toList_ofList])
    have hunique : ∀ rest, path = r.under ++ rest → rest = String.ofList chars := fun rest hrest =>
      String.append_right_inj r.under |>.1 (hrest.symm.trans hpath)
    simp only [Bool.or_eq_true, List.isEmpty_iff, decide_eq_true_eq, or_assoc]
    constructor
    · intro h
      refine ⟨String.ofList chars, hpath, ?_⟩
      simpa using h
    · rintro ⟨rest, hrest, h⟩
      rw [hunique rest hrest] at h
      simpa using h

namespace DeploymentConfig

variable {c : DeploymentConfig} {catalog : ResolvedCatalog} {secrets : SecretSet}
  {d : Deployment} {name path : String} {t : ServiceConfig}

/-- The service that the rules of the proxy send a path to: that of the first rule that
the path is under, or else the default one. -/
inductive RoutesTo (c : DeploymentConfig) (path : String) : String → Prop
  | rule {before after : List RouteConfig} {rule : RouteConfig}
      (hrules : c.proxy.routes = before ++ rule :: after) (h : IsUnder path rule.under)
      (hfirst : ∀ r ∈ before, ¬ IsUnder path r.under) : RoutesTo c path rule.service
  | default (hnone : ∀ r ∈ c.proxy.routes, ¬ IsUnder path r.under) :
      RoutesTo c path c.proxy.default

theorem Makes.covers_iff {rule : RouteConfig} {route : Route} (h : c.Makes rule route) :
    route.covers path ↔ IsUnder path rule.under := by
  obtain ⟨-, t, -, rfl⟩ := h
  exact Route.covers_iff

/-- The first route that covers a path is made from the first rule that the path is
under. -/
theorem exists_rule_of_find? {rules : List RouteConfig} {routes : List Route} {route : Route}
    (h : List.Forall₂ c.Makes rules routes) (hfind : routes.find? (·.covers path) = some route) :
    ∃ before rule after, rules = before ++ rule :: after ∧ c.Makes rule route ∧
      IsUnder path rule.under ∧ ∀ r ∈ before, ¬ IsUnder path r.under := by
  induction h with
  | nil => cases hfind
  | @cons rule first rules routes hmakes _ ih =>
      by_cases hcovers : first.covers path
      · rw [List.find?_cons_of_pos (by exact hcovers), Option.some.injEq] at hfind
        subst hfind
        exact ⟨[], rule, rules, rfl, hmakes, hmakes.covers_iff.1 hcovers, by simp⟩
      · rw [List.find?_cons_of_neg (by exact hcovers)] at hfind
        obtain ⟨before, rule', after, rfl, hmakes', hunder, hfirst⟩ := ih hfind
        refine ⟨rule :: before, rule', after, rfl, hmakes', hunder, ?_⟩
        rw [List.forall_mem_cons]
        exact ⟨fun h => hcovers (hmakes.covers_iff.2 h), hfirst⟩

theorem not_isUnder_of_find? {rules : List RouteConfig} {routes : List Route}
    (h : List.Forall₂ c.Makes rules routes) (hfind : routes.find? (·.covers path) = none) :
    ∀ rule ∈ rules, ¬ IsUnder path rule.under := by
  intro rule hrule hunder
  obtain ⟨route, hroute, hmakes⟩ := exists_mem_of_forall₂ h hrule
  exact List.find?_eq_none.1 hfind route hroute (hmakes.covers_iff.2 hunder)

/-- A deployed service that listens is described with its listener. -/
theorem exists_service?_of_listens (h : c.compile catalog secrets = .ok d) (ht : c.Listens name t) :
    ∃ desc, d.service? name = some desc ∧ desc.listen = some ⟨t.host, t.portNumber⟩ := by
  obtain ⟨desc, -, hdesc⟩ := exists_mem_services h ht.1
  refine ⟨desc, (service?_eq_some_iff h).2 ⟨t, ht.1, hdesc⟩, ?_⟩
  obtain ⟨plan, -, -, -, -, -, rfl⟩ := describe_eq_ok_iff.1 hdesc
  exact listener?_eq_some_iff.2 ⟨ht.2, rfl⟩

/-- A deployment has routing rules exactly if there is a proxy. Whatever the path of a
request is, they send it to the service of the first rule that the path is under, or
else to the default one, and to the address where the description of that service says
that it listens. -/
theorem routing_agrees (h : c.compile catalog secrets = .ok d) :
    (d.routing.isSome ↔ c.proxy.enable) ∧
      ∀ table, d.routing = some table → ∀ path, c.RoutesTo path (table.serviceFor path) ∧
        ∃ desc e, d.service? (table.serviceFor path) = some desc ∧ desc.listen = some e ∧
          table.addressFor path = e.url := by
  obtain ⟨-, routing, order, services, hrouting, -, -, hd⟩ := compile_eq_ok_iff.1 h
  obtain rfl : d.routing = routing := congrArg Deployment.routing hd
  rw [compileRouting_eq_ok_iff] at hrouting
  split at hrouting
  · next henable =>
    obtain ⟨t, routes, ht, hroutes, hrouting⟩ := hrouting
    refine ⟨by simp [hrouting, henable], fun table htable path => ?_⟩
    obtain rfl := Option.some.inj (htable.symm.trans hrouting)
    simp only [RoutingTable.serviceFor, RoutingTable.addressFor, RoutingTable.find?]
    cases hfind : routes.find? (·.covers path) with
    | none =>
        obtain ⟨desc, hdesc, hlisten⟩ := exists_service?_of_listens h ht
        exact ⟨.default (not_isUnder_of_find? hroutes hfind), desc, _, hdesc, hlisten, rfl⟩
    | some route =>
        obtain ⟨before, rule, after, hrules, ⟨-, u, hu, rfl⟩, hunder, hfirst⟩ :=
          exists_rule_of_find? hroutes hfind
        obtain ⟨desc, hdesc, hlisten⟩ := exists_service?_of_listens h hu
        exact ⟨.rule hrules hunder hfirst, desc, _, hdesc, hlisten, rfl⟩
  · next henable =>
    refine ⟨by simp [hrouting, henable], fun table htable => ?_⟩
    cases hrouting.symm.trans htable

/-- The front end and its back end behind a proxy, with a rule for some of the paths of
the back end that goes before the one for the rest. -/
def proxied : DeploymentConfig :=
  { assistant with proxy := {
      enable := true
      routes := [⟨"/api/docs", "frontend"⟩, ⟨"/api", "backend"⟩, ⟨"/api", "frontend"⟩] } }

theorem compile_proxied : ∃ d table, proxied.compile assistantCatalog assistantSecrets = .ok d ∧
    d.routing = some table ∧ table.serviceFor "/api/v1" = "backend" ∧
      table.addressFor "/api/v1" = "http://127.0.0.1:8001" := by
  obtain ⟨services, hservices⟩ := exists_eq_ok_of_isOk (x := proxied.describeAll
    assistantCatalog assistantSecrets ["backend", "frontend"]) (by decide +kernel)
  have hrouting : proxied.compileRouting = .ok (some {
      listen := ⟨"0.0.0.0", 80⟩
      routes := [⟨"/api/docs", "frontend", "http://127.0.0.1:3782"⟩,
        ⟨"/api", "backend", "http://127.0.0.1:8001"⟩,
        ⟨"/api", "frontend", "http://127.0.0.1:3782"⟩]
      defaultService := "frontend"
      defaultAddress := "http://127.0.0.1:3782" }) := by
    decide +kernel
  exact ⟨_, _, compile_eq_ok_iff.2 ⟨by decide +kernel, _, ["backend", "frontend"], services,
    hrouting, startupOrder_assistant, hservices, rfl⟩, rfl, by decide +kernel, by decide +kernel⟩

theorem routing_agrees_proxied :
    ∃ d table desc e, proxied.compile assistantCatalog assistantSecrets = .ok d ∧
      d.routing = some table ∧ proxied.RoutesTo "/api/v1" "backend" ∧
      d.service? "backend" = some desc ∧ desc.listen = some e ∧
      e.url = "http://127.0.0.1:8001" := by
  obtain ⟨d, table, hd, htable, hservice, haddress⟩ := compile_proxied
  obtain ⟨hroutes, desc, e, hdesc, hlisten, hurl⟩ :=
    (routing_agrees hd).2 table htable "/api/v1"
  rw [hservice] at hroutes hdesc
  exact ⟨d, table, desc, e, hd, htable, hroutes, hdesc, hlisten, hurl.symm.trans haddress⟩

end DeploymentConfig

end LayeredCatalog
