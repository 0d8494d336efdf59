import LayeredCatalog.Proofs.Deployment.Services

/-!
# The variables of a service

In a deployment no variable comes from two sources, but one source may give a variable
several times: a role or a target that is listed twice does. Each time it is the same
value (`Derives.value_unique`), so nothing that is derived is lost: the environment of a
service holds exactly what the sources and the operator give, and where both give a
variable, the operator's value (`environment_exact`).
-/

namespace LayeredCatalog

/-- In a list in which no key occurs twice, a key has one value. -/
theorem value_eq_of_nodup_keys {κ α : Type*} {l : List (κ × α)} (h : (l.map Prod.fst).Nodup)
    {k : κ} {v w : α} (hv : (k, v) ∈ l) (hw : (k, w) ∈ l) : v = w :=
  congrArg Prod.snd (List.inj_on_of_nodup_map h hv hw rfl)

namespace Environment

theorem nodup_keys_connection (target : String) (e : Endpoint) :
    ((connection target e).map Prod.fst).Nodup := by
  simp [connection]

end Environment

namespace DeploymentConfig

variable {c : DeploymentConfig} {catalog : ResolvedCatalog} {secrets : SecretSet}
  {name key v w : String} {s : ServiceConfig} {role : Role}

theorem nodup_keys_ownVars (c : DeploymentConfig) (name : String) (s : ServiceConfig) :
    ((c.ownVars name s).map Prod.fst).Nodup := by
  rw [ownVars]
  split
  · simp
  · simp

/-- A role that can be used gives a variable one value. -/
theorem Tells.value_unique (havailable : c.Available secrets role) (hv : c.Tells role key v)
    (hw : c.Tells role key w) : v = w := by
  obtain ⟨⟨p, hp⟩, -⟩ := (available_iff "").1 havailable
  obtain ⟨-, htells⟩ := provide_eq_ok hp
  have hv := Table.get?_eq_some_iff.2 ((htells key v).2 hv)
  have hw := Table.get?_eq_some_iff.2 ((htells key w).2 hw)
  exact Option.some.inj (hv.symm.trans hw)

theorem Binding.fileVariable_of_credential? {about : String} {b : Binding}
    {needed : Environment.CredentialVar} (h : b.credential? about = some needed) :
    needed.fileVariable = about ++ "_API_KEY_FILE" := by
  cases b with
  | onPremises model baseUrl => cases h
  | vendor company model apiKey baseUrl =>
      cases h
      rfl

theorem fileVariable_of_binding? {b : Binding} {needed : Environment.CredentialVar}
    (hb : c.binding? role = some b) (h : c.credential? role = some needed) :
    needed.fileVariable = role.about ++ "_API_KEY_FILE" := by
  cases role with
  | llm => exact Binding.fileVariable_of_credential? h
  | embedding => exact Binding.fileVariable_of_credential? h
  | search => cases hb

/-- The path of a credential has a variable of its own. -/
theorem Tells.ne_fileVariable {needed : Environment.CredentialVar} (h : c.Tells role key v)
    (hneeded : c.credential? role = some needed) : key ≠ needed.fileVariable := by
  cases h with
  | label hb =>
      rw [fileVariable_of_binding? hb hneeded, Ne, String.append_right_inj]
      decide
  | model hb =>
      rw [fileVariable_of_binding? hb hneeded, Ne, String.append_right_inj]
      decide
  | endpoint hb hurl =>
      rw [fileVariable_of_binding? hb hneeded, Ne, String.append_right_inj]
      decide
  | dimension =>
      rw [fileVariable_of_binding? rfl hneeded]
      decide
  | search =>
      cases hneeded
      have hne : ∀ p : SearchProvider, "SEARCH_PROVIDER" ≠ p.keyVariable ++ "_FILE" := by
        rintro (_ | _ | _) <;> decide
      exact hne c.search.provider

/-- A source gives a variable of a service one value. -/
theorem Derives.value_unique {source : Source}
    (havailable : ∀ role ∈ s.providers, c.Available secrets role)
    (hv : c.Derives name s source key v) (hw : c.Derives name s source key w) : v = w := by
  cases source with
  | service =>
      exact value_eq_of_nodup_keys (nodup_keys_ownVars c name s) (mem_ownVars.2 hv)
        (mem_ownVars.2 hw)
  | provider role =>
      obtain ⟨hrole, hv⟩ := derives_provider_iff.1 hv
      obtain ⟨-, hw⟩ := derives_provider_iff.1 hw
      rcases hv with hv | ⟨needed, hneeded, hv⟩
      · rcases hw with hw | ⟨needed, hneeded, hw⟩
        · exact hv.value_unique (havailable role hrole) hw
        · exact absurd (Prod.mk.inj hw).1.symm (hv.ne_fileVariable hneeded)
      · rcases hw with hw | ⟨needed', hneeded', hw⟩
        · exact absurd (Prod.mk.inj hv).1.symm (hw.ne_fileVariable hneeded)
        · obtain rfl := Option.some.inj (hneeded.symm.trans hneeded')
          exact (Prod.mk.inj (hv.symm.trans hw)).2
  | connection target =>
      obtain ⟨-, t, ht, hv⟩ := derives_connection_iff.1 hv
      obtain ⟨-, t', ht', hw⟩ := derives_connection_iff.1 hw
      obtain rfl := Option.some.inj (ht.symm.trans ht')
      exact value_eq_of_nodup_keys (Environment.nodup_keys_connection target _) hv hw

open DerivedEnv

/-- Where a variable has one value, the derived values are what the sources give. -/
theorem get?_values_derivedPairs_eq_some_iff
    (havailable : ∀ role ∈ s.providers, c.Available secrets role)
    (hunique : ∀ a b key v w, c.Derives name s a key v → c.Derives name s b key w → v = w) :
    (ofPairs name (c.derivedPairs name s)).values.get? key = some v ↔
      ∃ a, c.Derives name s a key v := by
  have hderives : ∀ {x}, (key, x) ∈ c.derivedPairs name s → ∃ a, c.Derives name s a key x.value := by
    intro x hx
    obtain ⟨a, -, ha⟩ := (mem_derivedPairs havailable).1 hx
    exact ⟨a, ha⟩
  rw [values, ofPairs, Table.get?_map, Option.map_eq_some_iff]
  constructor
  · rintro ⟨x, hx, rfl⟩
    exact hderives (Table.mem_of_get?_ofList hx)
  · rintro ⟨a, ha⟩
    have hcontains : (Table.ofList (c.derivedPairs name s)).contains key := by
      rw [Table.contains_ofList, List.any_eq_true]
      exact ⟨(key, ⟨a.label, v⟩), (mem_derivedPairs havailable).2 ⟨a, rfl, ha⟩, by simp⟩
    obtain ⟨x, hx⟩ := Option.isSome_iff_exists.1 hcontains
    obtain ⟨b, hb⟩ := hderives (Table.mem_of_get?_ofList hx)
    exact ⟨x, hx, hunique b a key _ _ hb ha⟩

/-- In a deployment, all that the sources of a service give is consistent, and it is in the
service's environment: the environment holds the variables that are derived and those of
the operator, no other ones, and it gives the operator's value for each of the operator's
and the derived value for each of the rest. -/
theorem environment_exact {d : Deployment} (h : c.compile catalog secrets = .ok d)
    (hs : c.Runs name s) :
    (∀ a b key v w, c.Derives name s a key v → c.Derives name s b key w → v = w) ∧
      ∃ desc, d.service? name = some desc ∧
        (∀ key, desc.environment.contains key ↔
          s.environment.contains key ∨ ∃ a v, c.Derives name s a key v) ∧
        (∀ key v, s.environment.get? key = some v → desc.environment.get? key = some v) ∧
        ∀ a key v, c.Derives name s a key v → s.environment.get? key = none →
          desc.environment.get? key = some v := by
  obtain ⟨desc, -, hdesc⟩ := exists_mem_services h hs
  obtain ⟨plan, -, havailable, -, hagree, -, heq⟩ := describe_eq_ok_iff.1 hdesc
  have hunique : ∀ a b key v w, c.Derives name s a key v → c.Derives name s b key w → v = w := by
    intro a b key v w ha hb
    obtain rfl := (agree_derivedPairs_iff havailable).1 hagree a b key v w ha hb
    exact ha.value_unique havailable hb
  have hget : ∀ key, desc.environment.get? key =
      (s.environment.get? key).or ((ofPairs name (c.derivedPairs name s)).values.get? key) := by
    intro key
    rw [heq]
    exact Table.get?_insertMany_toList _ _ key
  refine ⟨hunique, desc, (service?_eq_some_iff h).2 ⟨s, hs, hdesc⟩, fun key => ?_, ?_, ?_⟩
  · rw [Table.contains, hget, Option.isSome_or, Bool.or_eq_true, Table.contains,
      Option.isSome_iff_exists (x := (ofPairs name _).values.get? key)]
    simp only [get?_values_derivedPairs_eq_some_iff havailable hunique]
    rw [exists_comm]
  · intro key v hv
    rw [hget, hv]
    rfl
  · intro a key v ha hnone
    rw [hget, hnone]
    exact (get?_values_derivedPairs_eq_some_iff havailable hunique).2 ⟨a, ha⟩

/-- The front end is told where the back end listens, but the operator's address wins. -/
theorem environment_exact_assistant :
    ∃ d desc, assistant.compile assistantCatalog assistantSecrets = .ok d ∧
      assistant.Runs "frontend" frontend ∧ d.service? "frontend" = some desc ∧
      desc.environment.get? "BACKEND_PORT" = some "8001" ∧
      desc.environment.get? "BACKEND_URL" = some "https://example.org" := by
  obtain ⟨d, hd⟩ := exists_compile_assistant
  have hs : assistant.Runs "frontend" frontend := ⟨by decide +kernel, rfl⟩
  obtain ⟨-, desc, hdesc, -, hoperator, hderived⟩ := environment_exact hd hs
  have hport : assistant.Derives "frontend" frontend (.connection "backend") "BACKEND_PORT" "8001" :=
    derives_connection_iff.2 ⟨List.mem_cons_self, _, rfl, by decide +kernel⟩
  refine ⟨d, desc, hd, hs, hdesc, hderived _ _ _ hport ?_, hoperator _ _ ?_⟩
  · decide +kernel
  · decide +kernel

end DeploymentConfig

end LayeredCatalog
