import LayeredCatalog.Proofs.Deployment.Agreement

/-!
# Handles of secrets

A compilation asks whether the secrets that it needs are there. Their handles it passes
on: the credentials of a deployment carry those of the set that it was compiled with
(`carries_of_compile`). With another set of the same names the compilation fails with
the same fault, or it gives the same deployment with the other handles
(`compile_withHandles`).
-/

namespace LayeredCatalog

namespace Deployment

/-- The deployment with the handles of other secrets. -/
def withHandles (secrets : SecretSet) (d : Deployment) : Deployment :=
  d.mapHandles fun k handle => (secrets.get? k).getD handle

/-- Every credential has the handle that its secret has in a set. -/
def Carries (d : Deployment) (secrets : SecretSet) : Prop :=
  ∀ desc ∈ d.services, ∀ k credential, desc.credentials.get? k = some credential →
    secrets.get? k = some credential.secret

end Deployment

namespace DeploymentConfig

variable {c : DeploymentConfig} {catalog : ResolvedCatalog} {secrets secrets' : SecretSet}

theorem carries_of_compile {d : Deployment} (h : c.compile catalog secrets = .ok d) :
    d.Carries secrets := by
  intro desc hdesc k credential hk
  obtain ⟨name, s, -, hd⟩ := (mem_services_iff h).1 hdesc
  obtain ⟨-, handle, hhandle, rfl⟩ := (get?_credentials_iff hd).1 hk
  exact hhandle

theorem get?_eq_map_getD (hkeys : secrets'.keys = secrets.keys) (k : String) :
    secrets'.get? k = (secrets.get? k).map fun handle => (secrets'.get? k).getD handle := by
  have hcontains : secrets'.contains k ↔ secrets.contains k := by
    rw [Table.contains_iff_mem_keys, Table.contains_iff_mem_keys, hkeys]
  rw [Table.contains, Table.contains] at hcontains
  cases hk : secrets.get? k with
  | none => simpa [hk] using hcontains
  | some handle =>
      obtain ⟨handle', hk'⟩ := Option.isSome_iff_exists.1 (hcontains.2 (by rw [hk]; rfl))
      rw [hk']
      rfl

/-- Two sets of secrets with the same names make the same of a configuration, but for the
handles, each of which is that of its own set. -/
theorem compile_withHandles (c : DeploymentConfig) (catalog : ResolvedCatalog)
    (hkeys : secrets'.keys = secrets.keys) :
    (∃ e, c.compile catalog secrets = .error e ∧ c.compile catalog secrets' = .error e) ∨
      ∃ d, c.compile catalog secrets = .ok d ∧
        c.compile catalog secrets' = .ok (d.withHandles secrets') ∧
        d.Carries secrets ∧ (d.withHandles secrets').Carries secrets' := by
  have hcompile : c.compile catalog secrets' =
      Deployment.withHandles secrets' <$> c.compile catalog secrets :=
    (AgreesWith.refl c catalog).compile_eq_mapHandles fun k _ => get?_eq_map_getD hkeys k
  cases h : c.compile catalog secrets with
  | error e =>
      rw [h] at hcompile
      exact .inl ⟨e, rfl, hcompile⟩
  | ok d =>
      rw [h] at hcompile
      exact .inr ⟨d, rfl, hcompile, carries_of_compile h, carries_of_compile hcompile⟩

def movedSecrets : SecretSet := .ofList [("OPENAI_API_KEY", "file:/etc/openai")]

theorem compile_withHandles_movedSecrets :
    movedSecrets.keys = assistantSecrets.keys ∧
      ∃ d, assistant.compile assistantCatalog assistantSecrets = .ok d ∧
        assistant.compile assistantCatalog movedSecrets = .ok (d.withHandles movedSecrets) ∧
        d.Carries assistantSecrets ∧ (d.withHandles movedSecrets).Carries movedSecrets := by
  have hkeys : movedSecrets.keys = assistantSecrets.keys := by decide +kernel
  refine ⟨hkeys, ?_⟩
  rcases compile_withHandles assistant assistantCatalog hkeys with ⟨e, he, -⟩ | hok
  · obtain ⟨d, hd⟩ := exists_compile_assistant
    cases hd.symm.trans he
  · exact hok

end DeploymentConfig

end LayeredCatalog
