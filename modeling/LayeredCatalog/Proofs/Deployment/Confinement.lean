import LayeredCatalog.Deployment.Config.Document
import LayeredCatalog.Proofs.Deployment.Services
import LayeredCatalog.Proofs.Path

/-!
# Services in directories of their own

The directory of a service and the files of its credentials are found by joining its name,
and the names of secrets, to configured directories. Only the paths that a configuration
grants to a service are checked to begin at the root; the directories and the names are
taken as they are. `IsConfined` is what is wanted of a deployment: its paths begin at the
root, each service has an entry of its own in the data directory, and its credentials are
entries of one directory. Service by service this is a matter of where the names lead
(`stateDir_isEntry_iff`, `credentials_areEntries_iff`). So a compiled deployment is confined
exactly if the configuration leads inside (`compile_isConfined_iff`), which it does when its
directories begin at the root and its names are plain (`leadsInside_of_isPlain`).
-/

namespace LayeredCatalog

/-- The directory of a service, which its description lists first. -/
def ServiceDescription.stateDir? (desc : ServiceDescription) : Option Path :=
  desc.paths.head?.map (·.path)

namespace DeploymentConfig

/-- All paths of a deployment begin at the root. The directory of a service is an entry of
the data directory, for each service another one, and its credentials are entries of the
directory with its name. -/
structure IsConfined (c : DeploymentConfig) (d : Deployment) : Prop where
  access : ∀ desc ∈ d.services, ∀ a ∈ desc.paths, a.path.isAbsolute
  directive : ∀ p ∈ d.paths, p.path.isAbsolute
  stateDir : ∀ desc ∈ d.services, ∃ p n, desc.stateDir? = some p ∧
    p.parts = c.dataDir.parts ++ [.name n]
  distinct : ∀ desc ∈ d.services, ∀ desc' ∈ d.services, ∀ p p', desc.stateDir? = some p →
    desc'.stateDir? = some p' → p.parts = p'.parts → desc.name = desc'.name
  credential : ∀ desc ∈ d.services, ∀ k credential, desc.credentials.get? k = some credential →
    credential.path.isAbsolute ∧
      ∃ n, credential.path.parts = (c.credentialsDir.join desc.name).parts ++ [.name n]

/-- The directories of a configuration begin at the root. The names of services lead to
entries of the data directory, no two to the same one, and the names of secrets to entries
of the directory for the service. -/
structure LeadsInside (c : DeploymentConfig) : Prop where
  dataDir : c.dataDir.isAbsolute
  service : ∀ name s, c.Runs name s → ∃ n, c.dataDir.Leads name n
  distinct : ∀ name name' s s' n, c.Runs name s → c.Runs name' s' → c.dataDir.Leads name n →
    c.dataDir.Leads name' n → name = name'
  credential : ∀ name s, c.Runs name s → ∀ role ∈ s.providers, ∀ needed,
    c.credential? role = some needed → (c.credentialsDir.join name).isAbsolute ∧
      ∃ n, (c.credentialsDir.join name).Leads needed.secret n

variable {c : DeploymentConfig} {catalog : ResolvedCatalog} {secrets : SecretSet}
  {d : Deployment} {name : String} {s : ServiceConfig} {desc : ServiceDescription}

section Described

variable (h : c.describe catalog secrets name s = .ok desc)

include h

theorem paths_of_describe :
    desc.paths = ⟨c.stateDir name, .readWrite⟩ :: s.paths.map fun g => ⟨g.path, g.mode⟩ := by
  obtain ⟨plan, -, -, -, -, -, rfl⟩ := describe_eq_ok_iff.1 h
  rfl

theorem stateDir?_of_describe : desc.stateDir? = some (c.stateDir name) := by
  rw [ServiceDescription.stateDir?, paths_of_describe h]
  rfl

/-- What is granted to a service besides its directory begins at the root. -/
theorem isAbsolute_of_mem_paths (hdir : (c.stateDir name).isAbsolute) {a : PathAccess}
    (ha : a ∈ desc.paths) : a.path.isAbsolute := by
  obtain ⟨plan, -, -, -, -, hgrants, -⟩ := describe_eq_ok_iff.1 h
  rw [paths_of_describe h] at ha
  rcases List.mem_cons.1 ha with rfl | ha
  · exact hdir
  · obtain ⟨g, hg, rfl⟩ := List.mem_map.1 ha
    exact hgrants g hg

/-- The directory of a service is the entry that its name leads to. -/
theorem stateDir_isEntry_iff (hdata : c.dataDir.isAbsolute) {n : String} :
    (∃ p, desc.stateDir? = some p ∧ p.parts = c.dataDir.parts ++ [.name n]) ↔
      c.dataDir.Leads name n := by
  rw [stateDir?_of_describe h, ← Path.parts_join_eq_iff hdata]
  constructor
  · rintro ⟨p, ⟨⟩, hparts⟩
    exact hparts
  · intro hparts
    exact ⟨_, rfl, hparts⟩

/-- The credentials of a service are the entries that the names of their secrets lead to. -/
theorem credentials_areEntries_iff :
    (∀ k credential, desc.credentials.get? k = some credential → credential.path.isAbsolute ∧
      ∃ n, credential.path.parts = (c.credentialsDir.join name).parts ++ [.name n]) ↔
    ∀ role ∈ s.providers, ∀ needed, c.credential? role = some needed →
      (c.credentialsDir.join name).isAbsolute ∧
        ∃ n, (c.credentialsDir.join name).Leads needed.secret n := by
  have hentry : ∀ secret, ((c.credentialPath name secret).isAbsolute ∧ ∃ n,
      (c.credentialPath name secret).parts = (c.credentialsDir.join name).parts ++ [.name n]) ↔
        (c.credentialsDir.join name).isAbsolute ∧
          ∃ n, (c.credentialsDir.join name).Leads secret n := by
    intro secret
    rw [← exists_and_left, ← exists_and_left]
    exact exists_congr fun n => Path.join_isEntry_iff
  constructor
  · intro hfiles role hrole needed hneeded
    obtain ⟨-, -, havailable, -⟩ := describe_eq_ok_iff.1 h
    have hsecret : secrets.contains needed.secret :=
      (havailable role hrole).secret needed hneeded
    obtain ⟨handle, hhandle⟩ := Option.isSome_iff_exists.1 hsecret
    have hfile := (get?_credentials_iff h).2
      ⟨⟨role, hrole, needed, hneeded, rfl⟩, handle, hhandle, rfl⟩
    have hpath := hfiles _ _ hfile
    exact (hentry needed.secret).1 hpath
  · intro hsecrets k credential hfile
    obtain ⟨⟨role, hrole, needed, hneeded, rfl⟩, handle, -, rfl⟩ :=
      (get?_credentials_iff h).1 hfile
    exact (hentry needed.secret).2 (hsecrets role hrole needed hneeded)

end Described

section Directives

variable {t : Table (List Path.Part) PathDirective} {a : PathAccess} {k : List Path.Part}
  {p q : PathDirective}

/-- A directive is for the path of an older one, or for the one asked for. -/
theorem path_of_get?_addAccess (h : (c.addAccess t a).get? k = some p) :
    (∃ k q, t.get? k = some q ∧ p.path = q.path) ∨ p.path = a.path := by
  unfold addAccess at h
  split at h
  · rw [Table.get?_insert] at h
    split at h
    · obtain rfl := Option.some.inj h
      exact .inr rfl
    · exact .inl ⟨k, p, h, rfl⟩
  · next q hq =>
    split at h
    · rw [Table.get?_insert] at h
      split at h
      · obtain rfl := Option.some.inj h
        exact .inl ⟨_, q, hq, rfl⟩
      · exact .inl ⟨k, p, h, rfl⟩
    · exact .inl ⟨k, p, h, rfl⟩

/-- A path keeps its directive, with the spelling that came first. -/
theorem exists_get?_addAccess (h : t.get? k = some q) (a : PathAccess) :
    ∃ p, (c.addAccess t a).get? k = some p ∧ p.path = q.path := by
  unfold addAccess
  split
  · next hnone =>
    refine ⟨q, ?_, rfl⟩
    rw [Table.get?_insert, if_neg, h]
    rintro rfl
    cases hnone.symm.trans h
  · next q' hq' =>
    split
    · rw [Table.get?_insert]
      split
      · next hk =>
        obtain rfl := Option.some.inj (hq'.symm.trans (hk ▸ h))
        exact ⟨_, rfl, rfl⟩
      · exact ⟨q, h, rfl⟩
    · exact ⟨q, h, rfl⟩

theorem path_of_get?_foldl {accesses : List PathAccess}
    (h : (accesses.foldl c.addAccess t).get? k = some p) :
    (∃ k q, t.get? k = some q ∧ p.path = q.path) ∨ ∃ a ∈ accesses, p.path = a.path := by
  induction accesses generalizing t with
  | nil => exact .inl ⟨k, p, h, rfl⟩
  | cons a accesses ih =>
      rcases ih h with ⟨k', q, hq, hp⟩ | ⟨b, hb, hp⟩
      · rcases path_of_get?_addAccess hq with ⟨k'', q', hq', hpath⟩ | hpath
        · exact .inl ⟨k'', q', hq', hp.trans hpath⟩
        · exact .inr ⟨a, List.mem_cons_self, hp.trans hpath⟩
      · exact .inr ⟨b, List.mem_cons_of_mem _ hb, hp⟩

theorem exists_get?_foldl (h : t.get? k = some q) (accesses : List PathAccess) :
    ∃ p, (accesses.foldl c.addAccess t).get? k = some p ∧ p.path = q.path := by
  induction accesses generalizing t q with
  | nil => exact ⟨q, h, rfl⟩
  | cons a accesses ih =>
      obtain ⟨p, hp, hpath⟩ := exists_get?_addAccess (c := c) h a
      obtain ⟨p', hp', hpath'⟩ := ih hp
      exact ⟨p', hp', hpath'.trans hpath⟩

/-- The directories to prepare are the data directory and what services may use. -/
theorem path_of_mem_pathDirectives {services : List ServiceDescription}
    (h : p ∈ c.pathDirectives services) :
    p.path = c.dataDir ∨ ∃ desc ∈ services, ∃ a ∈ desc.paths, p.path = a.path := by
  obtain ⟨⟨k, p⟩, hmem, rfl⟩ := List.mem_map.1 h
  rcases path_of_get?_foldl (Table.get?_eq_some_iff.2 hmem) with ⟨k', q, hq, hp⟩ | ⟨a, ha, hp⟩
  · cases List.mem_singleton.1 (Table.mem_of_get?_ofList hq)
    exact .inl hp
  · obtain ⟨desc, hdesc, ha⟩ := List.mem_flatMap.1 ha
    exact .inr ⟨desc, hdesc, a, ha, hp⟩

theorem exists_mem_pathDirectives (c : DeploymentConfig) (services : List ServiceDescription) :
    ∃ p ∈ c.pathDirectives services, p.path = c.dataDir := by
  have hroot : (Table.ofList [(c.dataDir.parts, c.rootDirective)]).get? c.dataDir.parts =
      some c.rootDirective := Table.get?_eq_some_iff.2 (List.mem_singleton_self _)
  obtain ⟨p, hp, hpath⟩ := exists_get?_foldl hroot (services.flatMap (·.paths))
  exact ⟨p, List.mem_map.2 ⟨_, Table.get?_eq_some_iff.1 hp, rfl⟩, hpath⟩

end Directives

section Compiled

variable (h : c.compile catalog secrets = .ok d)

include h

theorem paths_of_compile : d.paths = c.pathDirectives d.services := by
  obtain ⟨-, -, -, -, -, -, -, rfl⟩ := compile_eq_ok_iff.1 h
  rfl

theorem IsConfined.leadsInside (hd : c.IsConfined d) : c.LeadsInside := by
  have hdata : c.dataDir.isAbsolute := by
    obtain ⟨p, hp, hpath⟩ := exists_mem_pathDirectives c d.services
    rw [← paths_of_compile h] at hp
    exact hpath ▸ hd.directive p hp
  refine ⟨hdata, ?_, ?_, ?_⟩
  · intro name s hs
    obtain ⟨desc, hdesc, hdescribe⟩ := exists_mem_services h hs
    obtain ⟨p, n, hentry⟩ := hd.stateDir desc hdesc
    exact ⟨n, (stateDir_isEntry_iff hdescribe hdata).1 ⟨p, hentry⟩⟩
  · intro name name' s s' n hs hs' hn hn'
    obtain ⟨desc, hdesc, hdescribe⟩ := exists_mem_services h hs
    obtain ⟨desc', hdesc', hdescribe'⟩ := exists_mem_services h hs'
    obtain ⟨p, hp, hparts⟩ := (stateDir_isEntry_iff hdescribe hdata).2 hn
    obtain ⟨p', hp', hparts'⟩ := (stateDir_isEntry_iff hdescribe' hdata).2 hn'
    rw [← describe_name hdescribe, ← describe_name hdescribe']
    exact hd.distinct desc hdesc desc' hdesc' p p' hp hp' (hparts.trans hparts'.symm)
  · intro name s hs
    obtain ⟨desc, hdesc, hdescribe⟩ := exists_mem_services h hs
    have hfiles := hd.credential desc hdesc
    rw [describe_name hdescribe] at hfiles
    exact (credentials_areEntries_iff hdescribe).1 hfiles

theorem LeadsInside.isConfined (hc : c.LeadsInside) : c.IsConfined d := by
  have habsolute : ∀ desc ∈ d.services, ∀ a ∈ desc.paths, a.path.isAbsolute := by
    intro desc hdesc a ha
    obtain ⟨name, s, -, hdescribe⟩ := (mem_services_iff h).1 hdesc
    exact isAbsolute_of_mem_paths hdescribe (Path.isAbsolute_join hc.dataDir) ha
  refine ⟨habsolute, ?_, ?_, ?_, ?_⟩
  · intro p hp
    rw [paths_of_compile h] at hp
    rcases path_of_mem_pathDirectives hp with hpath | ⟨desc, hdesc, a, ha, hpath⟩
    · rw [hpath]
      exact hc.dataDir
    · rw [hpath]
      exact habsolute desc hdesc a ha
  · intro desc hdesc
    obtain ⟨name, s, hs, hdescribe⟩ := (mem_services_iff h).1 hdesc
    obtain ⟨n, hn⟩ := hc.service name s hs
    obtain ⟨p, hentry⟩ := (stateDir_isEntry_iff hdescribe hc.dataDir).2 hn
    exact ⟨p, n, hentry⟩
  · intro desc hdesc desc' hdesc' p p' hp hp' hparts
    obtain ⟨name, s, hs, hdescribe⟩ := (mem_services_iff h).1 hdesc
    obtain ⟨name', s', hs', hdescribe'⟩ := (mem_services_iff h).1 hdesc'
    obtain ⟨n, hn⟩ := hc.service name s hs
    obtain ⟨q, hq, hentry⟩ := (stateDir_isEntry_iff hdescribe hc.dataDir).2 hn
    obtain rfl := Option.some.inj (hp.symm.trans hq)
    -- The other directory has the same parts, so the other name leads there as well.
    have hn' : c.dataDir.Leads name' n :=
      (stateDir_isEntry_iff hdescribe' hc.dataDir).1 ⟨p', hp', hparts.symm.trans hentry⟩
    rw [describe_name hdescribe, describe_name hdescribe']
    exact hc.distinct name name' s s' n hs hs' hn hn'
  · intro desc hdesc
    obtain ⟨name, s, hs, hdescribe⟩ := (mem_services_iff h).1 hdesc
    rw [describe_name hdescribe]
    exact (credentials_areEntries_iff hdescribe).2 (hc.credential name s hs)

end Compiled

/-- Directories that begin at the root are led into by plain names. -/
theorem leadsInside_of_isPlain (hdata : c.dataDir.isAbsolute)
    (hcredentials : c.credentialsDir.isAbsolute)
    (hplain : ∀ name s, c.Runs name s → Path.IsPlain name ∧ ∀ role ∈ s.providers, ∀ needed,
      c.credential? role = some needed → Path.IsPlain needed.secret) : c.LeadsInside := by
  refine ⟨hdata, ?_, ?_, ?_⟩
  · intro name s hs
    exact ⟨name, (Path.leads_iff_of_isPlain (hplain name s hs).1).2 rfl⟩
  · intro name name' s s' n hs hs' hn hn'
    rw [← (Path.leads_iff_of_isPlain (hplain name s hs).1).1 hn,
      (Path.leads_iff_of_isPlain (hplain name' s' hs').1).1 hn']
  · intro name s hs role hrole needed hneeded
    have hsecret := (hplain name s hs).2 role hrole needed hneeded
    exact ⟨Path.isAbsolute_join hcredentials, _, (Path.leads_iff_of_isPlain hsecret).2 rfl⟩

/-- A compiled deployment is confined exactly if the directories of the configuration begin
at the root and its names lead inside them. -/
theorem compile_isConfined_iff (h : c.compile catalog secrets = .ok d) :
    c.IsConfined d ↔ c.LeadsInside :=
  ⟨IsConfined.leadsInside h, LeadsInside.isConfined h⟩

theorem leadsInside_assistant : assistant.LeadsInside := by
  have hkeys : ∀ name ∈ assistant.services.keys, Path.IsPlain name := by decide +kernel
  have hsecret : ∀ role, ∀ needed ∈ assistant.credential? role, Path.IsPlain needed.secret := by
    intro role
    cases role with
    | llm => decide +kernel
    | embedding => decide +kernel
    | search => decide +kernel
  refine leadsInside_of_isPlain (by decide) (by decide) fun name s hs => ?_
  have hname : name ∈ assistant.services.keys :=
    Table.contains_iff_mem_keys.1 (Option.isSome_iff_exists.2 ⟨s, hs.1⟩)
  exact ⟨hkeys name hname, fun role _ needed hneeded => hsecret role needed hneeded⟩

theorem compile_isConfined_assistant :
    ∃ d, assistant.compile assistantCatalog assistantSecrets = .ok d ∧
      assistant.LeadsInside ∧ assistant.IsConfined d := by
  obtain ⟨d, hd⟩ := exists_compile_assistant
  have hleads := leadsInside_assistant
  exact ⟨d, hd, hleads, (compile_isConfined_iff hd).2 hleads⟩

def strayingDocument : String :=
  "data_dir: state\n" ++
  "services:\n" ++
  "  cache:\n" ++
  "  cache/:\n" ++
  "    package: cache\n" ++
  "  ..:\n" ++
  "    package: cache\n"

/-- A data directory that does not begin at the root, and services whose names lead to one
entry of it, or out of it. -/
def straying : DeploymentConfig where
  dataDir := ⟨"state"⟩
  services := .ofList [("cache", {}), ("cache/", { package := some "cache" }),
    ("..", { package := some "cache" })]

def strayingCatalog : ResolvedCatalog := .ofList [("cache", .build { name := "cache" } [])]

theorem startupOrder_straying : straying.startupOrder = .ok ["cache/", "cache", ".."] := by
  have hgraph : straying.startupGraph = ⟨["..", "cache", "cache/"], []⟩ := by decide +kernel
  rw [startupOrder, hgraph]
  simp [Dependencies.order, Dependencies.walk, Dependencies.dependents, Dependencies.misplaced?,
    Dependencies.dependencies, Except.mapError]

/-- The configuration is read and compiled all the same. The services of `cache` and `cache/`
share a directory, and that of `..` is no entry of the data directory. -/
theorem compile_straying :
    DeploymentConfig.parse strayingDocument = .ok straying ∧
      ∃ d, straying.compile strayingCatalog .empty = .ok d ∧
        d.services.map (fun desc => (desc.name, desc.stateDir?)) =
          [("cache/", some ⟨"state/cache/"⟩), ("cache", some ⟨"state/cache"⟩),
            ("..", some ⟨"state/.."⟩)] ∧
        (⟨"state/cache/"⟩ : Path).parts = (⟨"state/cache"⟩ : Path).parts ∧
        (⟨"state/.."⟩ : Path).parts = straying.dataDir.parts ++ [.parent] ∧
        ¬ straying.IsConfined d := by
  have hparse : (DeploymentConfig.parse strayingDocument).toOption = some straying := by
    decide +kernel
  have hdirs : ((straying.describeAll strayingCatalog .empty ["cache/", "cache", ".."]).toOption.map
      fun services => services.map fun desc => (desc.name, desc.stateDir?)) =
        some [("cache/", some ⟨"state/cache/"⟩), ("cache", some ⟨"state/cache"⟩),
          ("..", some ⟨"state/.."⟩)] := by
    decide +kernel
  obtain ⟨services, hservices, hdirs⟩ := Option.map_eq_some_iff.1 hdirs
  have hd : straying.compile strayingCatalog .empty =
      .ok ⟨services, straying.pathDirectives services, none⟩ :=
    compile_eq_ok_iff.2 ⟨by decide +kernel, none, _, services, by decide +kernel,
      startupOrder_straying, toOption_eq_some_iff.1 hservices, rfl⟩
  refine ⟨toOption_eq_some_iff.1 hparse, _, hd, hdirs, by decide +kernel, by decide +kernel, ?_⟩
  intro hconfined
  obtain ⟨p, hp, hpath⟩ := exists_mem_pathDirectives straying services
  exact absurd (hpath ▸ hconfined.directive p hp) (by decide)

end DeploymentConfig

end LayeredCatalog
