import LayeredCatalog.Proofs.Deployment.Faults

/-!
# Variables that collide

The variables that tell a service where another one listens are named after that other
one. The name is made of its letters and digits, without regard to case, so two services
can get the same variables, and one can get those of a model. There is no other way for
two sources to give one variable (`Source.shadows_or_shadows`): no name collides with a
service's own variables or with those of a web search. So the description of a service
fails for a variable with two sources exactly if its record connects to names like these
(`derivesTwice_iff`).
-/

namespace LayeredCatalog

namespace Environment

/-- What the variables that tell where a service listens end in. -/
def endings : List String := ["_HOST", "_PORT", "_URL"]

theorem map_fst_connection (target : String) (e : Endpoint) :
    (connection target e).map Prod.fst = endings.map (key target ++ ·) := rfl

theorem ending_eq_of_suffix :
    ∀ x ∈ endings, ∀ y ∈ endings, x.toList <:+ y.toList → x = y := by
  decide +kernel

theorem suffix_append_toList (a x : String) : x.toList <:+ (a ++ x).toList := by
  rw [String.toList_append]
  exact List.suffix_append a.toList x.toList

theorem append_ending_inj {a b x y : String} (hx : x ∈ endings) (hy : y ∈ endings)
    (h : a ++ x = b ++ y) : a = b := by
  -- Both endings end the same text, so one of them ends the other.
  have hxy : x = y := by
    rcases List.suffix_or_suffix_of_suffix (suffix_append_toList a x)
      (h ▸ suffix_append_toList b y) with hsuffix | hsuffix
    · exact ending_eq_of_suffix x hx y hy hsuffix
    · exact (ending_eq_of_suffix y hy x hx hsuffix).symm
  rw [hxy] at h
  exact (String.append_left_inj y).1 h

/-- A service with such a name cannot be taken for a model: the name is empty, it is not
ASCII, or its variables begin like some that a service has anyway. -/
def IsNeutral (target : String) : Prop :=
  target = "" ∨ (∃ ch ∈ target.toList, 128 ≤ ch.toNat) ∨
    key target ∈ ["HOST", "PORT", "DATA", "SEARCH"]

theorem not_isAlphanum {ch : Char} (h : 128 ≤ ch.toNat) : ¬ ch.isAlphanum := by
  have hval : 128 ≤ ch.val.toNat := h
  have hranges : ch.isAlphanum = (((ch.val ≥ 'A'.val ∧ ch.val ≤ 'Z'.val) ||
      ch.val ≥ 'a'.val && ch.val ≤ 'z'.val) || ch.val ≥ '0'.val && ch.val ≤ '9'.val) := rfl
  rw [hranges]
  simp only [Bool.or_eq_true, Bool.and_eq_true, decide_eq_true_eq, ge_iff_le,
    UInt32.le_iff_toNat_le, Char.reduceVal, UInt32.reduceToNat]
  omega

/-- What is not ASCII shows as an underscore. -/
theorem underscore_mem_key {target : String} {ch : Char} (hch : ch ∈ target.toList)
    (h : 128 ≤ ch.toNat) : '_' ∈ (key target).toList := by
  rw [key, String.toList_ofList]
  exact List.mem_map.2 ⟨ch, hch, if_neg (not_isAlphanum h)⟩

theorem IsNeutral.key_ne {target : String} (h : IsNeutral target) :
    key target ≠ "LLM" ∧ key target ≠ "EMBEDDING" := by
  rcases h with rfl | ⟨ch, hch, h⟩ | h
  · decide +kernel
  · have hunderscore := underscore_mem_key hch h
    constructor
    · intro heq
      rw [heq] at hunderscore
      exact absurd hunderscore (by decide +kernel)
    · intro heq
      rw [heq] at hunderscore
      exact absurd hunderscore (by decide +kernel)
  · have hne : ∀ k ∈ ["HOST", "PORT", "DATA", "SEARCH"], k ≠ "LLM" ∧ k ≠ "EMBEDDING" := by
      decide +kernel
    exact hne _ h

end Environment

/-- The variables of a service that say where and how it runs itself. -/
def serviceVars : List String := ["STRATA_SERVICE", "LOG_LEVEL", "DATA_DIR", "HOST", "PORT"]

/-- The variables of a model, under names that begin with `about`. -/
def modelVars (about : String) : List String :=
  ["_BINDING", "_MODEL", "_HOST", "_API_KEY_FILE"].map (about ++ ·)

namespace Role

/-- The variables that a role can give. -/
def vars : Role → List String
  | .llm => modelVars "LLM"
  | .embedding => "EMBEDDING_DIMENSION" :: modelVars "EMBEDDING"
  | .search => "SEARCH_PROVIDER" ::
      [SearchProvider.perplexity, .kagi, .baidu].map (·.keyVariable ++ "_FILE")

theorem not_mem_vars_of_ne {role role' : Role} :
    role ≠ role' → ∀ v ∈ role.vars, v ∉ role'.vars := by
  cases role <;> cases role' <;> decide +kernel

theorem not_mem_serviceVars (role : Role) : ∀ v ∈ role.vars, v ∉ serviceVars := by
  cases role <;> decide +kernel

/-- Of all that a role gives, only the address of a model ends like the address of a service. -/
theorem eq_about_append_of_suffix (role : Role) : ∀ v ∈ role.vars,
    ∀ x ∈ Environment.endings, x.toList <:+ v.toList → role ≠ .search ∧ v = role.about ++ x := by
  cases role <;> decide +kernel

end Role

theorem not_suffix_serviceVars :
    ∀ v ∈ serviceVars, ∀ x ∈ Environment.endings, ¬ x.toList <:+ v.toList := by
  decide +kernel

namespace Source

open Environment

/-- The variables that a source can give. -/
def CanGive : Source → String → Prop
  | .service, v => v ∈ serviceVars
  | .provider role, v => v ∈ role.vars
  | .connection target, v => ∃ x ∈ endings, v = key target ++ x

/-- The variables of a service hide those of another source. -/
inductive Shadows : Source → Source → Prop
  | target {t u : String} (h : key t = key u) : Shadows (.connection t) (.connection u)
  | model {role : Role} {t : String} (hrole : role ≠ .search) (h : key t = role.about) :
      Shadows (.connection t) (.provider role)

theorem CanGive.shadows_provider {t v : String} {role : Role} (ht : (connection t).CanGive v)
    (hrole : (provider role).CanGive v) : (connection t).Shadows (provider role) := by
  obtain ⟨x, hx, rfl⟩ := ht
  obtain ⟨hmodel, heq⟩ :=
    role.eq_about_append_of_suffix _ hrole x hx (suffix_append_toList (key t) x)
  exact .model hmodel ((String.append_left_inj x).1 heq)

theorem CanGive.shadows_connection {t u v : String} (ht : (connection t).CanGive v)
    (hu : (connection u).CanGive v) : (connection t).Shadows (connection u) := by
  obtain ⟨x, hx, rfl⟩ := ht
  obtain ⟨y, hy, heq⟩ := hu
  exact .target (append_ending_inj hx hy heq)

theorem CanGive.not_service {t v : String} (ht : (connection t).CanGive v) :
    ¬ service.CanGive v := by
  obtain ⟨x, hx, rfl⟩ := ht
  intro hv
  exact not_suffix_serviceVars _ hv x hx (suffix_append_toList (key t) x)

/-- Where two sources can give one variable, one of them is a service that hides the
other. -/
theorem shadows_or_shadows {a b : Source} {v : String} (hne : a ≠ b) (ha : a.CanGive v)
    (hb : b.CanGive v) : a.Shadows b ∨ b.Shadows a := by
  cases a with
  | service =>
      cases b with
      | service => exact absurd rfl hne
      | provider role => exact absurd ha (role.not_mem_serviceVars v hb)
      | connection t => exact absurd ha hb.not_service
  | provider role =>
      cases b with
      | service => exact absurd hb (role.not_mem_serviceVars v ha)
      | provider role' =>
          have hrole : role ≠ role' := fun h => hne (congrArg provider h)
          exact absurd hb (Role.not_mem_vars_of_ne hrole v ha)
      | connection t => exact .inr (hb.shadows_provider ha)
  | connection t =>
      cases b with
      | service => exact absurd hb ha.not_service
      | provider role => exact .inl (ha.shadows_provider hb)
      | connection u => exact .inl (ha.shadows_connection hb)

end Source

namespace DeploymentConfig

open DerivedEnv Environment

variable {c : DeploymentConfig} {catalog : ResolvedCatalog} {secrets : SecretSet} {name : String}
  {s : ServiceConfig} {plan : Plan}

theorem Tells.mem_vars {role : Role} {v value : String} (h : c.Tells role v value) :
    v ∈ role.vars := by
  have hbinding : ∀ {role b}, c.binding? role = some b → ∀ x ∈ modelVars role.about,
      x ∈ role.vars := by
    intro role b hb x hx
    cases role with
    | llm => exact hx
    | embedding => exact List.mem_cons_of_mem _ hx
    | search => cases hb
  cases h with
  | label hb => exact hbinding hb _ (by simp [modelVars])
  | model hb => exact hbinding hb _ (by simp [modelVars])
  | endpoint hb _ => exact hbinding hb _ (by simp [modelVars])
  | dimension => exact List.mem_cons_self
  | search => exact List.mem_cons_self

theorem fileVariable_mem_vars {role : Role} {needed : CredentialVar}
    (h : c.credential? role = some needed) : needed.fileVariable ∈ role.vars := by
  have hbinding : ∀ {about : String} {b : Binding}, b.credential? about = some needed →
      needed.fileVariable ∈ modelVars about := by
    intro about b hb
    cases b with
    | onPremises model baseUrl => cases hb
    | vendor company model apiKey baseUrl =>
        cases hb
        simp [modelVars]
  cases role with
  | llm => exact hbinding h
  | embedding => exact List.mem_cons_of_mem _ (hbinding h)
  | search =>
      cases h
      cases hp : c.search.provider <;> simp [Role.vars]

theorem Derives.canGive {a : Source} {v value : String} (h : c.Derives name s a v value) :
    a.CanGive v := by
  cases h with
  | name => simp [Source.CanGive, serviceVars]
  | logLevel => simp [Source.CanGive, serviceVars]
  | dataDir => simp [Source.CanGive, serviceVars]
  | host => simp [Source.CanGive, serviceVars]
  | portNumber => simp [Source.CanGive, serviceVars]
  | provider _ htells => exact htells.mem_vars
  | keyFile _ hneeded => exact fileVariable_mem_vars hneeded
  | connection _ _ he =>
      have hmem := List.mem_map_of_mem (f := Prod.fst) he
      rw [map_fst_connection, List.mem_map] at hmem
      obtain ⟨x, hx, heq⟩ := hmem
      exact ⟨x, hx, heq.symm⟩

/-- What is derived for a service before its connections are looked at. -/
def pairsAlone (c : DeploymentConfig) (name : String) (s : ServiceConfig) :
    List (String × DerivedValue) :=
  derivedFrom Source.service.label (c.ownVars name s) ++ (rolesOf s).flatMap (c.providerPairs name)

/-- A record connects to names that make two sources give one variable. -/
def Collides (s : ServiceConfig) : Prop :=
  (∃ t ∈ s.connect, ∃ u ∈ s.connect, t ≠ u ∧ key t = key u) ∨
    (.llm ∈ s.providers ∧ ∃ t ∈ s.connect, key t = "LLM") ∨
    .embedding ∈ s.providers ∧ ∃ t ∈ s.connect, key t = "EMBEDDING"

/-- A service is not described since two sources give one of its variables. -/
def DerivesTwice (c : DeploymentConfig) (catalog : ResolvedCatalog) (secrets : SecretSet)
    (name : String) (s : ServiceConfig) : Prop :=
  ∃ key a b, c.describe catalog secrets name s =
    .error (.invalidOption ("services." ++ name) (.derivedTwice key a b))

theorem Derives.mem_connect {t v value : String} (h : c.Derives name s (.connection t) v value) :
    t ∈ s.connect := (derives_connection_iff.1 h).1

theorem Derives.mem_providers {role : Role} {v value : String}
    (h : c.Derives name s (.provider role) v value) : role ∈ s.providers :=
  (derives_provider_iff.1 h).1

/-- A source of a service that hides another one makes its record collide. -/
theorem collides_of_shadows {a b : Source} {v w value value' : String} (h : a.Shadows b)
    (hne : a ≠ b) (ha : c.Derives name s a v value) (hb : c.Derives name s b w value') :
    Collides s := by
  cases h with
  | @target t u h =>
      have htu : t ≠ u := fun heq => hne (congrArg Source.connection heq)
      exact .inl ⟨t, ha.mem_connect, u, hb.mem_connect, htu, h⟩
  | @model role t hrole h =>
      have ht := ha.mem_connect
      have hmem := hb.mem_providers
      cases role with
      | llm => exact .inr (.inl ⟨hmem, t, ht, h⟩)
      | embedding => exact .inr (.inr ⟨hmem, t, ht, h⟩)
      | search => exact absurd rfl hrole

theorem collides_of_derives {a b : Source} {v value value' : String} (hne : a ≠ b)
    (ha : c.Derives name s a v value) (hb : c.Derives name s b v value') : Collides s := by
  rcases Source.shadows_or_shadows hne ha.canGive hb.canGive with h | h
  · exact collides_of_shadows h hne ha hb
  · exact collides_of_shadows h hne.symm hb ha

/-- A service is told the host of each one that it connects to. -/
theorem exists_derives_host (hconnect : ∀ target ∈ s.connect, ∃ t, c.Listens target t)
    (name : String) {t : String} (ht : t ∈ s.connect) :
    ∃ value, c.Derives name s (.connection t) (key t ++ "_HOST") value := by
  obtain ⟨target, htarget, -⟩ := hconnect t ht
  exact ⟨target.host, derives_connection_iff.2 ⟨ht, target, htarget.1, List.mem_cons_self⟩⟩

/-- Connections fail to be added only for a variable that has another source. -/
theorem addConnections_eq_error (hconnect : ∀ target ∈ s.connect, ∃ t, c.Listens target t)
    {pairs : List (String × DerivedValue)} (h : Agree pairs) {e : DeploymentError}
    (hadd : s.connect.foldlM (c.addConnection name) (ofPairs name pairs) = .error e) :
    ∃ v a b, e = .invalidOption ("services." ++ name) (.derivedTwice v a b) := by
  obtain ⟨before, target, rest, env, htargets, hbefore, hadd⟩ := foldlM_eq_error hadd
  obtain ⟨-, hagree, rfl⟩ := (addConnections_eq_ok_iff h).1 hbefore
  obtain ⟨t, ht⟩ := hconnect target (by simp [htargets])
  rw [addConnection, listenerOf_eq_ok_iff.2 ⟨t, ht, rfl⟩] at hadd
  obtain ⟨v, -, old, -, -, -, rfl⟩ := extend_eq_error hagree hadd
  exact ⟨v, old.source, _, rfl⟩

/-- A fault of two sources tells of two sources. -/
theorem ServiceFault.exists_derives {option v a b : String}
    (h : c.ServiceFault catalog secrets name s (.invalidOption option (.derivedTwice v a b))) :
    ∃ a b value value', a ≠ b ∧ c.Derives name s a v value ∧ c.Derives name s b v value' := by
  cases h with
  | derivedTwice ha hb hne => exact ⟨_, _, _, _, hne, ha, hb⟩

section Described

variable (havailable : ∀ role ∈ s.providers, c.Available secrets role)

include havailable

theorem agree_of_not_collides (h : ¬ Collides s) : Agree (c.derivedPairs name s) := by
  rw [agree_derivedPairs_iff havailable]
  intro a b v value value' ha hb
  by_contra hne
  exact h (collides_of_derives hne ha hb)

/-- What a service and its providers give always agrees. -/
theorem agree_pairsAlone : Agree (c.pairsAlone name s) := by
  have hagree : Agree (c.derivedPairs name { s with connect := [] }) := by
    refine agree_of_not_collides (s := { s with connect := [] }) havailable ?_
    simp [Collides]
  exact hagree.of_append

/-- Before the connections are added, nothing has failed. -/
theorem describe_eq_error_of_connections (hpackage : catalog.contains (s.package.getD name))
    {e : DeploymentError} (h : s.connect.foldlM (c.addConnection name)
      (ofPairs name (c.pairsAlone name s)) = .error e) :
    c.describe catalog secrets name s = .error e := by
  have hagree : Agree (c.pairsAlone name s) := agree_pairsAlone havailable
  have hnil : ({ service := name } : DerivedEnv) = ofPairs name [] := rfl
  have hown : (ofPairs name []).extend "service" (c.ownVars name s) =
      .ok (ofPairs name (derivedFrom Source.service.label (c.ownVars name s))) :=
    (extend_eq_ok_iff fun e he => by cases he).2 ⟨hagree.of_append, rfl⟩
  have hmade := (addProviders_eq_ok_iff hagree.of_append).2
    ⟨fun role hrole => havailable role (mem_rolesOf.1 hrole), hagree, rfl⟩
  obtain ⟨plan, hplan⟩ := Option.isSome_iff_exists.1 hpackage
  rw [describe, hnil, ServiceConfig.packageFor]
  simp only [hplan]
  exact bind_eq_error_iff.2 (.inr ⟨_, hown, bind_eq_error_iff.2 (.inr ⟨_, hmade,
    bind_eq_error_iff.2 (.inl h)⟩)⟩)

variable (hconnect : ∀ target ∈ s.connect, ∃ t, c.Listens target t)

include hconnect

/-- A model and a service that takes its name both give the host. -/
theorem not_agree_of_model {role : Role} {b : Binding} (hb : c.binding? role = some b)
    (hrole : role ∈ s.providers) {t : String} (ht : t ∈ s.connect) (hkey : key t = role.about) :
    ¬ Agree (c.derivedPairs name s) := by
  rw [agree_derivedPairs_iff havailable]
  intro h
  obtain ⟨url, hurl⟩ : ∃ url, b.endpoint? = some url :=
    Binding.exists_endpoint?_iff.2 fun company model apiKey baseUrl heq =>
      (havailable role hrole).endpoint company model apiKey baseUrl (heq ▸ hb)
  obtain ⟨value, hvalue⟩ := exists_derives_host hconnect name ht
  rw [hkey] at hvalue
  cases h _ _ _ _ _ (.provider hrole (.endpoint hb hurl)) hvalue

theorem agree_derivedPairs_iff_not_collides :
    Agree (c.derivedPairs name s) ↔ ¬ Collides s := by
  refine ⟨fun hagree hcollides => ?_, agree_of_not_collides havailable⟩
  rcases hcollides with ⟨t, ht, u, hu, hne, hkey⟩ | ⟨hrole, t, ht, hkey⟩ | ⟨hrole, t, ht, hkey⟩
  · obtain ⟨value, hvalue⟩ := exists_derives_host hconnect name ht
    obtain ⟨value', hvalue'⟩ := exists_derives_host hconnect name hu
    rw [← hkey] at hvalue'
    have hsame := (agree_derivedPairs_iff havailable).1 hagree _ _ _ _ _ hvalue hvalue'
    exact hne (Source.connection.inj hsame)
  · exact not_agree_of_model havailable hconnect rfl hrole ht hkey hagree
  · exact not_agree_of_model havailable hconnect rfl hrole ht hkey hagree

theorem derivesTwice_iff_not_agree (hpackage : catalog.contains (s.package.getD name)) :
    c.DerivesTwice catalog secrets name s ↔ ¬ Agree (c.derivedPairs name s) := by
  constructor
  · rintro ⟨v, a, b, h⟩ hagree
    obtain ⟨a, b, value, value', hne, ha, hb⟩ := (describe_fault hconnect h).exists_derives
    exact hne ((agree_derivedPairs_iff havailable).1 hagree a b v value value' ha hb)
  · intro hagree
    cases h : s.connect.foldlM (c.addConnection name) (ofPairs name (c.pairsAlone name s)) with
    | ok env =>
      exact absurd ((addConnections_eq_ok_iff (agree_pairsAlone havailable)).1 h).2.1 hagree
    | error e =>
      obtain ⟨v, a, b, rfl⟩ := addConnections_eq_error hconnect (agree_pairsAlone havailable) h
      exact ⟨v, a, b, describe_eq_error_of_connections havailable hpackage h⟩

theorem derivesTwice_iff_collides (hpackage : catalog.contains (s.package.getD name)) :
    c.DerivesTwice catalog secrets name s ↔ Collides s := by
  rw [derivesTwice_iff_not_agree havailable hconnect hpackage,
    agree_derivedPairs_iff_not_collides havailable hconnect, not_not]

end Described

/-- Whether a record collides is a matter of which names and roles it lists. -/
theorem collides_congr {s' : ServiceConfig} (hconnect : ∀ t, t ∈ s'.connect ↔ t ∈ s.connect)
    (hproviders : ∀ role, role ∈ s'.providers ↔ role ∈ s.providers) :
    Collides s' ↔ Collides s := by
  simp only [Collides, hconnect, hproviders]

/-- A neutral name collides only with another name for the same variables. -/
theorem collides_filter_iff {target : String} (htarget : IsNeutral target)
    (hkey : ∀ u ∈ s.connect, key u = key target → u = target) :
    Collides { s with connect := s.connect.filter (· ≠ target) } ↔ Collides s := by
  have hmem : ∀ u, u ∈ s.connect.filter (· ≠ target) ↔ u ∈ s.connect ∧ u ≠ target := by
    intro u
    simp
  have hmodel : ∀ about, key target ≠ about → ((∃ t ∈ s.connect.filter (· ≠ target),
      key t = about) ↔ ∃ t ∈ s.connect, key t = about) := by
    intro about hne
    constructor
    · rintro ⟨t, ht, h⟩
      exact ⟨t, ((hmem t).1 ht).1, h⟩
    · rintro ⟨t, ht, h⟩
      refine ⟨t, (hmem t).2 ⟨ht, ?_⟩, h⟩
      rintro rfl
      exact hne h
  obtain ⟨hllm, hembedding⟩ := htarget.key_ne
  simp only [Collides, hmodel "LLM" hllm, hmodel "EMBEDDING" hembedding]
  refine or_congr_left ?_
  constructor
  · rintro ⟨t, ht, u, hu, hne, h⟩
    exact ⟨t, ((hmem t).1 ht).1, u, ((hmem u).1 hu).1, hne, h⟩
  · rintro ⟨t, ht, u, hu, hne, h⟩
    -- If one of the two were the neutral name, the other would be too.
    refine ⟨t, (hmem t).2 ⟨ht, ?_⟩, u, (hmem u).2 ⟨hu, ?_⟩, hne, h⟩
    · rintro rfl
      exact hne (hkey u hu h.symm).symm
    · rintro rfl
      exact hne (hkey t ht h)

/-- A service whose program, providers and connections are there is refused for a variable
with two sources exactly if its record collides. Names and roles that it lists again make
no difference, and neither does a neutral name that is alone with its variables. -/
theorem derivesTwice_iff (hpackage : catalog.contains (s.package.getD name))
    (havailable : ∀ role ∈ s.providers, c.Available secrets role)
    (hconnect : ∀ target ∈ s.connect, ∃ t, c.Listens target t) :
    (c.DerivesTwice catalog secrets name s ↔ Collides s) ∧
      (∀ connect providers, (∀ t, t ∈ connect ↔ t ∈ s.connect) →
        (∀ role, role ∈ providers ↔ role ∈ s.providers) →
        (c.DerivesTwice catalog secrets name { s with connect, providers } ↔
          c.DerivesTwice catalog secrets name s)) ∧
      ∀ target, IsNeutral target → (∀ u ∈ s.connect, key u = key target → u = target) →
        (c.DerivesTwice catalog secrets name { s with connect := s.connect.filter (· ≠ target) } ↔
          c.DerivesTwice catalog secrets name s) := by
  have hiff := derivesTwice_iff_collides havailable hconnect hpackage
  refine ⟨hiff, ?_, ?_⟩
  · intro connect providers hnames hroles
    have havailable' : ∀ role ∈ providers, c.Available secrets role :=
      fun role hrole => havailable role ((hroles role).1 hrole)
    have hconnect' : ∀ target ∈ connect, ∃ t, c.Listens target t :=
      fun target htarget => hconnect target ((hnames target).1 htarget)
    rw [hiff, derivesTwice_iff_collides (s := { s with connect, providers }) havailable' hconnect'
      hpackage, collides_congr hnames hroles]
  · intro target hneutral hkey
    have hconnect' : ∀ u ∈ s.connect.filter (· ≠ target), ∃ t, c.Listens u t :=
      fun u hu => hconnect u (List.mem_of_mem_filter hu)
    rw [hiff, derivesTwice_iff_collides (s := { s with connect := s.connect.filter (· ≠ target) })
      havailable hconnect' hpackage, collides_filter_iff hneutral hkey]

/-- A site that connects to a service without a name and to two whose names differ by a
mark only. -/
def site : ServiceConfig where
  connect := ["rag-api", "", "rag.api", "rag-api"]
  providers := [.llm, .llm]

def marked : DeploymentConfig where
  services := .ofList [("", { package := some "site", portNumber := 1 }),
    ("rag-api", { package := some "site", portNumber := 8002 }),
    ("rag.api", { package := some "site", portNumber := 8003 }), ("site", site)]

theorem derivesTwice_marked :
    let catalog : ResolvedCatalog := .ofList [("site", .build { name := "site" } [])]
    catalog.contains (site.package.getD "site") ∧
      (∀ role ∈ site.providers, marked.Available .empty role) ∧
      (∀ target ∈ site.connect, ∃ t, marked.Listens target t) ∧
      marked.DerivesTwice catalog .empty "site" site ∧
      marked.DerivesTwice catalog .empty "site"
        { site with connect := ["rag-api", "rag.api", "rag-api"] } := by
  intro catalog
  have hpackage : catalog.contains (site.package.getD "site") := by decide +kernel
  have havailable : ∀ role ∈ site.providers, marked.Available .empty role := by
    intro role hrole
    obtain rfl : role = .llm := by simpa [site] using hrole
    refine (available_iff "site").2 ⟨⟨_, rfl⟩, ?_⟩
    rintro needed ⟨⟩
  have hconnect : ∀ target ∈ site.connect, ∃ t, marked.Listens target t := by
    have hlisten : ∀ target ∈ site.connect, (marked.listenerOf "site" target).isOk := by
      decide +kernel
    intro target htarget
    obtain ⟨e, he⟩ := exists_eq_ok_of_isOk (hlisten target htarget)
    obtain ⟨t, ht, -⟩ := listenerOf_eq_ok_iff.1 he
    exact ⟨t, ht⟩
  obtain ⟨hiff, -, hneutral⟩ := derivesTwice_iff hpackage havailable hconnect
  have hcollides : Collides site :=
    .inl ⟨"rag-api", by decide, "rag.api", by decide, by decide, by decide +kernel⟩
  have htwice := hiff.2 hcollides
  exact ⟨hpackage, havailable, hconnect, htwice,
    (hneutral "" (.inl rfl) (by decide +kernel)).2 htwice⟩

end DeploymentConfig

end LayeredCatalog
