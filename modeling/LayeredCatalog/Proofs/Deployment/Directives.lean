import LayeredCatalog.Deployment.Compile
import LayeredCatalog.Proofs.PathOrder
import Mathlib.Data.List.Forall2
import Mathlib.Data.List.Induction

/-!
# The directories to prepare

Services ask for paths, and several may ask for one path, in different spellings and with
different modes. The directives are the merge of all requests: one for the data directory,
and one for each other path that is asked for, with the strongest mode that is asked for and
the permissions of this mode. Requests are taken up one after another. The first one for a path
makes the directive, so its spelling stays, and a later one can raise the mode. Hence the
directive of a path is known from the requests for this path alone (`get?_directiveTable`),
and their order shows in the spelling only (`pathDirectives_isMerge`).
-/

namespace LayeredCatalog

namespace AccessMode

/-- The strongest mode of a list of requests. -/
def strongest (requests : List PathAccess) : AccessMode :=
  if requests.any (·.mode = .readWrite) then .readWrite else .readOnly

theorem strongest_eq_readWrite_iff {requests : List PathAccess} :
    strongest requests = .readWrite ↔ ∃ a ∈ requests, a.mode = .readWrite := by
  simp [strongest]

theorem strongest_concat (requests : List PathAccess) (a : PathAccess) :
    strongest (requests ++ [a]) =
      if a.mode = .readWrite then .readWrite else strongest requests := by
  rw [strongest, List.any_append]
  by_cases h : a.mode = .readWrite
  · simp [h]
  · simp [h, strongest]

end AccessMode

/-- What a directive says besides how it spells the path. -/
def PathDirective.unspelled (p : PathDirective) :
    List Path.Part × AccessMode × String × Nat :=
  (p.path.parts, p.mode, p.owner, p.permissions)

namespace DeploymentConfig

variable {c : DeploymentConfig} {requests requests' : List PathAccess} {k : List Path.Part}
  {p : PathDirective}

/-- The directives are the merge of the requests for paths, in the order of paths. -/
structure IsMerge (c : DeploymentConfig) (requests : List PathAccess)
    (directives : List PathDirective) : Prop where
  ordered : directives.Pairwise fun p q => p.path.Before q.path
  nodup : (directives.map (·.path.parts)).Nodup
  mem_iff : ∀ k, k ∈ directives.map (·.path.parts) ↔
    k = c.dataDir.parts ∨ ∃ a ∈ requests, a.path.parts = k
  root : ∀ p ∈ directives, p.path.parts = c.dataDir.parts →
    p = ⟨c.dataDir, .readWrite, c.user, 0o755⟩
  mode : ∀ p ∈ directives, p.path.parts ≠ c.dataDir.parts →
    (p.mode = .readWrite ↔ ∃ a ∈ requests, a.path.parts = p.path.parts ∧ a.mode = .readWrite)
  permissions : ∀ p ∈ directives, p.path.parts ≠ c.dataDir.parts →
    p.permissions = p.mode.permissions
  owner : ∀ p ∈ directives, p.owner = c.user
  /-- The first request for a path gives its spelling. -/
  spelling : ∀ p ∈ directives, p.path.parts ≠ c.dataDir.parts →
    (requests.find? (·.path.parts = p.path.parts)).map (·.path) = some p.path

/-- The descriptions stand in another order, or the paths in some of them do. -/
def Reorders (services services' : List ServiceDescription) : Prop :=
  ∃ moved, services.Perm moved ∧
    List.Forall₂ (fun desc desc' => desc.paths.Perm desc'.paths) moved services'

/-- The directive that the requests for one path make. -/
def directive? (c : DeploymentConfig) (requests : List PathAccess) : Option PathDirective :=
  requests.head?.map fun a =>
    ⟨a.path, .strongest requests, c.user, (AccessMode.strongest requests).permissions⟩

theorem isSome_directive?_iff : (c.directive? requests).isSome ↔ ∃ a, a ∈ requests := by
  rw [directive?, Option.isSome_map, List.isSome_head?, Ne, List.eq_nil_iff_forall_not_mem,
    not_forall_not]

theorem directive?_eq_some (h : c.directive? requests = some p) :
    requests.head?.map (·.path) = some p.path ∧ p.mode = .strongest requests ∧
      p.owner = c.user ∧ p.permissions = p.mode.permissions := by
  obtain ⟨a, ha, rfl⟩ := Option.map_eq_some_iff.1 h
  exact ⟨by rw [ha]; rfl, rfl, rfl, rfl⟩

/-- The directive of a path after one more request for it. -/
def raised (c : DeploymentConfig) (a : PathAccess) : Option PathDirective → PathDirective
  | none => ⟨a.path, a.mode, c.user, a.mode.permissions⟩
  | some p =>
    if p.mode = .readOnly && a.mode = .readWrite then
      { p with mode := a.mode, permissions := a.mode.permissions }
    else p

theorem get?_addAccess (c : DeploymentConfig) (t : Table (List Path.Part) PathDirective)
    (a : PathAccess) (k : List Path.Part) :
    (c.addAccess t a).get? k =
      if k = a.path.parts then some (c.raised a (t.get? k)) else t.get? k := by
  rw [addAccess]
  split
  · next hnone =>
    rw [Table.get?_insert]
    split
    · next hk => rw [hk, hnone, raised]
    · rfl
  · next p hp =>
    split
    · next hweak =>
      rw [Table.get?_insert]
      split
      · next hk => rw [hk, hp, raised, if_pos hweak]
      · rfl
    · next hweak =>
      split
      · next hk => rw [hk, hp, raised, if_neg hweak]
      · rfl

/-- One more request for a path counts like the earlier ones. -/
theorem raised_directive? (c : DeploymentConfig) (requests : List PathAccess) (a : PathAccess) :
    some (c.raised a (c.directive? requests)) = c.directive? (requests ++ [a]) := by
  cases requests with
  | nil =>
      have hmode : AccessMode.strongest [a] = a.mode := by
        rw [← List.nil_append [a], AccessMode.strongest_concat]
        cases a.mode <;> rfl
      simp [directive?, raised, hmode]
  | cons b requests =>
      simp only [directive?, List.head?_cons, Option.map_some, List.cons_append, raised]
      rw [← List.cons_append, AccessMode.strongest_concat]
      cases hmode : a.mode with
      | readOnly => simp
      | readWrite => cases hstrongest : AccessMode.strongest (b :: requests) <;> simp

theorem raised_rootDirective (c : DeploymentConfig) (a : PathAccess) :
    c.raised a (some c.rootDirective) = c.rootDirective := rfl

/-- The directives by their paths. -/
def directiveTable (c : DeploymentConfig) (requests : List PathAccess) :
    Table (List Path.Part) PathDirective :=
  requests.foldl c.addAccess (.ofList [(c.dataDir.parts, c.rootDirective)])

/-- What is asked for the data directory makes no difference, and the directive of another
path is known from the requests for it. -/
theorem get?_directiveTable (c : DeploymentConfig) (requests : List PathAccess)
    (k : List Path.Part) :
    (c.directiveTable requests).get? k =
      if k = c.dataDir.parts then some c.rootDirective
      else c.directive? (requests.filter (·.path.parts = k)) := by
  induction requests using List.reverseRecOn with
  | nil => exact Table.get?_insert _ _ _ _
  | append_singleton requests a ih =>
      rw [directiveTable, List.foldl_concat, ← directiveTable, get?_addAccess, ih,
        List.filter_append]
      by_cases hk : k = a.path.parts
      · have hfilter : [a].filter (·.path.parts = k) = [a] := by simp [hk]
        rw [hfilter, ← raised_directive?, if_pos hk]
        split
        · rw [raised_rootDirective]
        · rfl
      · have hfilter : [a].filter (·.path.parts = k) = [] := by simpa using Ne.symm hk
        rw [hfilter, List.append_nil, if_neg hk]

/-- A directive is kept under the parts of its path. -/
theorem parts_of_get?_directiveTable (h : (c.directiveTable requests).get? k = some p) :
    p.path.parts = k := by
  -- A request that makes a directive has been found under these parts.
  rw [get?_directiveTable] at h
  split at h
  · next hk =>
    obtain rfl := Option.some.inj h
    exact hk.symm
  · obtain ⟨a, ha, rfl⟩ := Option.map_eq_some_iff.1 h
    exact of_decide_eq_true (List.mem_filter.1 (List.mem_of_mem_head? ha)).2

theorem mem_values_iff :
    p ∈ (c.directiveTable requests).values ↔
      (c.directiveTable requests).get? p.path.parts = some p := by
  rw [Table.values, List.mem_map]
  constructor
  · rintro ⟨⟨k, p⟩, hmem, rfl⟩
    have hk := Table.get?_eq_some_iff.2 hmem
    rwa [parts_of_get?_directiveTable hk]
  · intro h
    exact ⟨_, Table.get?_eq_some_iff.1 h, rfl⟩

theorem map_parts_values (c : DeploymentConfig) (requests : List PathAccess) :
    (c.directiveTable requests).values.map (·.path.parts) = (c.directiveTable requests).keys := by
  rw [Table.values, Table.keys, List.map_map]
  exact List.map_congr_left fun e he =>
    parts_of_get?_directiveTable (Table.get?_eq_some_iff.2 he)

section Listed

variable (h : p ∈ (c.directiveTable requests).values)

include h

theorem eq_rootDirective_of_mem (hroot : p.path.parts = c.dataDir.parts) :
    p = c.rootDirective := by
  rw [mem_values_iff, get?_directiveTable, if_pos hroot] at h
  exact (Option.some.inj h).symm

theorem directive?_eq_of_mem (hroot : p.path.parts ≠ c.dataDir.parts) :
    c.directive? (requests.filter (·.path.parts = p.path.parts)) = some p := by
  rwa [mem_values_iff, get?_directiveTable, if_neg hroot] at h

end Listed

/-- The values of the table are the merge of the requests. -/
theorem isMerge_values (c : DeploymentConfig) (requests : List PathAccess) :
    c.IsMerge requests (c.directiveTable requests).values where
  ordered := by
    rw [Table.values, List.pairwise_map]
    refine (c.directiveTable requests).sorted.imp_of_mem fun {e e'} he he' hlt => ?_
    rw [← Path.compare_parts_eq_lt_iff,
      parts_of_get?_directiveTable (Table.get?_eq_some_iff.2 he),
      parts_of_get?_directiveTable (Table.get?_eq_some_iff.2 he'), hlt]
  nodup := by
    rw [map_parts_values]
    exact Table.nodup_keys _
  mem_iff := by
    intro k
    rw [map_parts_values, ← Table.contains_iff_mem_keys, Table.contains, get?_directiveTable]
    split
    · next hk => simp [hk]
    · next hk => simp [hk, isSome_directive?_iff]
  root := fun p hp hroot => eq_rootDirective_of_mem hp hroot
  mode := by
    intro p hp hroot
    obtain ⟨-, hmode, -⟩ := directive?_eq_some (directive?_eq_of_mem hp hroot)
    rw [hmode, AccessMode.strongest_eq_readWrite_iff]
    simp only [List.mem_filter, decide_eq_true_eq, and_assoc]
  permissions := by
    intro p hp hroot
    obtain ⟨-, -, -, hpermissions⟩ := directive?_eq_some (directive?_eq_of_mem hp hroot)
    exact hpermissions
  owner := by
    intro p hp
    by_cases hroot : p.path.parts = c.dataDir.parts
    · rw [eq_rootDirective_of_mem hp hroot, rootDirective]
    · obtain ⟨-, -, howner, -⟩ := directive?_eq_some (directive?_eq_of_mem hp hroot)
      exact howner
  spelling := by
    intro p hp hroot
    obtain ⟨hspelling, -⟩ := directive?_eq_some (directive?_eq_of_mem hp hroot)
    rw [← List.head?_filter, hspelling]

/-- The order of the requests for one path shows in its spelling only. -/
theorem map_unspelled_directive? (h : requests.Perm requests')
    (hk : ∀ a ∈ requests, a.path.parts = k) :
    (c.directive? requests).map PathDirective.unspelled =
      (c.directive? requests').map PathDirective.unspelled := by
  have hmode : AccessMode.strongest requests = AccessMode.strongest requests' := by
    rw [AccessMode.strongest, AccessMode.strongest, h.any_eq]
  cases requests with
  | nil => rw [h.nil_eq]
  | cons a requests =>
      cases requests' with
      | nil => exact absurd h.eq_nil (List.cons_ne_nil a requests)
      | cons b requests' =>
          have hparts : a.path.parts = b.path.parts := by
            rw [hk a List.mem_cons_self, hk b (h.mem_iff.2 List.mem_cons_self)]
          simp only [directive?, List.head?_cons, Option.map_some, PathDirective.unspelled,
            hparts, hmode]

theorem map_unspelled_values (h : requests.Perm requests') :
    (c.directiveTable requests).values.map PathDirective.unspelled =
      (c.directiveTable requests').values.map PathDirective.unspelled := by
  have hvalues : ∀ t : Table (List Path.Part) PathDirective,
      t.values.map PathDirective.unspelled = (t.map fun _ p => p.unspelled).values := by
    intro t
    simp [Table.values, Table.map]
  rw [hvalues, hvalues]
  refine congrArg Table.values (Table.ext_get? fun k => ?_)
  rw [Table.get?_map, Table.get?_map, get?_directiveTable, get?_directiveTable]
  split
  · rfl
  · refine map_unspelled_directive? (k := k) (h.filter _) fun a ha => ?_
    exact of_decide_eq_true (List.mem_filter.1 ha).2

theorem Reorders.perm {services services' : List ServiceDescription}
    (h : Reorders services services') :
    (services.flatMap (·.paths)).Perm (services'.flatMap (·.paths)) := by
  obtain ⟨moved, hmoved, hpaths⟩ := h
  refine (hmoved.flatMap_right _).trans ?_
  clear hmoved
  induction hpaths with
  | nil => exact .refl _
  | cons hpath _ ih => exact hpath.append ih

/-- The directives for services are the merge of all that they ask for, and the order in
which they ask shows in the spelling of paths only. -/
theorem pathDirectives_isMerge (c : DeploymentConfig) (services : List ServiceDescription) :
    c.IsMerge (services.flatMap (·.paths)) (c.pathDirectives services) ∧
      ∀ services', Reorders services services' →
        (c.pathDirectives services').map PathDirective.unspelled =
          (c.pathDirectives services).map PathDirective.unspelled :=
  ⟨isMerge_values c _, fun _ h => (map_unspelled_values h.perm).symm⟩

/-- A service that does nothing but ask for paths. -/
def asking (paths : List PathAccess) : ServiceDescription where
  name := "indexer"
  entrypoint := ⟨"indexer", .ofText "indexer", "bin/indexer", []⟩
  user := "strata"
  listen := none
  environment := .empty
  credentials := .empty
  after := []
  paths

/-- One service reads what another one writes, and may look into the data directory. -/
def sharing : List ServiceDescription :=
  [asking [⟨⟨"/srv/shared/"⟩, .readOnly⟩, ⟨⟨"/var/lib/./strata"⟩, .readOnly⟩],
    asking [⟨⟨"/srv/./shared"⟩, .readWrite⟩]]

/-- The directory that both use can be written to, in either order of the services. -/
theorem pathDirectives_isMerge_sharing :
    Reorders sharing sharing.reverse ∧
      ({} : DeploymentConfig).pathDirectives sharing =
        [⟨⟨"/srv/shared/"⟩, .readWrite, "strata", 0o750⟩,
          ⟨⟨"/var/lib/strata"⟩, .readWrite, "strata", 0o755⟩] ∧
      (({} : DeploymentConfig).pathDirectives sharing.reverse).map PathDirective.unspelled =
        [([.root, .name "srv", .name "shared"], .readWrite, "strata", 0o750),
          ([.root, .name "var", .name "lib", .name "strata"], .readWrite, "strata", 0o755)] := by
  have hreorders : Reorders sharing sharing.reverse :=
    ⟨_, (List.reverse_perm _).symm, List.forall₂_same.2 fun desc _ => .refl desc.paths⟩
  have hpaths : ({} : DeploymentConfig).pathDirectives sharing =
      [⟨⟨"/srv/shared/"⟩, .readWrite, "strata", 0o750⟩,
        ⟨⟨"/var/lib/strata"⟩, .readWrite, "strata", 0o755⟩] := by decide +kernel
  refine ⟨hreorders, hpaths, ?_⟩
  rw [(pathDirectives_isMerge _ sharing).2 _ hreorders, hpaths]
  decide +kernel

end DeploymentConfig

end LayeredCatalog
