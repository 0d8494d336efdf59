import LayeredCatalog.Proofs.Deployment.Variables
import LayeredCatalog.Proofs.Repeats

/-!
# Repetitions in a configuration

A record can say one thing twice: it can list a name or a role again, or start a service
after one that it connects to anyway. A compilation goes through these lists several times,
and each time what is said again makes no difference for a reason of its own. A check that
has passed passes again, an edge that the startup graph has is not added, and a source that
gives its variables again gives them the values that they have. Providers are taken in
their own order and not in that of the list. So two configurations compile alike if one is
made from the other by such edits (`compile_eq_of_restates`).
-/

namespace LayeredCatalog

namespace DerivedEnv

variable {env env' : DerivedEnv} {source k key value : String} {vars : List (String × String)}
  {old : DerivedValue}

/-- A source has given these variables their values. -/
def Holds (env : DerivedEnv) (source : String) (vars : List (String × String)) : Prop :=
  ∀ e ∈ vars, env.vars.get? e.1 = some ⟨source, e.2⟩

theorem insert_eq_ok (h : env.insert source key value = .ok env') :
    env'.vars = env.vars.insert key ⟨source, value⟩ ∧
      ∀ old, env.vars.get? key = some old → old.source = source := by
  rw [insert] at h
  split at h
  · next old hold =>
    split at h
    · next hsource =>
      cases h
      refine ⟨rfl, fun old' hold' => ?_⟩
      rw [← Option.some.inj (hold.symm.trans hold')]
      exact hsource
    · cases h
  · next hnone =>
    cases h
    refine ⟨rfl, fun old hold => ?_⟩
    cases hnone.symm.trans hold

theorem insert_of_get? (h : env.vars.get? key = some ⟨source, value⟩) :
    env.insert source key value = .ok env := by
  simp only [insert, h, Table.insert_of_get? h, if_true]

/-- What a source gives again is taken up without a change. -/
theorem Holds.extend_eq (h : env.Holds source vars) : env.extend source vars = .ok env := by
  rw [extend_eq_foldlM]
  induction vars with
  | nil => rfl
  | cons e vars ih =>
      obtain ⟨he, hvars⟩ := List.forall_mem_cons.1 h
      rw [List.foldlM_cons, insert_of_get? he]
      exact ih hvars

/-- A variable keeps its value, unless the source that gave it gives it again. -/
theorem get?_of_extend (hold : env.vars.get? k = some old)
    (hne : old.source = source → ∀ e ∈ vars, e.1 ≠ k) (h : env.extend source vars = .ok env') :
    env'.vars.get? k = some old := by
  rw [extend_eq_foldlM] at h
  induction vars generalizing env with
  | nil =>
      obtain rfl := pure_eq_ok_iff.1 h
      exact hold
  | cons e vars ih =>
      rw [List.foldlM_cons, bind_eq_ok_iff] at h
      obtain ⟨env₁, henv₁, h⟩ := h
      obtain ⟨hvars, hsource⟩ := insert_eq_ok henv₁
      have hk : k ≠ e.1 := by
        rintro rfl
        exact hne (hsource old hold) e List.mem_cons_self rfl
      refine ih ?_ (fun hs => (List.forall_mem_cons.1 (hne hs)).2) h
      rw [hvars, Table.get?_insert, if_neg hk, hold]

theorem holds_of_extend (hnodup : (vars.map Prod.fst).Nodup)
    (h : env.extend source vars = .ok env') : env'.Holds source vars := by
  induction vars generalizing env with
  | nil =>
      intro e he
      cases he
  | cons e vars ih =>
      obtain ⟨hfirst, hnodup⟩ := List.nodup_cons.1 hnodup
      rw [extend_eq_foldlM, List.foldlM_cons, bind_eq_ok_iff] at h
      obtain ⟨env₁, henv₁, h⟩ := h
      rw [← extend_eq_foldlM] at h
      have hgiven : env₁.vars.get? e.1 = some ⟨source, e.2⟩ := by
        rw [(insert_eq_ok henv₁).1, Table.get?_insert, if_pos rfl]
      refine List.forall_mem_cons.2 ⟨get?_of_extend hgiven (fun _ e' he' heq => ?_) h, ih hnodup h⟩
      exact hfirst (heq ▸ List.mem_map_of_mem he')

end DerivedEnv

namespace Dependencies

/-- A graph has an edge and the names that it is between. -/
def Has (g : Dependencies) (n d : String) : Prop := n ∈ g.nodes ∧ d ∈ g.nodes ∧ g.Precedes d n

theorem Has.add_eq {g : Dependencies} {n d : String} (h : g.Has n d) : g.add n d = g := by
  obtain ⟨hn, hd, hedge⟩ := h
  have hnode : ∀ m ∈ g.nodes, g.addNode m = g := fun m hm => if_pos hm
  rw [add, hnode d hd, hnode n hn]
  exact if_pos hedge

theorem has_add (g : Dependencies) (n d : String) : (g.add n d).Has n d := by
  refine ⟨?_, ?_, precedes_add.2 (.inr ⟨rfl, rfl⟩)⟩
  · simp [nodes_add]
  · simp [nodes_add]

theorem Has.of_add {g : Dependencies} {n d : String} (h : g.Has n d) (m e : String) :
    (g.add m e).Has n d := by
  obtain ⟨hn, hd, hedge⟩ := h
  refine ⟨?_, ?_, precedes_add.2 (.inl hedge)⟩
  · simp [nodes_add, hn]
  · simp [nodes_add, hd]

/-- A dependency that is added again is there already. -/
theorem leavesMarks_add (n : String) :
    LeavesMarks (fun g d => (.ok (g.add n d) : Except Unit Dependencies)) (·.Has n ·) := by
  refine ⟨?_, ?_, ?_⟩
  · intro g d g' hg'
    obtain rfl := Except.ok.inj hg'
    exact g.has_add n d
  · intro g d e g' hd hg'
    obtain rfl := Except.ok.inj hg'
    exact hd.of_add n e
  · intro g d hd
    rw [hd.add_eq]

end Dependencies

namespace ServiceConfig

/-- One edit of a record after which it says the same: a name or a role is listed again
behind a mention of it, a name that the service connects to is added to those that it
starts after, or the roles are put in another order. -/
inductive Restates (s : ServiceConfig) : ServiceConfig → Prop
  | connect {before rest : List String} {x : String} (h : s.connect = before ++ rest)
      (hx : x ∈ before) : Restates s { s with connect := before ++ x :: rest }
  | after {before rest : List String} {x : String} (h : s.after = before ++ rest)
      (hx : x ∈ before) : Restates s { s with after := before ++ x :: rest }
  | provider {before rest : List Role} {x : Role} (h : s.providers = before ++ rest)
      (hx : x ∈ before) : Restates s { s with providers := before ++ x :: rest }
  | afterConnected {x : String} (hx : x ∈ s.connect) :
      Restates s { s with after := s.after ++ [x] }
  | reorder {roles : List Role} (h : roles.Perm s.providers) :
      Restates s { s with providers := roles }

/-- A record that lists what `s` lists, perhaps with a repetition. -/
structure IsLike (s s' : ServiceConfig) : Prop where
  besides : s' = { s with
    connect := s'.connect, after := s'.after, providers := s'.providers }
  connect : Repeats s.connect s'.connect
  /-- A name may be listed again in the other one of the two lists. -/
  waits : Repeats (s.connect ++ s.after) (s'.connect ++ s'.after)
  providers : ∀ role, role ∈ s'.providers ↔ role ∈ s.providers

theorem IsLike.refl (s : ServiceConfig) : s.IsLike s := ⟨rfl, .refl _, .refl _, fun _ => .rfl⟩

theorem Restates.isLike {s s' : ServiceConfig} (h : s.Restates s') : s.IsLike s' := by
  cases h with
  | @connect before rest x h hx =>
      have hrepeats : Repeats s.connect (before ++ x :: rest) := h ▸ .again hx
      exact ⟨rfl, hrepeats, hrepeats.append_right s.after, fun _ => .rfl⟩
  | @after before rest x h hx =>
      have hrepeats : Repeats s.after (before ++ x :: rest) := h ▸ .again hx
      exact ⟨rfl, .refl _, hrepeats.append_left s.connect, fun _ => .rfl⟩
  | @provider before rest x h hx =>
      have hrepeats : Repeats s.providers (before ++ x :: rest) := h ▸ .again hx
      exact ⟨rfl, .refl _, .refl _, fun _ => hrepeats.mem_iff⟩
  | @afterConnected x hx =>
      have hrepeats : Repeats (s.connect ++ s.after ++ []) (s.connect ++ s.after ++ [x]) :=
        .again (List.mem_append_left s.after hx)
      rw [List.append_nil, List.append_assoc] at hrepeats
      exact ⟨rfl, .refl _, hrepeats, fun _ => .rfl⟩
  | reorder h => exact ⟨rfl, .refl _, .refl _, fun _ => h.mem_iff⟩

namespace IsLike

variable {s s' : ServiceConfig} (h : s.IsLike s')

include h

theorem enable_eq : s'.enable = s.enable := by rw [h.besides]

theorem listener?_eq : s'.listener? = s.listener? := by rw [h.besides, listener?, listener?]

end IsLike

end ServiceConfig

namespace DeploymentConfig

variable {c c' : DeploymentConfig} {catalog : ResolvedCatalog} {secrets : SecretSet}

/-- An edit of one record of a configuration. -/
def Restates (c c' : DeploymentConfig) : Prop :=
  ∃ name s s', c.services.get? name = some s ∧ s.Restates s' ∧
    c' = { c with services := c.services.insert name s' }

/-- The configuration with other records. -/
def withRecords (c : DeploymentConfig) (f : String → ServiceConfig → ServiceConfig) :
    DeploymentConfig :=
  { c with services := c.services.map f }

section Connections

variable {name : String}

theorem leavesMarks_addConnection (c : DeploymentConfig) (name : String) :
    LeavesMarks (c.addConnection name) fun env target => ∃ e, c.listenerOf name target = .ok e ∧
      env.Holds (Source.connection target).label (Environment.connection target e) := by
  have hsame : ∀ env target, (∃ e, c.listenerOf name target = .ok e ∧
      env.Holds (Source.connection target).label (Environment.connection target e)) →
        c.addConnection name env target = .ok env := by
    rintro env target ⟨e, he, hholds⟩
    rw [addConnection, he]
    exact hholds.extend_eq
  refine ⟨?_, ?_, hsame⟩
  · intro env target env' h
    obtain ⟨e, he, hextend⟩ := bind_eq_ok_iff.1 h
    exact ⟨e, he, DerivedEnv.holds_of_extend (Environment.nodup_keys_connection target e) hextend⟩
  · intro env target target' env' hmarked h
    by_cases htarget : target' = target
    · rw [htarget, hsame env target hmarked] at h
      rwa [← Except.ok.inj h]
    · obtain ⟨e, he, hholds⟩ := hmarked
      obtain ⟨e', he', hextend⟩ := bind_eq_ok_iff.1 h
      refine ⟨e, he, fun p hp => DerivedEnv.get?_of_extend (hholds p hp) (fun hsource => ?_) hextend⟩
      exact absurd (Source.connection.inj (Source.label_inj hsource)).symm htarget

end Connections

/-- The names that a service connects to can be looked up again with those that it starts
after. -/
theorem checkService_eq (c : DeploymentConfig) (name : String) (s : ServiceConfig) :
    c.checkService name s =
      (s.connect.forM fun target => c.listenerOf name target >>= fun _ => pure ⟨⟩) >>= fun _ =>
        (s.connect ++ s.after).forM fun target => c.target name target >>= fun _ => pure ⟨⟩ := by
  rw [checkService]
  refine bind_congr_of_ok fun _ hconnect => ?_
  have hpassed : (s.connect.forM fun target => c.target name target >>= fun _ => pure ⟨⟩) =
      .ok ⟨⟩ := by
    refine forM_eq_ok_iff.2 fun target htarget => ?_
    obtain ⟨e, he, -⟩ := bind_eq_ok_iff.1 (forM_eq_ok_iff.1 hconnect target htarget)
    obtain ⟨t, ht, -⟩ := listenerOf_eq_ok_iff.1 he
    rw [target_eq_ok_iff.2 ht.1]
    rfl
  rw [List.forM_eq_forM] at hpassed
  rw [List.forM_eq_forM, List.forM_append, hpassed]
  rfl

section Records

variable {f : String → ServiceConfig → ServiceConfig}
  (h : ∀ name s, c.services.get? name = some s → s.IsLike (f name s))

include h

theorem target_withRecords (service target : String) :
    (c.withRecords f).target service target = f target <$> c.target service target := by
  rw [DeploymentConfig.target, DeploymentConfig.target, withRecords]
  simp only [Table.get?_map]
  cases htarget : c.services.get? target with
  | none => rfl
  | some t =>
      simp only [Option.map_some, (h target t htarget).enable_eq]
      cases t.enable <;> rfl

theorem listenerOf_withRecords : (c.withRecords f).listenerOf = c.listenerOf := by
  funext service target
  rw [listenerOf, listenerOf, target_withRecords h]
  cases htarget : c.target service target with
  | error e => rfl
  | ok t =>
      have hlistener := (h target t (target_eq_ok_iff.1 htarget).1).listener?_eq
      simp only [Functor.map, Except.map, hlistener]

theorem enabledServices_withRecords :
    (c.withRecords f).enabledServices = c.enabledServices.map fun e => (e.1, f e.1 e.2) := by
  rw [enabledServices, enabledServices, withRecords, Table.map, List.filter_map]
  refine congrArg _ (List.filter_congr fun e he => ?_)
  exact (h e.1 e.2 (Table.get?_eq_some_iff.2 he)).enable_eq

theorem checkService_withRecords {name : String} {s : ServiceConfig}
    (hs : c.services.get? name = some s) :
    (c.withRecords f).checkService name (f name s) = c.checkService name s := by
  have hlike := h name s hs
  simp only [checkService_eq, listenerOf_withRecords h, target_withRecords h, bind_map_left,
    hlike.connect.forM_eq, hlike.waits.forM_eq]

theorem checkReferences_withRecords : (c.withRecords f).checkReferences = c.checkReferences := by
  have hchecks : ∀ l : List (String × ServiceConfig), (∀ e ∈ l, c.services.get? e.1 = some e.2) →
      (l.map fun e => (e.1, f e.1 e.2)).forM
        (fun e => (c.withRecords f).checkService e.1 e.2) =
      l.forM fun e => c.checkService e.1 e.2 := by
    intro l
    induction l with
    | nil => exact fun _ => rfl
    | cons e l ih =>
        intro hl
        obtain ⟨he, hl⟩ := List.forall_mem_cons.1 hl
        have ih := ih hl
        rw [List.forM_eq_forM] at ih ⊢
        rw [List.map_cons, List.forM_cons, List.forM_cons, checkService_withRecords h he, ih]
  rw [checkReferences, checkReferences, enabledServices_withRecords h]
  exact hchecks _ fun e he => (mem_enabledServices.1 he).1

theorem compileRoutes_withRecords (i : Nat) (rules : List RouteConfig) :
    (c.withRecords f).compileRoutes i rules = c.compileRoutes i rules := by
  induction rules generalizing i with
  | nil => rfl
  | cons rule rules ih => simp only [compileRoutes, listenerOf_withRecords h, ih]

theorem compileRouting_withRecords : (c.withRecords f).compileRouting = c.compileRouting := by
  simp only [compileRouting, listenerOf_withRecords h, compileRoutes_withRecords h]
  rfl

theorem startupGraph_withRecords : (c.withRecords f).startupGraph = c.startupGraph := by
  rw [startupGraph, startupGraph, enabledServices_withRecords h, List.foldl_map, List.foldl_map]
  refine List.foldl_ext _ _ _ fun g e he => ?_
  have hlike := h e.1 e.2 (mem_enabledServices.1 he).1
  exact hlike.waits.foldl_eq (Dependencies.leavesMarks_add e.1) g

theorem startupOrder_withRecords : (c.withRecords f).startupOrder = c.startupOrder := by
  rw [startupOrder, startupOrder, startupGraph_withRecords h]

theorem addConnection_withRecords (name : String) :
    (c.withRecords f).addConnection name = c.addConnection name := by
  funext env target
  rw [addConnection, addConnection, listenerOf_withRecords h]

theorem describe_withRecords {name : String} {s : ServiceConfig}
    (hs : c.services.get? name = some s) :
    (c.withRecords f).describe catalog secrets name (f name s) =
      c.describe catalog secrets name s := by
  have hlike := h name s hs
  have hroles : Role.all.filter (f name s).providers.contains =
      Role.all.filter s.providers.contains := by
    refine List.filter_congr fun role _ => ?_
    rw [Bool.eq_iff_iff, List.contains_iff_mem, List.contains_iff_mem, hlike.providers]
  have hafter : (Table.ofList (((f name s).connect ++ (f name s).after).map (·, ()))).keys =
      (Table.ofList ((s.connect ++ s.after).map (·, ()))).keys := by
    refine Table.keys_eq_of_contains_iff fun k => ?_
    simpa [Table.contains_ofList] using hlike.waits.mem_iff (x := k)
  have hconnect := fun env => hlike.connect.foldlM_eq (leavesMarks_addConnection c name) env
  generalize f name s = s' at hlike hroles hafter hconnect
  rw [describe, describe]
  simp only [hroles, hafter, hconnect, addConnection_withRecords h]
  rw [hlike.besides]
  rfl

theorem describeAll_withRecords (names : List String) :
    (c.withRecords f).describeAll catalog secrets names = c.describeAll catalog secrets names := by
  induction names with
  | nil => rfl
  | cons name names ih =>
      have hget : (c.withRecords f).services.get? name = (c.services.get? name).map (f name) :=
        Table.get?_map f c.services name
      rw [describeAll, describeAll, hget, ih]
      cases hs : c.services.get? name with
      | none => rfl
      | some s => simp only [Option.map_some, describe_withRecords h hs]

/-- Other records that are like the old ones compile to the same. -/
theorem compile_withRecords :
    (c.withRecords f).compile catalog secrets = c.compile catalog secrets := by
  rw [compile, compile, checkReferences_withRecords h, compileRouting_withRecords h,
    startupOrder_withRecords h]
  simp only [describeAll_withRecords h]
  rfl

end Records

/-- An edit of a record after which it says the same leaves the compilation as it is. -/
theorem Restates.compile_eq (h : c.Restates c') :
    c'.compile catalog secrets = c.compile catalog secrets := by
  obtain ⟨name, s, s', hs, hrestates, rfl⟩ := h
  rw [Table.insert_eq_map s' hs]
  refine compile_withRecords fun name' t ht => ?_
  split
  · next hname =>
    rw [hname, hs] at ht
    obtain rfl := Option.some.inj ht
    exact hrestates.isLike
  · exact .refl t

/-- Repetitions and the order of roles make no difference to a compilation: whatever edits
of this kind lead from one configuration to another, the two compile to the same deployment
or fail with the same fault. -/
theorem compile_eq_of_restates (h : Relation.ReflTransGen Restates c c') :
    c'.compile catalog secrets = c.compile catalog secrets := by
  induction h with
  | refl => rfl
  | tail _ hstep ih => rw [hstep.compile_eq, ih]

def backend : ServiceConfig := { portNumber := 8001, providers := [.llm, .embedding, .llm] }

/-- The roles of the back end stand in another order. -/
def reordered : DeploymentConfig :=
  { assistant with services := (assistant.services.insert "backend"
      { backend with providers := [.embedding, .llm, .llm] }) }

/-- The front end also starts after the back end that it connects to. -/
def reworded : DeploymentConfig :=
  { reordered with services := (reordered.services.insert "frontend"
      { frontend with after := ["backend"] }) }

theorem restates_reworded : Relation.ReflTransGen Restates assistant reworded := by
  have hroles : List.Perm [Role.embedding, .llm, .llm] backend.providers := by decide
  have hbackend : assistant.Restates reordered :=
    ⟨"backend", backend, _, by decide +kernel, .reorder hroles, rfl⟩
  have hfrontend : reordered.Restates reworded :=
    ⟨"frontend", frontend, _, by decide +kernel, .afterConnected List.mem_cons_self, rfl⟩
  exact .tail (.single hbackend) hfrontend

theorem compile_reworded :
    Relation.ReflTransGen Restates assistant reworded ∧
      ∃ d, assistant.compile assistantCatalog assistantSecrets = .ok d ∧
        reworded.compile assistantCatalog assistantSecrets = .ok d := by
  obtain ⟨d, hd⟩ := exists_compile_assistant
  refine ⟨restates_reworded, d, hd, ?_⟩
  rw [compile_eq_of_restates restates_reworded, hd]

end DeploymentConfig

end LayeredCatalog
