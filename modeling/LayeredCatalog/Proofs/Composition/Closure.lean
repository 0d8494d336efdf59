import LayeredCatalog.Proofs.Composition.History

/-!
# When planning succeeds

A name has a plan exactly if the names it reaches by catalog inputs all have final
components and lie on no cycle (`Composition.exists_hasPlan_iff`). For all names at
once this is: every name has a final component, no input dangles and the graph of
inputs has no cycle (`Composition.forall_exists_hasPlan_iff`). What is added here is
that lookups find the final components, planning finds the plans, and resolving finds
the one catalog that has the plans of all names (`Composition.resolveWith_eq_ok_iff`).
-/

namespace LayeredCatalog

namespace Composition

/-- A catalog of plans has the plan of each name of the composition, and nothing else. -/
structure IsResolved (c : Composition) (r : ResolvedCatalog) : Prop where
  contains_iff : ∀ name, r.contains name ↔ c.contains name
  hasPlan : ∀ name p, r.get? name = some p → c.HasPlan name p

namespace IsResolved

variable {c : Composition} {r r' : ResolvedCatalog}

theorem exists_hasPlan (h : c.IsResolved r) {name : String} (hname : c.contains name) :
    ∃ p, c.HasPlan name p := by
  obtain ⟨p, hp⟩ := Option.isSome_iff_exists.1 ((h.contains_iff name).2 hname)
  exact ⟨p, h.hasPlan name p hp⟩

theorem get?_of_hasPlan (h : c.IsResolved r) {name : String} {p : Plan}
    (hp : c.HasPlan name p) : r.get? name = some p := by
  obtain ⟨q, hq⟩ := Option.isSome_iff_exists.1 ((h.contains_iff name).2 hp.contains)
  rw [hq, (h.hasPlan name q hq).unique hp]

theorem unique (h : c.IsResolved r) (h' : c.IsResolved r') : r = r' := by
  refine Table.ext_get? fun name => Option.ext fun p => ?_
  constructor
  · intro hp
    exact h'.get?_of_hasPlan (h.hasPlan name p hp)
  · intro hp
    exact h.get?_of_hasPlan (h'.hasPlan name p hp)

end IsResolved

section Sound

variable {c : Composition} {m : Memo}

theorem exists_lookup_ok_iff (hc : c.PassesErrors) (hm : m.IsSound c) (name : String) :
    (∃ v, (c.lookup [] name m).1 = .ok v) ↔ ∃ v, c.HasFinal name v :=
  exists_congr fun v => (lookup_computes hc [] name (by simp)).eq_ok_iff hm v

theorem exists_planWith_ok_iff (hc : c.PassesErrors) (hm : m.IsSound c) (name : String) :
    (∃ p, (c.planWith [] name m).1 = .ok p) ↔ ∃ p, c.HasPlan name p :=
  exists_congr fun p => (planWith_computes hc [] name (by simp) (by simp)).eq_ok_iff hm p

theorem exists_plans (names : List String) (h : ∀ name ∈ names, ∃ p, c.HasPlan name p) :
    ∃ ps : List (String × Plan), ps.map Prod.fst = names ∧ ∀ e ∈ ps, c.HasPlan e.1 e.2 := by
  induction names with
  | nil => exact ⟨[], rfl, by simp⟩
  | cons name names ih =>
      obtain ⟨p, hp⟩ := h name (List.mem_cons_self ..)
      obtain ⟨ps, hnames, hps⟩ := ih fun name' hmem => h name' (List.mem_cons_of_mem _ hmem)
      refine ⟨(name, p) :: ps, ?_, List.forall_mem_cons.2 ⟨hp, hps⟩⟩
      rw [List.map_cons, hnames]

theorem exists_resolveWith_ok_iff (hc : c.PassesErrors) (hm : m.IsSound c) :
    (∃ r, (c.resolveWith m).1 = .ok r) ↔ ∀ name, c.contains name → ∃ p, c.HasPlan name p := by
  simp only [(resolveWith_computes hc).eq_ok_iff hm]
  constructor
  · rintro ⟨r, ps, ⟨hnames, hps⟩, -⟩ name hname
    rw [contains_iff_mem_names, ← hnames, List.mem_map] at hname
    obtain ⟨e, he, rfl⟩ := hname
    exact ⟨e.2, hps e he⟩
  · intro h
    obtain ⟨ps, hps⟩ := exists_plans c.names fun name hmem =>
      h name (contains_iff_mem_names.2 hmem)
    exact ⟨_, ps, hps, rfl⟩

/-- The resolved catalog is the one that has the plans of all names. -/
theorem resolveWith_eq_ok_iff (hc : c.PassesErrors) (hm : m.IsSound c) {r : ResolvedCatalog} :
    (c.resolveWith m).1 = .ok r ↔ c.IsResolved r := by
  have hresolved : ∀ r, (c.resolveWith m).1 = .ok r → c.IsResolved r := by
    intro r hr
    obtain ⟨ps, ⟨hnames, hps⟩, rfl⟩ := ((resolveWith_computes hc).eq_ok_iff hm r).1 hr
    constructor
    · intro name
      rw [contains_iff_mem_names, ← hnames, Table.contains_ofList]
      simp
    · intro name p hget
      exact hps (name, p) (Table.mem_of_get?_ofList hget)
  constructor
  · exact hresolved r
  · intro h
    obtain ⟨r', hr'⟩ := (exists_resolveWith_ok_iff hc hm).2 fun name hname => h.exists_hasPlan hname
    rw [h.unique (hresolved r' hr'), hr']

end Sound

/-- All names have plans exactly if all have final components, no input dangles and
no name lies on a cycle of inputs. -/
theorem forall_exists_hasPlan_iff {c : Composition} :
    (∀ name, c.contains name → ∃ p, c.HasPlan name p) ↔
      (∀ name, c.contains name → ∃ v, c.HasFinal name v) ∧
        (∀ a b, c.Uses a b → c.contains b) ∧ ∀ a, ¬ Relation.TransGen c.Uses a a := by
  constructor
  · intro h
    have hsource : ∀ a b, c.Uses a b → ∃ p, c.HasPlan a p := by
      rintro a b ⟨v, slot, hv, -⟩
      exact h a hv.contains
    refine ⟨?_, ?_, ?_⟩
    · intro name hname
      exact (exists_hasPlan_iff.1 (h name hname) name .refl).1
    · intro a b huses
      obtain ⟨p, hp⟩ := hsource a b huses
      obtain ⟨q, hq⟩ := hp.exists_of_uses huses
      exact hq.contains
    · intro a hcycle
      obtain ⟨b, huses, -⟩ := Relation.TransGen.head'_iff.1 hcycle
      obtain ⟨p, hp⟩ := hsource a b huses
      exact hp.not_uses_self hcycle
  · rintro ⟨hfinal, hcontains, hacyclic⟩ name hname
    rw [exists_hasPlan_iff]
    intro b hreach
    have hb : c.contains b := by
      induction hreach with
      | refl => exact hname
      | tail _ huses _ => exact hcontains _ _ huses
    exact ⟨hfinal b hb, hacyclic b⟩

/-- Whatever was asked before, a name is planned exactly if each name that it reaches
by catalog inputs is assigned, is looked up successfully and does not use itself; and
all names are resolved exactly if all lookups succeed, no catalog input dangles and
the graph of inputs is acyclic. -/
theorem planWith_ok_iff_closure {c : Composition} (hc : c.PassesErrors) (qs : List Query) :
    (∀ name, (∃ p, (c.planWith [] name (c.memoAfter qs)).1 = .ok p) ↔
      ∀ b, Relation.ReflTransGen c.Uses name b →
        c.contains b ∧ (∃ v, (c.lookup [] b (c.memoAfter qs)).1 = .ok v) ∧
          ¬ Relation.TransGen c.Uses b b) ∧
    ((∃ r, (c.resolveWith (c.memoAfter qs)).1 = .ok r) ↔
      (∀ name, c.contains name → ∃ v, (c.lookup [] name (c.memoAfter qs)).1 = .ok v) ∧
        (∀ a b, c.Uses a b → c.contains b) ∧ ∀ a, ¬ Relation.TransGen c.Uses a a) := by
  have hm := isSound_memoAfter hc qs
  constructor
  · intro name
    simp only [exists_planWith_ok_iff hc hm, exists_lookup_ok_iff hc hm, exists_hasPlan_iff]
    constructor
    · intro h b hreach
      obtain ⟨⟨v, hv⟩, hacyclic⟩ := h b hreach
      exact ⟨hv.contains, ⟨v, hv⟩, hacyclic⟩
    · intro h b hreach
      exact (h b hreach).2
  · simp only [exists_resolveWith_ok_iff hc hm, exists_lookup_ok_iff hc hm]
    exact forall_exists_hasPlan_iff

theorem not_uses_self_refreshed :
    refreshed.PassesErrors ∧ (∃ r, (refreshed.resolveWith {}).1 = .ok r) ∧
      ∀ a, ¬ Relation.TransGen refreshed.Uses a a := by
  have hok : ∃ r, (refreshed.resolveWith {}).1 = .ok r := by
    have hisOk : (refreshed.resolveWith {}).1.isOk = true := by decide +kernel
    cases h : (refreshed.resolveWith {}).1 with
    | error e => rw [h] at hisOk; cases hisOk
    | ok r => exact ⟨r, rfl⟩
  have h := planWith_ok_iff_closure passesErrors_refreshed []
  exact ⟨passesErrors_refreshed, hok, (h.2.1 hok).2.2⟩

end Composition

end LayeredCatalog
