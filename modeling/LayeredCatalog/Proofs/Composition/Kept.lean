import LayeredCatalog.Proofs.Composition.History

/-!
# What every question keeps

While plans are made nothing but lookups, kept plans and noted events change the
memo. So what a lookup keeps, and a kept plan and the frames of plans as well, is
kept by every question (`Composition.IsKept.memoAfter`). The property may speak of the
names whose plans are in progress, the innermost first.
-/

namespace LayeredCatalog

namespace Composition

/-- Inputs are filled alike if the names they ask for are planned alike. The names may be
those of two compositions. -/
theorem fill_coincide {σ : Type} {c c' : Composition} {P : σ → Prop}
    {plan plan' : String → σ → Except ResolutionError Plan × σ} (referencedBy : String)
    {inputs : List (String × InputRef)}
    (h : ∀ slot target, (slot, .catalog target) ∈ inputs →
      c.contains target = c'.contains target ∧ Coincide P (plan target) (plan' target)) :
    Coincide P (c.fill plan referencedBy inputs) (c'.fill plan' referencedBy inputs) := by
  induction inputs with
  | nil => exact fun s hs => ⟨rfl, hs⟩
  | cons input inputs ih =>
      have hrest := ih fun slot target hmem => h slot target (List.mem_cons_of_mem _ hmem)
      obtain ⟨slot, ref⟩ := input
      intro s hs
      cases ref with
      | external id =>
          obtain ⟨heq, hs'⟩ := hrest s hs
          rw [fill, fill, heq]
          exact ⟨rfl, hs'⟩
      | catalog target =>
          obtain ⟨hcontains, hplan⟩ := h slot target (List.mem_cons_self ..)
          rw [fill, fill, hcontains]
          by_cases htarget : c'.contains target
          · rw [if_pos htarget, if_pos htarget]
            obtain ⟨heq, hs'⟩ := hplan s hs
            rw [heq]
            split
            · next e s' h =>
              rw [h] at hs'
              exact ⟨rfl, hs'⟩
            · next p s' h =>
              rw [h] at hs'
              obtain ⟨heq', hs''⟩ := hrest s' hs'
              rw [heq']
              exact ⟨rfl, hs''⟩
          · rw [if_neg htarget, if_neg htarget]
            exact ⟨rfl, hs⟩

/-- Plans are made alike if the final components are found alike and filled alike. -/
theorem makePlan_eq {P : Memo → Prop} {name : String} {m : Memo}
    {final final' : Memo → Except ResolutionError Component × Memo}
    {fill fill' : Component → Memo → Except ResolutionError (List (String × PlanInput)) × Memo}
    (hm : P (m.note (.enter (.plan name)))) (hfinal : Coincide P final final')
    (hfill : ∀ v m', final' (m.note (.enter (.plan name))) = (.ok v, m') → P m' →
      fill v m' = fill' v m') :
    makePlan name final fill m = makePlan name final' fill' m := by
  obtain ⟨heq, hm'⟩ := hfinal _ hm
  rw [makePlan, makePlan, heq]
  split
  · rfl
  · next v m' h =>
    rw [h] at hm'
    rw [hfill v m' h hm']

/-- A property of the names in progress and the memo that planning keeps. -/
structure IsKept (c : Composition) (I : List String → Memo → Prop) : Prop where
  lookup : ∀ {names : List String} {m : Memo} (name : String), I names m →
    I names (c.lookup (names.map .plan) name m).2
  enter : ∀ {names : List String} {name : String} {m : Memo}, c.contains name →
    name ∉ names → I names m → I (name :: names) (m.note (.enter (.plan name)))
  leave : ∀ {names : List String} {name : String} {m : Memo}, I (name :: names) m →
    I names (m.note .leave)
  keepPlan : ∀ {names : List String} {m : Memo} (name : String) (p : Plan), I names m →
    I names (m.keepPlan name p)

namespace IsKept

variable {c : Composition} {I : List String → Memo → Prop}

theorem concludePlan (h : c.IsKept I) {names : List String} {name : String} (v : Component)
    {result : Except ResolutionError (List (String × PlanInput)) × Memo}
    (hresult : I (name :: names) result.2) : I names (concludePlan name v result).2 := by
  obtain ⟨a, m⟩ := result
  cases a with
  | error e => exact h.leave hresult
  | ok filled => exact h.leave (h.keepPlan name _ hresult)

theorem makePlan (h : c.IsKept I) {names : List String} {name : String}
    {plan : String → Memo → Except ResolutionError Plan × Memo}
    (hplan : ∀ target m, I (name :: names) m → I (name :: names) (plan target m).2) {m : Memo}
    (hm : I (name :: names) (m.note (.enter (.plan name)))) :
    I names (makePlan name (c.lookup ((name :: names).map .plan) name)
      (fun v => c.fill plan name v.inputs.toList) m).2 := by
  have hlookup := h.lookup name hm
  rw [Composition.makePlan]
  split
  · next e m' hrun =>
    rw [hrun] at hlookup
    exact h.leave hlookup
  · next v m' hrun =>
    rw [hrun] at hlookup
    have hfill : Coincide (I (name :: names)) (c.fill plan name v.inputs.toList)
        (c.fill plan name v.inputs.toList) :=
      fill_coincide name fun _ target _ => ⟨rfl, fun m'' hm'' => ⟨rfl, hplan target m'' hm''⟩⟩
    exact h.concludePlan v (hfill m' hlookup).2

theorem planWith (h : c.IsKept I) (names : List String) (name : String) {m : Memo}
    (hm : I names m) : I names (c.planWith (names.map .plan) name m).2 := by
  induction hfree : (c.freeNames (names.map .plan)).length using Nat.strong_induction_on
    generalizing names name m with
  | _ free ih =>
  subst hfree
  by_cases hname : c.contains name
  · cases hkept : m.plans.lookup name with
    | some p =>
        rw [planWith_of_kept hname hkept]
        exact hm
    | none =>
        by_cases hmem : name ∈ names
        · rw [planWith_of_mem_stack hname hkept (List.mem_map_of_mem hmem)]
          exact hm
        · have hframe : Frame.plan name ∉ names.map .plan := by simpa using hmem
          rw [planWith_of_not_mem_stack hname hkept hframe]
          refine h.makePlan ?_ (h.enter hname hmem hm)
          intro target m' hm'
          exact ih _ (length_freeNames_lt hname hframe) (name :: names) target hm' rfl
  · rw [planWith_of_not_contains hname]
    exact hm

theorem plans (h : c.IsKept I) (names : List String) {m : Memo} (hm : I [] m) :
    I [] (c.plans names m).2 := by
  induction names generalizing m with
  | nil => exact hm
  | cons name names ih =>
      have hplan : I [] (c.planWith [] name m).2 := h.planWith [] name hm
      rw [Composition.plans]
      split
      · next e m' hrun =>
        rw [hrun] at hplan
        exact hplan
      · next p m' hrun =>
        rw [hrun] at hplan
        exact ih hplan

theorem ask (h : c.IsKept I) (q : Query) {m : Memo} (hm : I [] m) : I [] (c.ask q m).2 := by
  cases q with
  | lookup name => exact h.lookup name hm
  | plan name => exact h.planWith [] name hm
  | resolve => exact h.plans c.names hm
  | contains name => exact hm
  | names => exact hm

/-- What holds of an empty memo and is kept holds after any questions. -/
theorem memoAfter (h : c.IsKept I) (hempty : I [] {}) (qs : List Query) :
    I [] (c.memoAfter qs) := by
  induction qs using List.reverseRecOn with
  | nil => exact hempty
  | append_singleton qs q ih =>
      rw [memoAfter_concat]
      exact h.ask q ih

end IsKept

end Composition

end LayeredCatalog
