import LayeredCatalog.Composition.Evaluation
import LayeredCatalog.Proofs.Composition.Planned
import LayeredCatalog.Proofs.Stateful

/-!
# Evaluation finds the values and the plans

Under functions that pass on the failure of a read, the evaluator computes
`HasValue` and `HasPlan`: from every memo that holds nothing but right values and
plans it gives the same answer, a success exactly for the value or the plan that
the rules give, and it leaves such a memo.

What makes the induction go through is a condition on the stack. Each definition
on it reaches the one to be evaluated through `Needs`, each planned name through
`Uses`. So when a frame comes back there is a cycle, and by
`HasValue.not_needs_self` and `HasPlan.not_uses_self` there was nothing to be
found. The stack gets longer with each call and the definitions left over get
fewer, which is what the induction is on.
-/

namespace LayeredCatalog

/-- A memo keeps nothing but values and plans that the composition has. -/
structure Memo.IsSound (c : Composition) (m : Memo) : Prop where
  value : ∀ name i v, m.values.lookup (name, i) = some v → c.HasValue name (.layer i) v
  plan : ∀ name p, m.plans.lookup name = some p → c.HasPlan name p

namespace Memo.IsSound

theorem empty (c : Composition) : IsSound c {} := by
  constructor
  · intro name i v h
    cases h
  · intro name p h
    cases h

theorem note {c : Composition} {m : Memo} (h : IsSound c m) (e : Event) :
    IsSound c (m.note e) := ⟨h.value, h.plan⟩

theorem keepValue {c : Composition} {m : Memo} {name : String} {i : Nat} {v : Component}
    (h : IsSound c m) (hv : c.HasValue name (.layer i) v) :
    IsSound c (m.keepValue name i v) := by
  refine ⟨?_, h.plan⟩
  intro name' i' v' hlookup
  rw [lookup_keepValue] at hlookup
  split at hlookup
  · next hcell =>
    obtain ⟨rfl, rfl⟩ := Prod.mk.inj hcell
    rw [← Option.some.inj hlookup]
    exact hv
  · exact h.value name' i' v' hlookup

theorem keepPlan {c : Composition} {m : Memo} {name : String} {p : Plan}
    (h : IsSound c m) (hp : c.HasPlan name p) : IsSound c (m.keepPlan name p) := by
  refine ⟨h.value, ?_⟩
  intro name' p' hlookup
  rw [lookup_keepPlan] at hlookup
  split at hlookup
  · next hname =>
    rw [hname, ← Option.some.inj hlookup]
    exact hp
  · exact h.plan name' p' hlookup

end Memo.IsSound

namespace Composition

/-- Whether every function of every layer passes on the failure of what it reads. -/
def PassesErrors (c : Composition) : Prop := ∀ l ∈ c.layers, l.PassesErrors

theorem passesErrors_of_isStatic {c : Composition} (h : ∀ l ∈ c.layers, l.IsStatic) :
    c.PassesErrors := fun l hl => (h l hl).passesErrors

theorem PassesErrors.of_contribution? {c : Composition} {name : String} {i : Nat} {l : Layer}
    {k : Contribution} (hc : c.PassesErrors) (h : c.contribution? i name = some (l, k)) :
    k.PassesErrors := forall_contribution? hc h

section Run

variable {σ : Type} {c : Composition} {i : Nat} {P : σ → Prop}
  {answer : Origin → σ → Except LayerFailure Component × σ}

theorem run_reading_computes (r : Reading (Except LayerFailure Component))
    (hr : r.PassesErrors)
    (hanswer : ∀ o, c.Asks i r o →
      Computes P (answer o) fun old => ∃ s, c.Shows i o s ∧ c.HasValue o.name s old) :
    Computes P (r.run answer fun n => (c.slotBelow? i n).isSome) (c.Returns i r) := by
  induction r with
  | done result => exact (Computes.const result).congr fun v => returns_done_iff.symm
  | read o next ih =>
      have hbind := (hanswer o (.inl rfl)).bind
        (g := fun a s => (next a).run answer (fun n => (c.slotBelow? i n).isSome) s)
        (R := fun old => c.Returns i (next (.ok old))) ?_ ?_
      · refine hbind.congr ?_
        intro v
        rw [returns_read_iff]
        constructor
        · rintro ⟨old, ⟨s, hs, hold⟩, hv⟩
          exact ⟨s, old, hs, hold, hv⟩
        · rintro ⟨s, old, hs, hold, hv⟩
          exact ⟨old, ⟨s, hs, hold⟩, hv⟩
      · intro failure
        rw [hr.1 failure]
        exact Computes.error failure fun _ => id
      · rintro old ⟨s, hs, hold⟩
        refine ih _ (hr.2 old) ?_
        intro o' hask
        exact hanswer o' (.inr ⟨s, old, hs, hold, hask⟩)
  | definedBelow name next ih =>
      refine (ih _ (hr _) hanswer).congr ?_
      intro v
      exact returns_definedBelow_iff.symm

theorem run_derive_computes {start : σ → σ} {o : Origin} (t : Transform)
    (hstart : ∀ s, P s → P (start s))
    (hread : Computes P (answer o) fun old => ∃ s, c.Shows i o s ∧ c.HasValue o.name s old) :
    Computes P ((Contribution.derive o t).run answer (fun n => (c.slotBelow? i n).isSome) i start)
      (c.Returns i ((Contribution.derive o t).toReading i)) := by
  have hnote : ∀ s, P s → P (t.noteCall start s) := by
    intro s hs
    cases t with
    | replace f => exact hstart s hs
    | merge patch => exact hs
  have hrun := hread.andThen (R := fun old v => t.apply old = .ok v)
    (g := (Contribution.derive o t).run answer (fun n => (c.slotBelow? i n).isSome) i start)
    (fun failure s s' h => by simp only [Contribution.run, h])
    (fun old s s' h => by simp only [Contribution.run, h])
    (fun failure => Computes.error failure fun _ => id)
    (fun old _ => (Computes.const (t.apply old)).before hnote)
  refine hrun.congr ?_
  intro v
  rw [returns_derive_iff]
  constructor
  · rintro ⟨old, ⟨s, hs, hold⟩, hv⟩
    exact ⟨s, old, hs, hold, hv⟩
  · rintro ⟨s, old, hs, hold, hv⟩
    exact ⟨old, ⟨s, hs, hold⟩, hv⟩

theorem run_contribution_computes {start : σ → σ} (k : Contribution) (hk : k.PassesErrors)
    (hstart : ∀ s, P s → P (start s))
    (hanswer : ∀ o, c.Asks i (k.toReading i) o →
      Computes P (answer o) fun old => ∃ s, c.Shows i o s ∧ c.HasValue o.name s old) :
    Computes P (k.run answer (fun n => (c.slotBelow? i n).isSome) i start)
      (c.Returns i (k.toReading i)) := by
  cases k with
  | constant component =>
      exact (Computes.const (.ok component)).congr fun v => returns_done_iff.symm
  | compute body =>
      show Computes P (fun s => (body i).run answer _ (start s)) _
      exact (run_reading_computes (body i) (hk i) hanswer).before hstart
  | derive o t => exact run_derive_computes t hstart (hanswer o (.inl rfl))

theorem answer_computes {value : String → Slot → σ → Except ResolutionError Component × σ}
    {o : Origin}
    (hvalue : ∀ s, c.Shows i o s → Computes P (value o.name s) (c.HasValue o.name s)) :
    Computes P (c.answer i value o) fun v => ∃ s, c.Shows i o s ∧ c.HasValue o.name s v := by
  cases hslot : c.slotIn? i o with
  | none =>
      have hanswer : c.answer i value o = fun s => (.error (.missing o.name o.view), s) := by
        funext s
        simp only [answer, hslot]
      rw [hanswer]
      refine Computes.error _ ?_
      rintro v ⟨s, hs, -⟩
      rw [slotIn?_eq_some_iff.2 hs] at hslot
      cases hslot
  | some s =>
      have hs := slotIn?_eq_some_iff.1 hslot
      have hanswer : c.answer i value o =
          fun m => onFailure .fault (value o.name s m) := by
        funext m
        simp only [answer, hslot]
      rw [hanswer]
      refine ((hvalue s hs).mapError LayerFailure.fault).congr ?_
      intro v
      constructor
      · intro hv
        exact ⟨s, hs, hv⟩
      · rintro ⟨s', hs', hv⟩
        rwa [hs.unique hs']

end Run

theorem concludeValue_computes {c : Composition} {name : String} {i : Nat} {l : Layer}
    {k : Contribution} {run : Memo → Except LayerFailure Component × Memo}
    (hk : c.contribution? i name = some (l, k))
    (hrun : Computes (Memo.IsSound c) run (c.Returns i (k.toReading i))) :
    Computes (Memo.IsSound c) (fun m => concludeValue name i l.name (run m))
      (c.HasValue name (.layer i)) := by
  have hconclude := hrun.andThen (R := fun w v => v = { w with name })
    (g := fun m => concludeValue name i l.name (run m))
    (e := fun failure m => (.error (failure.blame name i l.name), m.note .leave))
    (k := fun w m =>
      (.ok { w with name }, (m.keepValue name i { w with name }).note .leave))
    (fun failure m m' h => by simp only [h, concludeValue])
    (fun w m m' h => by simp only [h, concludeValue])
    (fun failure => (Computes.error _ fun _ => id).before fun m hm => hm.note .leave) ?_
  · refine hconclude.congr ?_
    intro v
    rw [hasValue_layer_iff]
    constructor
    · rintro ⟨w, hw, rfl⟩
      exact ⟨l, k, w, hk, hw, rfl⟩
    · rintro ⟨l', k', w, hk', hw, rfl⟩
      obtain ⟨rfl, rfl⟩ := Prod.mk.inj (Option.some.inj (hk.symm.trans hk'))
      exact ⟨w, hw, rfl⟩
  · intro w hw
    have hv : c.HasValue name (.layer i) { w with name } :=
      hasValue_layer_iff.2 ⟨l, k, w, hk, hw, rfl⟩
    exact (Computes.ok { w with name }).before fun m hm => (hm.keepValue hv).note .leave

/-- What a definition needs is reached from its frame and from those below. -/
theorem transGen_needs_of_mem_cons {c : Composition} {stack : List Frame} {name : String} {i : Nat}
    {b : String × Slot} (hstack : ∀ name' i', .define name' i' ∈ stack →
      Relation.TransGen c.Needs (name', .layer i') (name, .layer i))
    (hneeds : c.Needs (name, .layer i) b) {name' : String} {i' : Nat}
    (hmem : .define name' i' ∈ Frame.define name i :: stack) :
    Relation.TransGen c.Needs (name', .layer i') b := by
  rcases List.mem_cons.1 hmem with hframe | hmem
  · obtain ⟨rfl, rfl⟩ := Frame.define.inj hframe
    exact .single hneeds
  · exact (hstack name' i' hmem).tail hneeds

/-- The evaluator finds the value of a definition, on every stack from which the
definition is reached. -/
theorem valueAt_computes {c : Composition} (hc : c.PassesErrors) (stack : List Frame)
    (name : String) (s : Slot)
    (hstack : ∀ name' i', .define name' i' ∈ stack →
      Relation.TransGen c.Needs (name', .layer i') (name, s)) :
    Computes (Memo.IsSound c) (c.valueAt stack name s) (c.HasValue name s) := by
  induction hfree : (c.freeCells stack).length using Nat.strong_induction_on
    generalizing stack name s with
  | _ free ih =>
  subst hfree
  cases s with
  | base =>
      cases hbase : c.base.get? name with
      | none =>
          have hrun : c.valueAt stack name .base =
              fun m => (.error (.unknownComponent name .final), m) := by
            funext m
            rw [valueAt, hbase]
          rw [hrun]
          refine Computes.error _ ?_
          intro v hv
          cases hbase.symm.trans (hasValue_base_iff.1 hv)
      | some w =>
          have hrun : c.valueAt stack name .base = fun m => (.ok w, m) := by
            funext m
            rw [valueAt, hbase]
          rw [hrun]
          refine (Computes.const (.ok w)).congr ?_
          intro v
          rw [hasValue_base_iff, hbase, Except.ok.injEq, Option.some.injEq]
  | layer i =>
      have hkept : ∀ (m : Memo) v, m.IsSound c → m.values.lookup (name, i) = some v →
          c.HasValue name (.layer i) v := fun m v hm h => hm.value name i v h
      cases hk : c.contribution? i name with
      | none =>
          refine Computes.of_kept (fun m v h => valueAt_of_kept h)
            (fun m h => valueAt_of_contribution?_none h hk) hkept (Computes.error _ ?_)
          intro v hv
          obtain ⟨l, k, w, hk', -⟩ := hasValue_layer_iff.1 hv
          cases hk.symm.trans hk'
      | some x =>
          obtain ⟨l, k⟩ := x
          by_cases hs : .define name i ∈ stack
          · refine Computes.of_kept (fun m v h => valueAt_of_kept h)
              (fun m h => valueAt_of_mem_stack h hk hs) hkept (Computes.error _ ?_)
            intro v hv
            exact hv.not_needs_self (hstack name i hs)
          · refine Computes.of_kept (fun m v h => valueAt_of_kept h)
              (fun m h => valueAt_of_contribution? h hk hs) hkept
              (concludeValue_computes hk ?_)
            refine Computes.before (fun m hm => hm.note _)
              (run_contribution_computes k (hc.of_contribution? hk)
                (fun m hm => hm.note _) fun o hask => answer_computes fun s' hs' => ?_)
            have hneeds : c.Needs (name, .layer i) (o.name, s') :=
              ⟨i, l, k, o, rfl, hk, hask, rfl, hs'⟩
            exact ih _ (length_freeCells_lt hk hs) _ _ _
              (fun name' i' => transGen_needs_of_mem_cons hstack hneeds) rfl

theorem lookup_computes {c : Composition} (hc : c.PassesErrors) (stack : List Frame)
    (name : String) (hstack : ∀ name' i', .define name' i' ∉ stack) :
    Computes (Memo.IsSound c) (c.lookup stack name) (c.HasFinal name) := by
  cases hlast : c.lastSlot? name with
  | none =>
      have hrun : c.lookup stack name = fun m => (.error (.unknownComponent name .final), m) := by
        funext m
        rw [lookup, hlast]
      rw [hrun]
      refine Computes.error _ ?_
      rintro v ⟨s, hs, -⟩
      cases hlast.symm.trans (lastSlot?_eq_some_iff.2 hs)
  | some s =>
      have hs := lastSlot?_eq_some_iff.1 hlast
      have hrun : c.lookup stack name = c.valueAt stack name s := by
        funext m
        rw [lookup, hlast]
      rw [hrun]
      refine (valueAt_computes hc stack name s fun name' i' hmem =>
        absurd hmem (hstack name' i')).congr ?_
      intro v
      constructor
      · intro hv
        exact ⟨s, hs, hv⟩
      · rintro ⟨s', hs', hv⟩
        rwa [hs.unique hs']

theorem HasPlan.contains {c : Composition} {name : String} {p : Plan} (h : c.HasPlan name p) :
    c.contains name := by
  obtain ⟨v, filled, hv, -⟩ := hasPlan_iff.1 h
  exact hv.contains

theorem fill_computes {σ : Type} {c : Composition} {P : σ → Prop}
    {plan : String → σ → Except ResolutionError Plan × σ} {referencedBy : String}
    (inputs : List (String × InputRef))
    (hplan : ∀ slot target, (slot, .catalog target) ∈ inputs →
      Computes P (plan target) (c.HasPlan target)) :
    Computes P (c.fill plan referencedBy inputs) (c.Fills inputs) := by
  induction inputs with
  | nil => exact (Computes.ok []).congr fun filled => fills_nil_iff.symm
  | cons input inputs ih =>
      have hrest := ih fun slot target hmem => hplan slot target (List.mem_cons_of_mem _ hmem)
      obtain ⟨slot, ref⟩ := input
      cases ref with
      | external source =>
          exact (hrest.map ((slot, .external source) :: ·)).congr
            fun filled => fills_external_iff.symm
      | catalog target =>
          by_cases htarget : c.contains target
          · have hrun := (hplan slot target (List.mem_cons_self ..)).andThen
              (g := c.fill plan referencedBy ((slot, .catalog target) :: inputs))
              (fun failure s s' h => by rw [fill, if_pos htarget, h])
              (fun p s s' h => by rw [fill, if_pos htarget, h]; rfl)
              (fun failure => Computes.error failure fun _ => id)
              (fun p _ => hrest.map ((slot, .component p) :: ·))
            refine hrun.congr ?_
            intro filled
            rw [fills_catalog_iff]
            constructor
            · rintro ⟨p, hp, rest, hf, rfl⟩
              exact ⟨p, rest, hp, hf, rfl⟩
            · rintro ⟨p, rest, hp, hf, rfl⟩
              exact ⟨p, hp, rest, hf, rfl⟩
          · have hrun : c.fill plan referencedBy ((slot, .catalog target) :: inputs) =
                fun s => (.error (.danglingInput target referencedBy slot), s) := by
              funext s
              rw [fill, if_neg htarget]
            rw [hrun]
            refine Computes.error _ ?_
            intro filled hfills
            obtain ⟨p, rest, hp, -⟩ := fills_catalog_iff.1 hfills
            exact htarget hp.contains

theorem concludePlan_computes {c : Composition} {name : String} {v : Component}
    {fill : Memo → Except ResolutionError (List (String × PlanInput)) × Memo}
    (hv : c.HasFinal name v)
    (hfill : Computes (Memo.IsSound c) fill (c.Fills v.inputs.toList)) :
    Computes (Memo.IsSound c) (fun m => concludePlan name v (fill m)) (c.HasPlan name) := by
  have hconclude := hfill.andThen (R := fun filled p => p = Plan.build v filled)
    (g := fun m => concludePlan name v (fill m))
    (fun failure m m' h => by rw [h, concludePlan])
    (fun filled m m' h => by rw [h, concludePlan])
    (fun failure => (Computes.error failure fun _ => id).before fun m hm => hm.note .leave)
    (fun filled hf => (Computes.ok (Plan.build v filled)).before
      fun m hm => (hm.keepPlan (.build hv hf)).note .leave)
  refine hconclude.congr ?_
  intro p
  rw [hasPlan_iff]
  constructor
  · rintro ⟨filled, hf, rfl⟩
    exact ⟨v, filled, hv, hf, rfl⟩
  · rintro ⟨v', filled, hv', hf, rfl⟩
    rw [← hv.unique hv'] at hf ⊢
    exact ⟨filled, hf, rfl⟩

theorem makePlan_computes {c : Composition} {name : String}
    {final : Memo → Except ResolutionError Component × Memo}
    {fill : Component → Memo → Except ResolutionError (List (String × PlanInput)) × Memo}
    (hfinal : Computes (Memo.IsSound c) final (c.HasFinal name))
    (hfill : ∀ v, c.HasFinal name v →
      Computes (Memo.IsSound c) (fill v) (c.Fills v.inputs.toList)) :
    Computes (Memo.IsSound c) (makePlan name final fill) (c.HasPlan name) := by
  have hmake := (hfinal.before fun m hm => hm.note (.enter (.plan name))).andThen
    (R := fun _ => c.HasPlan name) (g := makePlan name final fill)
    (fun failure m m' h => by rw [makePlan, h]) (fun v m m' h => by rw [makePlan, h])
    (fun failure => (Computes.error failure fun _ => id).before fun m hm => hm.note .leave)
    (fun v hv => concludePlan_computes hv (hfill v hv))
  refine hmake.congr ?_
  intro p
  constructor
  · rintro ⟨_, _, hp⟩
    exact hp
  · intro hp
    obtain ⟨v, _, hv, -⟩ := hasPlan_iff.1 hp
    exact ⟨v, hv, hp⟩

/-- The evaluator finds the plan of a name, on every stack of planned names from
which the name is reached. -/
theorem planWith_computes {c : Composition} (hc : c.PassesErrors) (stack : List Frame)
    (name : String) (hdefine : ∀ name' i', .define name' i' ∉ stack)
    (hplan : ∀ name', .plan name' ∈ stack → Relation.TransGen c.Uses name' name) :
    Computes (Memo.IsSound c) (c.planWith stack name) (c.HasPlan name) := by
  induction hfree : (c.freeNames stack).length using Nat.strong_induction_on
    generalizing stack name with
  | _ free ih =>
  subst hfree
  by_cases hname : c.contains name
  · have hkept : ∀ (m : Memo) p, m.IsSound c → m.plans.lookup name = some p →
        c.HasPlan name p := fun m p hm h => hm.plan name p h
    by_cases hs : .plan name ∈ stack
    · refine Computes.of_kept (fun m p h => planWith_of_kept hname h)
        (fun m h => planWith_of_mem_stack hname h hs) hkept (Computes.error _ ?_)
      intro p hp
      exact hp.not_uses_self (hplan name hs)
    · have hdefine' : ∀ name' i', .define name' i' ∉ Frame.plan name :: stack := by
        intro name' i' hmem
        rcases List.mem_cons.1 hmem with hframe | hmem
        · cases hframe
        · exact hdefine name' i' hmem
      refine Computes.of_kept (fun m p h => planWith_of_kept hname h)
        (fun m h => planWith_of_not_mem_stack hname h hs) hkept
        (makePlan_computes (lookup_computes hc _ name hdefine') fun v hv =>
          fill_computes _ fun slot target hmem => ?_)
      have huses : c.Uses name target := ⟨v, slot, hv, hmem⟩
      refine ih _ (length_freeNames_lt hname hs) _ _ hdefine' ?_ rfl
      intro name' hmem
      rcases List.mem_cons.1 hmem with hframe | hmem
      · rw [Frame.plan.inj hframe]
        exact .single huses
      · exact (hplan name' hmem).tail huses
  · have hrun : c.planWith stack name = fun m => (.error (.unknownComponent name .final), m) :=
      funext fun m => planWith_of_not_contains hname
    rw [hrun]
    refine Computes.error _ ?_
    intro p hp
    exact hname hp.contains

theorem plans_computes {c : Composition} (hc : c.PassesErrors) (names : List String) :
    Computes (Memo.IsSound c) (c.plans names) fun ps =>
      ps.map Prod.fst = names ∧ ∀ e ∈ ps, c.HasPlan e.1 e.2 := by
  induction names with
  | nil =>
      refine (Computes.ok []).congr ?_
      intro ps
      constructor
      · rintro rfl
        simp
      · rintro ⟨hnames, -⟩
        exact List.map_eq_nil_iff.1 hnames
  | cons name names ih =>
      have hrun := (planWith_computes hc [] name (by simp) (by simp)).andThen
        (g := c.plans (name :: names))
        (fun failure m m' h => by rw [plans, h])
        (fun p m m' h => by rw [plans, h]; rfl)
        (fun failure => Computes.error failure fun _ => id)
        (fun p _ => ih.map ((name, p) :: ·))
      refine hrun.congr ?_
      intro ps
      constructor
      · rintro ⟨p, hp, ps', ⟨hnames, hps'⟩, rfl⟩
        exact ⟨congrArg (name :: ·) hnames, List.forall_mem_cons.2 ⟨hp, hps'⟩⟩
      · rintro ⟨hnames, hps⟩
        obtain ⟨⟨name', p⟩, ps', rfl, rfl, hnames'⟩ := List.map_eq_cons_iff.1 hnames
        obtain ⟨hp, hps'⟩ := List.forall_mem_cons.1 hps
        exact ⟨p, hp, ps', ⟨hnames', hps'⟩, rfl⟩

/-- On an empty memo a lookup returns the value of the last slot of the name if that
slot has a value, and fails if it has none. The functions of the layers pass on the
failure of what they read; those of layers from documents always do. -/
theorem lookup_eq_ok_iff_hasValue {c : Composition}
    (hc : ∀ l ∈ c.layers, l.PassesErrors ∨ ∃ d fallback, Layer.ofDocument d fallback = .ok l)
    (name : String) :
    (∀ v, (c.lookup [] name {}).1 = .ok v ↔ ∃ s, c.IsLast name s ∧ c.HasValue name s v) ∧
      ((∃ e, (c.lookup [] name {}).1 = .error e) ↔
        ¬ ∃ s v, c.IsLast name s ∧ c.HasValue name s v) := by
  have hpasses : c.PassesErrors := by
    intro l hl
    rcases hc l hl with h | ⟨d, fallback, h⟩
    · exact h
    · exact Layer.passesErrors_of_ofDocument h
  obtain ⟨a, ha, hfinal⟩ := lookup_computes hpasses [] name (by simp)
  have hlookup : (c.lookup [] name {}).1 = a := (ha {} (Memo.IsSound.empty c)).1
  rw [hlookup]
  refine ⟨hfinal, ?_⟩
  cases a with
  | error e =>
      constructor
      · rintro - ⟨s, v, hs, hv⟩
        cases (hfinal v).2 ⟨s, hs, hv⟩
      · intro _
        exact ⟨e, rfl⟩
  | ok v =>
      constructor
      · rintro ⟨e, he⟩
        cases he
      · intro hnone
        obtain ⟨s, hs, hv⟩ := (hfinal v).1 rfl
        exact absurd ⟨s, v, hs, hv⟩ hnone

/-- The version of `curl` below, raised. -/
def raiseCurl : Reading (Except LayerFailure Component) :=
  (Reading.read ⟨.previous, "curl"⟩ .done).andThen fun old =>
    .done (.ok { old with version := "8.6" })

/-- Two layers above a base: the lower one derives `wget` from what `curl` is in the
end, the upper one makes that from the `curl` of the base. -/
def refreshed : Composition where
  base := Catalog.add (Catalog.add ∅ { name := "zlib", version := "1.3" })
    { name := "curl", version := "8.5",
      inputs := .ofList [("ca", .external "certs"), ("tls", .catalog "zlib")] }
  layers := [
    ⟨"tools", Overlay.derive ∅ "wget" ⟨.final, "curl"⟩ (.replace .ok)⟩,
    ⟨"refresh", Overlay.define ∅ "curl" fun _ => raiseCurl⟩]

theorem passesErrors_refreshed : refreshed.PassesErrors := by
  have hraise : raiseCurl.PassesErrors :=
    Reading.PassesErrors.andThen ⟨fun _ => rfl, fun _ => trivial⟩ fun _ => trivial
  intro l hl
  rw [Layer.passesErrors_iff_forall_mem]
  rcases List.mem_pair.1 hl with rfl | rfl
  · exact List.forall_mem_singleton.2 (Contribution.passesErrors_derive _ _)
  · exact List.forall_mem_singleton.2 fun _ => hraise

theorem lookup_refreshed_wget :
    (∀ l ∈ refreshed.layers, l.PassesErrors ∨
      ∃ d fallback, Layer.ofDocument d fallback = .ok l) ∧
    (refreshed.lookup [] "wget" {}).1 = .ok
      { name := "wget", version := "8.6",
        inputs := .ofList [("ca", .external "certs"), ("tls", .catalog "zlib")] } := by
  have hc : ∀ l ∈ refreshed.layers, l.PassesErrors ∨
      ∃ d fallback, Layer.ofDocument d fallback = .ok l :=
    fun l hl => .inl (passesErrors_refreshed l hl)
  have hbase : refreshed.HasValue "curl" .base
      { name := "curl", version := "8.5",
        inputs := .ofList [("ca", .external "certs"), ("tls", .catalog "zlib")] } := .base rfl
  have hcurl : refreshed.HasValue "curl" (.layer 1)
      { name := "curl", version := "8.6",
        inputs := .ofList [("ca", .external "certs"), ("tls", .catalog "zlib")] } :=
    hasValue_layer_iff.2
      ⟨_, _, _, rfl, .read (slotIn?_eq_some_iff.1 rfl) hbase .done, rfl⟩
  refine ⟨hc, ((lookup_eq_ok_iff_hasValue hc "wget").1 _).2 ⟨.layer 0, ?_, ?_⟩⟩
  · exact lastSlot?_eq_some_iff.1 rfl
  · exact hasValue_layer_iff.2
      ⟨_, _, _, rfl, returns_derive_iff.2 ⟨_, _, slotIn?_eq_some_iff.1 rfl, hcurl, rfl⟩, rfl⟩

end Composition

end LayeredCatalog
