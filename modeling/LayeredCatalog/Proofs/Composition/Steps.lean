import LayeredCatalog.Proofs.Composition.Slots
import LayeredCatalog.Resolution
import Mathlib.Data.List.Forall2
import Mathlib.Logic.Relation

/-!
# What evaluation does to the memo

Whatever the functions of the layers do, an evaluation changes the memo in steps
of three kinds: it notes an event, keeps a value in an empty cell, or keeps a plan
in an empty cell, made of what the memo holds by then. `Memo.Step c stack` is one
such step while the frames of `stack` are in progress, whose cells stay empty. So
what holds of a memo and survives each kind of step survives every evaluation, and
a filled cell never changes.
-/

namespace LayeredCatalog

namespace Memo

/-- The memo has the value of a name in a slot. Values of the base are always there. -/
def HoldsAt (c : Composition) (m : Memo) (name : String) : Slot → Component → Prop
  | .base, v => c.base.get? name = some v
  | .layer i, v => m.values.lookup (name, i) = some v

/-- The memo has the value of a name in the final view. -/
def Holds (c : Composition) (m : Memo) (name : String) (v : Component) : Prop :=
  ∃ s, c.lastSlot? name = some s ∧ m.HoldsAt c name s v

/-- An input is filled as the memo says: from outside, or by the plan that is kept
for the name it asks for. -/
def Supplies (m : Memo) (input : String × InputRef) (filled : String × PlanInput) : Prop :=
  match input with
  | (slot, .external id) => filled = (slot, .external id)
  | (slot, .catalog target) =>
      ∃ p, m.plans.lookup target = some p ∧ filled = (slot, .component p)

/-- One change of the memo, with the frames of the stack in progress. -/
inductive Step (c : Composition) (stack : List Frame) : Memo → Memo → Prop where
  | note (m : Memo) (e : Event) : Step c stack m (m.note e)
  | keepValue {m : Memo} {name : String} {i : Nat} {v : Component} :
      .define name i ∉ stack → m.values.lookup (name, i) = none → v.name = name →
      Step c stack m (m.keepValue name i v)
  | keepPlan {m : Memo} {name : String} {v : Component} {filled : List (String × PlanInput)} :
      .plan name ∉ stack → m.plans.lookup name = none → m.Holds c name v →
      List.Forall₂ m.Supplies v.inputs.toList filled →
      Step c stack m (m.keepPlan name (Plan.build v filled))

/-- Any number of changes of the memo. -/
def Steps (c : Composition) (stack : List Frame) : Memo → Memo → Prop :=
  Relation.ReflTransGen (Step c stack)

section Step

variable {c : Composition} {stack : List Frame} {m m' : Memo}

theorem Step.values {cell : String × Nat} {v : Component} (h : Step c stack m m')
    (hv : m.values.lookup cell = some v) : m'.values.lookup cell = some v := by
  cases h with
  | note e => exact hv
  | keepPlan _ _ _ _ => exact hv
  | keepValue _ hempty _ =>
      rw [lookup_keepValue]
      split
      · next hcell =>
        rw [hcell, hempty] at hv
        cases hv
      · exact hv

theorem Step.plans {name : String} {p : Plan} (h : Step c stack m m')
    (hp : m.plans.lookup name = some p) : m'.plans.lookup name = some p := by
  cases h with
  | note e => exact hp
  | keepValue _ _ _ => exact hp
  | keepPlan _ hempty _ _ =>
      rw [lookup_keepPlan]
      split
      · next hname =>
        rw [hname, hempty] at hp
        cases hp
      · exact hp

/-- The cell of a definition in progress does not change. -/
theorem Step.values_of_mem {name : String} {i : Nat} (h : Step c stack m m')
    (hs : .define name i ∈ stack) :
    m'.values.lookup (name, i) = m.values.lookup (name, i) := by
  cases h with
  | note e => rfl
  | keepPlan _ _ _ _ => rfl
  | keepValue hfree _ _ =>
      rw [lookup_keepValue, if_neg]
      intro hcell
      obtain ⟨rfl, rfl⟩ := Prod.mk.inj hcell
      exact hfree hs

/-- The cell of a plan in progress does not change. -/
theorem Step.plans_of_mem {name : String} (h : Step c stack m m') (hs : .plan name ∈ stack) :
    m'.plans.lookup name = m.plans.lookup name := by
  cases h with
  | note e => rfl
  | keepValue _ _ _ => rfl
  | keepPlan hfree _ _ _ =>
      rw [lookup_keepPlan, if_neg]
      rintro rfl
      exact hfree hs

theorem Step.trace (h : Step c stack m m') : m.trace <:+ m'.trace := by
  cases h with
  | note e => exact List.suffix_cons e m.trace
  | keepValue _ _ _ => exact List.suffix_rfl
  | keepPlan _ _ _ _ => exact List.suffix_rfl

theorem Step.of_cons {frame : Frame} (h : Step c (frame :: stack) m m') : Step c stack m m' := by
  cases h with
  | note e => exact .note m e
  | keepValue hfree hempty hname =>
      exact .keepValue (fun hs => hfree (List.mem_cons_of_mem _ hs)) hempty hname
  | keepPlan hfree hempty hv hfilled =>
      exact .keepPlan (fun hs => hfree (List.mem_cons_of_mem _ hs)) hempty hv hfilled

end Step

section Steps

variable {c : Composition} {stack : List Frame} {m m' : Memo}

/-- A filled cell of a value does not change. -/
theorem Steps.values {cell : String × Nat} {v : Component} (h : Steps c stack m m')
    (hv : m.values.lookup cell = some v) : m'.values.lookup cell = some v := by
  induction h with
  | refl => exact hv
  | tail _ hstep ih => exact hstep.values ih

/-- A filled cell of a plan does not change. -/
theorem Steps.plans {name : String} {p : Plan} (h : Steps c stack m m')
    (hp : m.plans.lookup name = some p) : m'.plans.lookup name = some p := by
  induction h with
  | refl => exact hp
  | tail _ hstep ih => exact hstep.plans ih

theorem Steps.values_of_mem {name : String} {i : Nat} (h : Steps c stack m m')
    (hs : .define name i ∈ stack) :
    m'.values.lookup (name, i) = m.values.lookup (name, i) := by
  induction h with
  | refl => rfl
  | tail _ hstep ih => exact (hstep.values_of_mem hs).trans ih

theorem Steps.plans_of_mem {name : String} (h : Steps c stack m m') (hs : .plan name ∈ stack) :
    m'.plans.lookup name = m.plans.lookup name := by
  induction h with
  | refl => rfl
  | tail _ hstep ih => exact (hstep.plans_of_mem hs).trans ih

/-- What was noted stays noted. -/
theorem Steps.trace (h : Steps c stack m m') : m.trace <:+ m'.trace := by
  induction h with
  | refl => exact List.suffix_rfl
  | tail _ hstep ih => exact ih.trans hstep.trace

theorem Steps.of_cons {frame : Frame} (h : Steps c (frame :: stack) m m') :
    Steps c stack m m' :=
  Relation.ReflTransGen.mono (fun _ _ hstep => hstep.of_cons) _ _ h

/-- Steps stay steps when nothing is known to be in progress. -/
theorem Steps.forget (h : Steps c stack m m') : Steps c [] m m' := by
  induction stack with
  | nil => exact h
  | cons frame stack ih => exact ih h.of_cons

theorem Steps.holds {name : String} {v : Component} (h : Steps c stack m m')
    (hv : m.Holds c name v) : m'.Holds c name v := by
  obtain ⟨s, hs, hv⟩ := hv
  refine ⟨s, hs, ?_⟩
  cases s with
  | base => exact hv
  | layer i => exact h.values hv

theorem Steps.supplies {input : String × InputRef} {filled : String × PlanInput}
    (h : Steps c stack m m') (hf : m.Supplies input filled) : m'.Supplies input filled := by
  obtain ⟨slot, ref⟩ := input
  cases ref with
  | external source => exact hf
  | catalog target =>
      obtain ⟨p, hp, hf⟩ := hf
      exact ⟨p, h.plans hp, hf⟩

end Steps

/-- What the memo keeps fits together: a value bears the name it is kept for, and a
plan is made of the final component of its name and of the plans that are kept for
the names its inputs ask for. -/
structure IsConsistent (c : Composition) (m : Memo) : Prop where
  named : ∀ name i v, m.values.lookup (name, i) = some v → v.name = name
  plan : ∀ name p, m.plans.lookup name = some p →
    ∃ v filled, m.Holds c name v ∧ List.Forall₂ m.Supplies v.inputs.toList filled ∧
      p = Plan.build v filled

theorem IsConsistent.empty (c : Composition) : IsConsistent c {} := by
  constructor
  · intro name i v h
    cases h
  · intro name p h
    cases h

theorem Step.isConsistent {c : Composition} {stack : List Frame} {m m' : Memo}
    (h : Step c stack m m') (hm : m.IsConsistent c) : m'.IsConsistent c := by
  -- A plan made of what `m` holds is made of what `m'` holds, since no cell changes.
  have hmade : ∀ name p, (∃ v filled, m.Holds c name v ∧
      List.Forall₂ m.Supplies v.inputs.toList filled ∧ p = Plan.build v filled) →
      ∃ v filled, m'.Holds c name v ∧
        List.Forall₂ m'.Supplies v.inputs.toList filled ∧ p = Plan.build v filled := by
    rintro name p ⟨v, filled, hv, hfilled, rfl⟩
    have hsteps : Steps c stack m m' := .single h
    exact ⟨v, filled, hsteps.holds hv, hfilled.imp fun _ _ => hsteps.supplies, rfl⟩
  cases h with
  | note e => exact ⟨hm.named, hm.plan⟩
  | @keepValue name i v hfree hempty hname =>
      refine ⟨?_, fun name' p hp => hmade name' p (hm.plan name' p hp)⟩
      intro name' i' v' hv'
      rw [lookup_keepValue] at hv'
      split at hv'
      · next hcell =>
        obtain ⟨rfl, rfl⟩ := Prod.mk.inj hcell
        rw [← Option.some.inj hv']
        exact hname
      · exact hm.named name' i' v' hv'
  | @keepPlan name v filled hfree hempty hv hfilled =>
      refine ⟨hm.named, ?_⟩
      intro name' p hp
      rw [lookup_keepPlan] at hp
      split at hp
      · next hname =>
        rw [hname]
        exact hmade name p ⟨v, filled, hv, hfilled, (Option.some.inj hp).symm⟩
      · exact hmade name' p (hm.plan name' p hp)

theorem Steps.isConsistent {c : Composition} {stack : List Frame} {m m' : Memo}
    (h : Steps c stack m m') (hm : m.IsConsistent c) : m'.IsConsistent c := by
  induction h with
  | refl => exact hm
  | tail _ hstep ih => exact hstep.isConsistent ih

/-- An evaluation with the result `r` changed the memo `m` in steps, and what it
returns has the property `post` in the memo that it left. -/
structure Reaches {ε α : Type} (c : Composition) (stack : List Frame)
    (post : Memo → α → Prop) (m : Memo) (r : Except ε α × Memo) : Prop where
  steps : Steps c stack m r.2
  returned : ∀ v, r.1 = .ok v → post r.2 v

section Reaches

variable {ε ε' α β : Type} {c : Composition} {stack : List Frame} {m m' : Memo}
  {post : Memo → α → Prop}

theorem Steps.reaches_error (h : Steps c stack m m') (e : ε) :
    Reaches c stack post m (.error e, m') := by
  refine ⟨h, ?_⟩
  intro v hv
  cases hv

theorem Steps.reaches_ok {v : α} (h : Steps c stack m m') (hv : post m' v) :
    Reaches c stack post m ((.ok v : Except ε α), m') := by
  refine ⟨h, ?_⟩
  intro w hw
  rw [← Except.ok.inj hw]
  exact hv

theorem Steps.reaches {r : Except ε α × Memo} (h : Steps c stack m m')
    (hr : Reaches c stack post m' r) : Reaches c stack post m r :=
  ⟨h.trans hr.steps, hr.returned⟩

theorem Reaches.onSuccess {r : Except ε α × Memo} {f : α → β} {post' : Memo → β → Prop}
    (h : Reaches c stack post m r) (hf : ∀ v, post r.2 v → post' r.2 (f v)) :
    Reaches c stack post' m (onSuccess f r) := by
  refine ⟨h.steps, ?_⟩
  intro w hw
  obtain ⟨v, hv, rfl⟩ := onSuccess_eq_ok_iff.1 hw
  exact hf v (h.returned v hv)

end Reaches

end Memo

namespace Composition

open Memo

section Run

variable {c : Composition} {stack : List Frame}
  {answer : Origin → Memo → Except LayerFailure Component × Memo}
  {isDefinedBelow : String → Bool}

theorem run_reading_steps {α : Type} (hanswer : ∀ o m, Steps c stack m (answer o m).2)
    (r : Reading α) (m : Memo) : Steps c stack m (r.run answer isDefinedBelow m).2 := by
  induction r generalizing m with
  | done result => exact .refl
  | read o next ih => exact (hanswer o m).trans (ih (answer o m).1 (answer o m).2)
  | definedBelow name next ih => exact ih _ m

theorem run_contribution_steps (hanswer : ∀ o m, Steps c stack m (answer o m).2)
    (k : Contribution) (name : String) (i : Nat) (m : Memo) :
    Steps c stack m (k.run answer isDefinedBelow i (·.note (.start name i)) m).2 := by
  cases k with
  | constant component => exact .refl
  | compute body =>
      exact .head (.note m (.start name i)) (run_reading_steps hanswer (body i) _)
  | derive o t =>
      have hread := hanswer o m
      rw [Contribution.run]
      split
      · next failure m' h =>
        rw [h] at hread
        exact hread
      · next old m' h =>
        rw [h] at hread
        cases t with
        | replace f => exact hread.tail (.note m' (.start name i))
        | merge patch => exact hread

end Run

/-- A successful conclusion keeps the value; a failure keeps nothing. -/
theorem concludeValue_reaches {c : Composition} {stack : List Frame} {m : Memo} {name : String}
    {i : Nat} (layerName : String) (result : Except LayerFailure Component × Memo)
    (hfree : .define name i ∉ stack) (hempty : m.values.lookup (name, i) = none)
    (hrun : Steps c (.define name i :: stack) m result.2) :
    Reaches c stack (fun m v => m.HoldsAt c name (.layer i) v) m
      (concludeValue name i layerName result) := by
  obtain ⟨a, m'⟩ := result
  have hempty' : m'.values.lookup (name, i) = none :=
    (hrun.values_of_mem (List.mem_cons_self ..)).trans hempty
  cases a with
  | error failure => exact Steps.reaches_error (hrun.of_cons.tail (.note _ _)) _
  | ok v =>
      have hkeep := Step.keepValue (c := c) (v := { v with name }) hfree hempty' rfl
      refine Steps.reaches_ok ((hrun.of_cons.tail hkeep).tail (.note _ _)) ?_
      exact (lookup_keepValue m' name i _ (name, i)).trans (if_pos rfl)

/-- Evaluation takes steps, and the value it returns is in the memo afterwards. -/
theorem valueAt_reaches (c : Composition) (stack : List Frame) (name : String) (s : Slot)
    (m : Memo) :
    Reaches c stack (fun m v => m.HoldsAt c name s v) m (c.valueAt stack name s m) := by
  induction hfree : (c.freeCells stack).length using Nat.strong_induction_on
    generalizing stack name s m with
  | _ free ih =>
  subst hfree
  cases s with
  | base =>
      rw [valueAt]
      split
      · next v hv => exact Steps.reaches_ok .refl hv
      · exact Steps.reaches_error .refl _
  | layer i =>
      cases hm : m.values.lookup (name, i) with
      | some v =>
          rw [valueAt_of_kept hm]
          exact Steps.reaches_ok .refl hm
      | none =>
          cases hk : c.contribution? i name with
          | none =>
              rw [valueAt_of_contribution?_none hm hk]
              exact Steps.reaches_error .refl _
          | some x =>
              obtain ⟨l, k⟩ := x
              by_cases hs : .define name i ∈ stack
              · rw [valueAt_of_mem_stack hm hk hs]
                exact Steps.reaches_error .refl _
              · rw [valueAt_of_contribution? hm hk hs]
                have hanswer : ∀ o m, Steps c (.define name i :: stack) m
                    (c.answer i (c.valueAt (.define name i :: stack)) o m).2 := by
                  intro o m
                  rw [answer]
                  split
                  · exact .refl
                  · exact (ih _ (length_freeCells_lt hk hs) _ _ _ _ rfl).steps
                refine concludeValue_reaches l.name _ hs hm ?_
                exact .head (.note m _) (run_contribution_steps hanswer k name i _)

theorem valueAt_of_holdsAt {c : Composition} {m : Memo} {name : String} {s : Slot}
    {v : Component} (stack : List Frame) (h : m.HoldsAt c name s v) :
    c.valueAt stack name s m = (.ok v, m) := by
  cases s with
  | base =>
      have hv : c.base.get? name = some v := h
      rw [valueAt, hv]
  | layer i => exact valueAt_of_kept h

theorem lookup_reaches (c : Composition) (stack : List Frame) (name : String) (m : Memo) :
    Reaches c stack (fun m v => m.Holds c name v) m (c.lookup stack name m) := by
  rw [lookup]
  split
  · exact Steps.reaches_error .refl _
  · next s hs =>
    have hvalue := valueAt_reaches c stack name s m
    exact ⟨hvalue.steps, fun v hv => ⟨s, hs, hvalue.returned v hv⟩⟩

theorem lookup_of_holds {c : Composition} {m : Memo} {name : String} {v : Component}
    (stack : List Frame) (h : m.Holds c name v) : c.lookup stack name m = (.ok v, m) := by
  obtain ⟨s, hs, hv⟩ := h
  rw [lookup, hs]
  exact valueAt_of_holdsAt stack hv

/-- Inputs are filled as the memo says that is left. -/
theorem fill_reaches {c : Composition} {stack : List Frame}
    {plan : String → Memo → Except ResolutionError Plan × Memo} (referencedBy : String)
    (hplan : ∀ target m,
      Reaches c stack (fun m p => m.plans.lookup target = some p) m (plan target m))
    (inputs : List (String × InputRef)) (m : Memo) :
    Reaches c stack (fun m filled => List.Forall₂ m.Supplies inputs filled) m
      (c.fill plan referencedBy inputs m) := by
  induction inputs generalizing m with
  | nil => exact Steps.reaches_ok .refl .nil
  | cons input inputs ih =>
      obtain ⟨slot, ref⟩ := input
      cases ref with
      | external source =>
          rw [fill]
          exact (ih m).onSuccess fun rest hrest => .cons rfl hrest
      | catalog target =>
          rw [fill]
          by_cases htarget : c.contains target
          · rw [if_pos htarget]
            have htargetPlan := hplan target m
            split
            · next e m' hrun =>
              rw [hrun] at htargetPlan
              exact Steps.reaches_error htargetPlan.steps _
            · next p m' hrun =>
              rw [hrun] at htargetPlan
              refine htargetPlan.steps.reaches ((ih m').onSuccess fun rest hrest => ?_)
              have hp := (ih m').steps.plans (htargetPlan.returned p rfl)
              exact .cons ⟨p, hp, rfl⟩ hrest
          · rw [if_neg htarget]
            exact Steps.reaches_error .refl _

/-- A successful conclusion keeps the plan; a failure keeps nothing. -/
theorem concludePlan_reaches {c : Composition} {stack : List Frame} {m : Memo} {name : String}
    {v : Component} (result : Except ResolutionError (List (String × PlanInput)) × Memo)
    (hfree : .plan name ∉ stack) (hempty : m.plans.lookup name = none)
    (hrun : Reaches c (.plan name :: stack)
      (fun m filled => List.Forall₂ m.Supplies v.inputs.toList filled) m result)
    (hv : result.2.Holds c name v) :
    Reaches c stack (fun m p => m.plans.lookup name = some p) m
      (concludePlan name v result) := by
  obtain ⟨a, m'⟩ := result
  have hsteps := hrun.steps.of_cons
  have hempty' : m'.plans.lookup name = none :=
    (hrun.steps.plans_of_mem (List.mem_cons_self ..)).trans hempty
  cases a with
  | error e => exact Steps.reaches_error (hsteps.tail (.note _ _)) _
  | ok filled =>
      have hkeep := Step.keepPlan hfree hempty' hv (hrun.returned filled rfl)
      refine Steps.reaches_ok ((hsteps.tail hkeep).tail (.note _ _)) ?_
      exact (lookup_keepPlan m' name _ name).trans (if_pos rfl)

/-- Planning takes steps, and the plan it returns is in the memo afterwards. -/
theorem planWith_reaches (c : Composition) (stack : List Frame) (name : String) (m : Memo) :
    Reaches c stack (fun m p => m.plans.lookup name = some p) m (c.planWith stack name m) := by
  induction hfree : (c.freeNames stack).length using Nat.strong_induction_on
    generalizing stack name m with
  | _ free ih =>
  subst hfree
  by_cases hname : c.contains name
  · cases hm : m.plans.lookup name with
    | some q =>
        rw [planWith_of_kept hname hm]
        exact Steps.reaches_ok .refl hm
    | none =>
        by_cases hs : .plan name ∈ stack
        · rw [planWith_of_mem_stack hname hm hs]
          exact Steps.reaches_error .refl _
        · rw [planWith_of_not_mem_stack hname hm hs, makePlan]
          have henter : Steps c (.plan name :: stack) m (m.note (.enter (.plan name))) :=
            .single (.note m _)
          have hlookup := henter.reaches (lookup_reaches c (.plan name :: stack) name _)
          split
          · next e m' hrun =>
            rw [hrun] at hlookup
            exact Steps.reaches_error (hlookup.steps.of_cons.tail (.note _ _)) _
          · next v m' hrun =>
            rw [hrun] at hlookup
            have hfill := fill_reaches name
              (fun target m => ih _ (length_freeNames_lt hname hs) _ target m rfl)
              v.inputs.toList m'
            exact concludePlan_reaches _ hs hm (hlookup.steps.reaches hfill)
              (hfill.steps.holds (hlookup.returned v rfl))
  · rw [planWith_of_not_contains hname]
    exact Steps.reaches_error .refl _

theorem plans_reaches (c : Composition) (names : List String) (m : Memo) :
    Reaches c [] (fun m ps => ps.map Prod.fst = names ∧
      ∀ e ∈ ps, m.plans.lookup e.1 = some e.2) m (c.plans names m) := by
  induction names generalizing m with
  | nil => exact Steps.reaches_ok .refl (by simp)
  | cons name names ih =>
      have hplan := planWith_reaches c [] name m
      rw [plans]
      split
      · next e m' hrun =>
        rw [hrun] at hplan
        exact Steps.reaches_error hplan.steps _
      · next p m' hrun =>
        rw [hrun] at hplan
        refine hplan.steps.reaches ((ih m').onSuccess ?_)
        rintro ps ⟨hnames, hps⟩
        have hp := (ih m').steps.plans (hplan.returned p rfl)
        exact ⟨congrArg (name :: ·) hnames, List.forall_mem_cons.2 ⟨hp, hps⟩⟩

/-- A resolved catalog has the plans that the memo keeps afterwards, for all names. -/
theorem resolveWith_reaches (c : Composition) (m : Memo) :
    Reaches c [] (fun m r => (∀ name, r.contains name ↔ c.contains name) ∧
      ∀ name p, r.get? name = some p → m.plans.lookup name = some p) m (c.resolveWith m) := by
  refine (plans_reaches c c.names m).onSuccess ?_
  rintro ps ⟨hnames, hps⟩
  constructor
  · intro name
    rw [contains_iff_mem_names, ← hnames, Table.contains_ofList]
    simp
  · intro name p hget
    exact hps (name, p) (Table.mem_of_get?_ofList hget)

end Composition

end LayeredCatalog
