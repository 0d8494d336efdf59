import LayeredCatalog.Plan
import LayeredCatalog.Proofs.Composition.Value
import Mathlib.Data.Set.Finite.List

/-!
# The plans of a composition

`HasPlan c name p` says that `p` is the plan of `name`: its final component, with
every catalog input filled by the plan of the name that the input asks for. As
with values this is a least relation, so a name on a cycle of inputs has no plan.

`Uses c a b` is the graph of inputs between final components. A name has a plan
exactly if every name reachable from it has a final component and none of them
lies on a cycle (`exists_hasPlan_iff`); finiteness of the names makes the step
from "no cycle" to "well-founded".
-/

namespace LayeredCatalog

namespace Composition

mutual

/-- The plan of a name. -/
inductive HasPlan (c : Composition) : String → Plan → Prop where
  | build {name : String} {v : Component} {filled : List (String × PlanInput)} :
      c.HasFinal name v → Fills c v.inputs.toList filled →
      HasPlan c name (Plan.build v filled)

/-- What fills a list of inputs, slot by slot. -/
inductive Fills (c : Composition) :
    List (String × InputRef) → List (String × PlanInput) → Prop where
  | nil : Fills c [] []
  | external {slot id : String} {inputs : List (String × InputRef)}
      {filled : List (String × PlanInput)} :
      Fills c inputs filled →
      Fills c ((slot, .external id) :: inputs) ((slot, .external id) :: filled)
  | catalog {slot target : String} {p : Plan} {inputs : List (String × InputRef)}
      {filled : List (String × PlanInput)} :
      HasPlan c target p → Fills c inputs filled →
      Fills c ((slot, .catalog target) :: inputs) ((slot, .component p) :: filled)

end

/-- The final component of `a` has a catalog input that asks for `b`. -/
def Uses (c : Composition) (a b : String) : Prop :=
  ∃ v slot, c.HasFinal a v ∧ (slot, .catalog b) ∈ v.inputs.toList

theorem HasFinal.contains {c : Composition} {name : String} {v : Component}
    (h : c.HasFinal name v) : c.contains name := by
  obtain ⟨s, hs, -⟩ := h
  exact contains_iff_exists_isLast.2 ⟨s, hs⟩

theorem hasPlan_iff {c : Composition} {name : String} {p : Plan} :
    c.HasPlan name p ↔
      ∃ v filled, c.HasFinal name v ∧ c.Fills v.inputs.toList filled ∧
        p = Plan.build v filled := by
  constructor
  · intro h
    cases h with
    | build hv hf => exact ⟨_, _, hv, hf, rfl⟩
  · rintro ⟨v, filled, hv, hf, rfl⟩
    exact .build hv hf

theorem fills_nil_iff {c : Composition} {filled : List (String × PlanInput)} :
    c.Fills [] filled ↔ filled = [] := by
  constructor
  · intro h
    cases h
    rfl
  · rintro rfl
    exact .nil

theorem fills_external_iff {c : Composition} {slot id : String}
    {inputs : List (String × InputRef)} {filled : List (String × PlanInput)} :
    c.Fills ((slot, .external id) :: inputs) filled ↔
      ∃ rest, c.Fills inputs rest ∧ filled = (slot, .external id) :: rest := by
  constructor
  · intro h
    cases h with
    | external hf => exact ⟨_, hf, rfl⟩
  · rintro ⟨rest, hf, rfl⟩
    exact .external hf

theorem fills_catalog_iff {c : Composition} {slot target : String}
    {inputs : List (String × InputRef)} {filled : List (String × PlanInput)} :
    c.Fills ((slot, .catalog target) :: inputs) filled ↔
      ∃ p rest, c.HasPlan target p ∧ c.Fills inputs rest ∧
        filled = (slot, .component p) :: rest := by
  constructor
  · intro h
    cases h with
    | catalog hp hf => exact ⟨_, _, hp, hf, rfl⟩
  · rintro ⟨p, rest, hp, hf, rfl⟩
    exact .catalog hp hf

mutual

/-- A name has one plan at most. -/
theorem HasPlan.unique {c : Composition} {name : String} {p p' : Plan} :
    c.HasPlan name p → c.HasPlan name p' → p = p'
  | .build hv hf, h' => by
      obtain ⟨v', filled', hv', hf', rfl⟩ := hasPlan_iff.1 h'
      rw [← hv.unique hv'] at hf' ⊢
      rw [hf.unique hf']

theorem Fills.unique {c : Composition} {inputs : List (String × InputRef)}
    {filled filled' : List (String × PlanInput)} :
    c.Fills inputs filled → c.Fills inputs filled' → filled = filled'
  | .nil, h' => (fills_nil_iff.1 h').symm
  | .external hf, h' => by
      obtain ⟨rest, hf', rfl⟩ := fills_external_iff.1 h'
      rw [hf.unique hf']
  | .catalog hp hf, h' => by
      obtain ⟨p', rest, hp', hf', rfl⟩ := fills_catalog_iff.1 h'
      rw [hp.unique hp', hf.unique hf']

end

mutual

/-- A plan depends on final components alone. -/
theorem HasPlan.of_hasFinal {c c' : Composition} {name : String} {p : Plan}
    (h : ∀ name v, c.HasFinal name v → c'.HasFinal name v) :
    c.HasPlan name p → c'.HasPlan name p
  | .build hv hf => .build (h _ _ hv) (hf.of_hasFinal h)

theorem Fills.of_hasFinal {c c' : Composition} {inputs : List (String × InputRef)}
    {filled : List (String × PlanInput)}
    (h : ∀ name v, c.HasFinal name v → c'.HasFinal name v) :
    c.Fills inputs filled → c'.Fills inputs filled
  | .nil => .nil
  | .external hf => .external (hf.of_hasFinal h)
  | .catalog hp hf => .catalog (hp.of_hasFinal h) (hf.of_hasFinal h)

end

theorem Fills.exists_of_mem {c : Composition} {inputs : List (String × InputRef)}
    {filled : List (String × PlanInput)} {slot target : String} (h : c.Fills inputs filled)
    (hmem : (slot, .catalog target) ∈ inputs) : ∃ p, c.HasPlan target p := by
  induction inputs generalizing filled with
  | nil => cases hmem
  | cons e inputs ih =>
      cases h with
      | external hf => exact ih hf (by simpa using hmem)
      | catalog hp hf =>
          rcases List.mem_cons.1 hmem with he | hmem
          · cases he
            exact ⟨_, hp⟩
          · exact ih hf hmem

theorem exists_fills {c : Composition} (inputs : List (String × InputRef))
    (h : ∀ slot target, (slot, .catalog target) ∈ inputs → ∃ p, c.HasPlan target p) :
    ∃ filled, c.Fills inputs filled := by
  induction inputs with
  | nil => exact ⟨[], .nil⟩
  | cons e inputs ih =>
      obtain ⟨slot, ref⟩ := e
      obtain ⟨rest, hf⟩ := ih fun slot target hmem => h slot target (List.mem_cons_of_mem _ hmem)
      cases ref with
      | external id => exact ⟨_, .external hf⟩
      | catalog target =>
          obtain ⟨p, hp⟩ := h slot target (List.mem_cons_self ..)
          exact ⟨_, .catalog hp hf⟩

/-- Having a plan passes on to what is used. -/
theorem HasPlan.exists_of_uses {c : Composition} {a b : String} {p : Plan}
    (h : c.HasPlan a p) (huses : c.Uses a b) : ∃ q, c.HasPlan b q := by
  obtain ⟨v, filled, hv, hf, -⟩ := hasPlan_iff.1 h
  obtain ⟨v', slot, hv', hmem⟩ := huses
  rw [← hv.unique hv'] at hmem
  exact hf.exists_of_mem hmem

mutual

/-- What a name with a plan uses, directly or not, is well-founded. -/
theorem HasPlan.acc {c : Composition} {a : String} {p : Plan} :
    c.HasPlan a p → Acc (fun b a => c.Uses a b) a
  | .build hv hf => by
      refine Acc.intro _ ?_
      rintro b ⟨v', slot, hv', hmem⟩
      rw [← hv.unique hv'] at hmem
      exact hf.acc hmem

theorem Fills.acc {c : Composition} {inputs : List (String × InputRef)}
    {filled : List (String × PlanInput)} {slot target : String} :
    c.Fills inputs filled → (slot, .catalog target) ∈ inputs →
      Acc (fun b a => c.Uses a b) target
  | .nil, hmem => by cases hmem
  | .external hf, hmem => hf.acc (List.mem_of_ne_of_mem (by simp) hmem)
  | .catalog hp hf, hmem => by
      rcases List.mem_cons.1 hmem with he | hmem
      · rw [InputRef.catalog.inj (Prod.mk.inj he).2]
        exact hp.acc
      · exact hf.acc hmem

end

/-- A name with a plan does not use itself. -/
theorem HasPlan.not_uses_self {c : Composition} {a : String} {p : Plan} (h : c.HasPlan a p) :
    ¬ Relation.TransGen c.Uses a a := by
  intro hcycle
  exact not_transGen_self_of_acc h.acc (Relation.transGen_swap.2 hcycle)

theorem finite_setOf_hasFinal (c : Composition) : {a | ∃ v, c.HasFinal a v}.Finite := by
  refine (List.finite_toSet c.names).subset ?_
  rintro a ⟨v, hv⟩
  exact contains_iff_mem_names.1 hv.contains

/-- A name has a plan exactly if all names reachable from it have final components
and none of them lies on a cycle of inputs. -/
theorem exists_hasPlan_iff {c : Composition} {a : String} :
    (∃ p, c.HasPlan a p) ↔
      ∀ b, Relation.ReflTransGen c.Uses a b →
        (∃ v, c.HasFinal b v) ∧ ¬ Relation.TransGen c.Uses b b := by
  constructor
  · rintro ⟨p, hp⟩ b hab
    have hq : ∃ q, c.HasPlan b q := by
      induction hab with
      | refl => exact ⟨p, hp⟩
      | tail _ huses ih =>
          obtain ⟨q, hq⟩ := ih
          exact hq.exists_of_uses huses
    obtain ⟨q, hq⟩ := hq
    obtain ⟨v, filled, hv, -, -⟩ := hasPlan_iff.1 hq
    exact ⟨⟨v, hv⟩, hq.not_uses_self⟩
  · intro h
    -- The names reachable from `a` are finitely many, so on them "is used by" is
    -- well-founded as soon as it has no cycle.
    let used (x y : {b // Relation.ReflTransGen c.Uses a b}) : Prop := c.Uses y.1 x.1
    have hfinite : Finite {b // Relation.ReflTransGen c.Uses a b} :=
      (c.finite_setOf_hasFinal.subset fun b hab => (h b hab).1).to_subtype
    have hwf : WellFounded used := by
      refine wellFounded_of_not_transGen_self ?_
      intro x hcycle
      refine (h x.1 x.2).2 (Relation.transGen_swap.1 ?_)
      exact hcycle.lift Subtype.val fun _ _ huses => huses
    have hall : ∀ x : {b // Relation.ReflTransGen c.Uses a b}, ∃ p, c.HasPlan x.1 p := by
      intro x
      induction x using hwf.induction with
      | _ x ih =>
          obtain ⟨v, hv⟩ := (h x.1 x.2).1
          have hinputs : ∀ slot target, (slot, .catalog target) ∈ v.inputs.toList →
              ∃ p, c.HasPlan target p := by
            intro slot target hmem
            have huses : c.Uses x.1 target := ⟨v, slot, hv, hmem⟩
            exact ih ⟨target, x.2.tail huses⟩ huses
          obtain ⟨filled, hf⟩ := exists_fills v.inputs.toList hinputs
          exact ⟨_, .build hv hf⟩
    exact hall ⟨a, .refl⟩

end Composition

end LayeredCatalog
