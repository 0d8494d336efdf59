import LayeredCatalog.Proofs.Cycle
import LayeredCatalog.Proofs.Resolution

/-!
# Resolved catalogs are closed

Each plan of a resolved catalog is built from its component, and what fills the
catalog inputs are plans of the catalog itself (`isClosed_of_resolveWith`). A plan
holds the plans that fill it, so it is larger than each of them. This alone keeps the
inputs of a closed catalog from going round in a circle (`IsClosed.not_uses_self`),
whatever the layers did.
-/

namespace LayeredCatalog

namespace Plan

/-- The plan `q` fills an input of the plan `p`. -/
def Feeds (q p : Plan) : Prop := ∃ slot, (slot, PlanInput.component q) ∈ p.inputs

theorem Feeds.sizeOf_lt {q p : Plan} (h : q.Feeds p) : sizeOf q < sizeOf p := by
  obtain ⟨slot, hmem⟩ := h
  cases p with
  | make component inputs artifact =>
      have hlt : sizeOf (slot, PlanInput.component q) < sizeOf inputs := List.sizeOf_lt_of_mem hmem
      simp only [Prod.mk.sizeOf_spec, PlanInput.component.sizeOf_spec] at hlt
      simp only [make.sizeOf_spec]
      omega

end Plan

namespace ResolvedCatalog

/-- An input is filled from outside, or by the catalog's own plan of the name that it
asks for. -/
def Supplies (r : ResolvedCatalog) (input : String × InputRef) (filled : String × PlanInput) :
    Prop :=
  match input with
  | (slot, .external id) => filled = (slot, .external id)
  | (slot, .catalog target) => ∃ q, r.get? target = some q ∧ filled = (slot, .component q)

/-- Every plan is built from its component and from plans of the catalog. -/
def IsClosed (r : ResolvedCatalog) : Prop :=
  ∀ name p, r.get? name = some p →
    ∃ v filled, List.Forall₂ r.Supplies v.inputs.toList filled ∧ p = Plan.build v filled

/-- The component of `a` has a catalog input that asks for `b`. -/
def Uses (r : ResolvedCatalog) (a b : String) : Prop :=
  ∃ p slot, r.get? a = some p ∧ p.component.inputs.get? slot = some (.catalog b)

theorem IsClosed.exists_feeds {r : ResolvedCatalog} (h : r.IsClosed) {a b : String}
    (huses : r.Uses a b) : ∃ p q, r.get? a = some p ∧ r.get? b = some q ∧ q.Feeds p := by
  obtain ⟨p, slot, hp, hslot⟩ := huses
  obtain ⟨v, filled, hfilled, rfl⟩ := h a p hp
  obtain ⟨f, hf, q, hq, rfl⟩ := exists_mem_of_forall₂ hfilled (Table.get?_eq_some_iff.1 hslot)
  exact ⟨_, q, hp, hq, slot, hf⟩

/-- What fills an input of a closed catalog is a plan of the catalog. -/
theorem IsClosed.exists_get?_of_feeds {r : ResolvedCatalog} (h : r.IsClosed) {n : String}
    {p q : Plan} (hp : r.get? n = some p) (hq : q.Feeds p) : ∃ m, r.get? m = some q := by
  obtain ⟨v, filled, hfilled, rfl⟩ := h n p hp
  obtain ⟨slot, hmem⟩ := hq
  obtain ⟨⟨slot', ref⟩, -, hsupplies⟩ := exists_mem_of_forall₂ hfilled.flip hmem
  cases ref with
  | external id => cases hsupplies
  | catalog target =>
      obtain ⟨q', hq', heq⟩ := hsupplies
      cases heq
      exact ⟨target, hq'⟩

/-- What a closed catalog uses, it has. -/
theorem IsClosed.contains_of_uses {r : ResolvedCatalog} (h : r.IsClosed) {a b : String}
    (huses : r.Uses a b) : r.contains b := by
  obtain ⟨p, q, -, hq, -⟩ := h.exists_feeds huses
  rw [Table.contains, hq]
  rfl

theorem IsClosed.not_uses_self {r : ResolvedCatalog} (h : r.IsClosed) (a : String) :
    ¬ Relation.TransGen r.Uses a a := by
  have hlt : ∀ b a, Function.swap r.Uses b a → sizeOf (r.get? b) < sizeOf (r.get? a) := by
    intro b a huses
    obtain ⟨p, q, hp, hq, hfeeds⟩ := h.exists_feeds huses
    simpa [hp, hq] using hfeeds.sizeOf_lt
  intro hcycle
  exact not_transGen_self_of_lt (fun a => sizeOf (r.get? a)) hlt a (Relation.transGen_swap.2 hcycle)

end ResolvedCatalog

namespace Composition

/-- Whatever the layers do and whatever was asked before, a resolved catalog is
closed. -/
theorem isClosed_of_resolveWith {c : Composition} (qs : List Query) {r : ResolvedCatalog}
    (hr : (c.resolveWith (c.memoAfter qs)).1 = .ok r) : r.IsClosed := by
  obtain ⟨hsteps, hresolved⟩ := resolveWith_reaches c (c.memoAfter qs)
  obtain ⟨hnames, hkept⟩ := hresolved r hr
  have hm := hsteps.isConsistent (isConsistent_memoAfter c qs)
  have hown : ∀ name q, (c.resolveWith (c.memoAfter qs)).2.plans.lookup name = some q →
      r.get? name = some q := by
    intro name q hq
    obtain ⟨w, -, hw, -⟩ := hm.plan name q hq
    obtain ⟨q', hq'⟩ := Option.isSome_iff_exists.1 ((hnames name).2 hw.contains)
    rw [hq', ← hq, hkept name q' hq']
  intro name p hp
  obtain ⟨v, filled, -, hfilled, rfl⟩ := hm.plan name p (hkept name p hp)
  refine ⟨v, filled, hfilled.imp ?_, rfl⟩
  rintro ⟨slot, ref⟩ f hf
  cases ref with
  | external id => exact hf
  | catalog target =>
      obtain ⟨q, hq, rfl⟩ := hf
      exact ⟨q, hown target q hq, rfl⟩

end Composition

end LayeredCatalog
