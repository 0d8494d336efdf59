import LayeredCatalog.Proofs.Catalog
import LayeredCatalog.Proofs.Composition.History
import LayeredCatalog.Proofs.Composition.Steps

/-!
# Resolved catalogs are consistent

Here the functions of the layers may do anything, also look at the failure of a
read. Then it can depend on the questions asked before what a lookup gives, but the
memo takes steps only, so what it keeps fits together (`Memo.IsConsistent`) and
stays. A resolved catalog is read off such a memo: its plans fill their inputs with
each other, and later lookups return their components.
-/

namespace LayeredCatalog

namespace Memo

/-- Inputs that are filled as the memo says keep their slots. -/
theorem map_fst_of_forall₂_supplies {m : Memo} {inputs : List (String × InputRef)}
    {filled : List (String × PlanInput)} (h : List.Forall₂ m.Supplies inputs filled) :
    filled.map Prod.fst = inputs.map Prod.fst := by
  refine (map_eq_map_of_forall₂ h fun input f hf => ?_).symm
  obtain ⟨slot, ref⟩ := input
  cases ref with
  | external source => rw [hf]
  | catalog target =>
      obtain ⟨p, -, rfl⟩ := hf
      rfl

theorem lookup_of_forall₂_supplies {m : Memo} {inputs : List (String × InputRef)}
    {filled : List (String × PlanInput)} {slot : String} {ref : InputRef}
    (h : List.Forall₂ m.Supplies inputs filled) (hslot : Table.find? slot inputs = some ref) :
    ∃ f, filled.lookup slot = some f ∧ m.Supplies (slot, ref) (slot, f) := by
  induction h with
  | nil => cases hslot
  | @cons input f inputs filled hf _ ih =>
      obtain ⟨slot', ref'⟩ := input
      obtain ⟨slot'', f⟩ := f
      have hslots : slot'' = slot' := by
        cases ref' with
        | external source => exact (Prod.mk.inj hf).1
        | catalog target =>
            obtain ⟨p, -, hf⟩ := hf
            exact (Prod.mk.inj hf).1
      subst hslots
      rw [Table.find?] at hslot
      split at hslot
      · next heq =>
        subst heq
        rw [← Option.some.inj hslot]
        exact ⟨f, by simp, hf⟩
      · next hne =>
        obtain ⟨f', hf', hsupplies⟩ := ih hslot
        exact ⟨f', by simpa [List.lookup_cons, beq_eq_false_iff_ne.2 hne] using hf', hsupplies⟩

theorem Holds.contains {c : Composition} {m : Memo} {name : String} {v : Component}
    (h : m.Holds c name v) : c.contains name := by
  obtain ⟨s, hs, -⟩ := h
  exact Composition.contains_iff_exists_isLast.2 ⟨s, Composition.lastSlot?_eq_some_iff.1 hs⟩

theorem Holds.name_eq {c : Composition} {m : Memo} {name : String} {v : Component}
    (h : m.Holds c name v) (hbase : c.base.IsKeyed) (hm : m.IsConsistent c) : v.name = name := by
  obtain ⟨s, -, hv⟩ := h
  cases s with
  | base => exact hbase name v hv
  | layer i => exact hm.named name i v hv

end Memo

theorem lookup_map_value {α β : Type*} (f : α → β) (l : List (String × α)) (k : String) :
    (l.map fun e => (e.1, f e.2)).lookup k = (l.lookup k).map f := by
  induction l with
  | nil => rfl
  | cons e l ih =>
      rw [List.map_cons, List.lookup_cons, List.lookup_cons, ih]
      cases k == e.1 with
      | true => rfl
      | false => rfl

namespace Composition

open Memo

theorem ask_steps (c : Composition) (q : Query) (m : Memo) : Steps c [] m (c.ask q m).2 := by
  cases q with
  | lookup name => exact (lookup_reaches c [] name m).steps
  | plan name => exact (planWith_reaches c [] name m).steps
  | resolve => exact (resolveWith_reaches c m).steps
  | contains name => exact .refl
  | names => exact .refl

theorem memoAfter_append_steps (c : Composition) (qs qs' : List Query) :
    Steps c [] (c.memoAfter qs) (c.memoAfter (qs ++ qs')) := by
  induction qs' using List.reverseRecOn with
  | nil =>
      rw [List.append_nil]
      exact .refl
  | append_singleton qs' q ih =>
      rw [← List.append_assoc, memoAfter_concat]
      exact ih.trans (ask_steps c q _)

/-- Whatever was asked before, what the memo keeps fits together. -/
theorem isConsistent_memoAfter (c : Composition) (qs : List Query) :
    (c.memoAfter qs).IsConsistent c :=
  (memoAfter_append_steps c [] qs).isConsistent (IsConsistent.empty c)

/-- A resolved catalog has the names that the base or a layer assigns. The plan of a
name is that of the component that lookups return from then on, and the component bears
the name. Its inputs have the slots of the component: a catalog input holds the plan
that the catalog itself has for the name asked for, and is listed with that name and
with that artifact; an external input is passed on. The base is a catalog as additions
build it. -/
theorem resolveWith_consistent {c : Composition} (hbase : c.base.IsKeyed) (qs qs' : List Query)
    {r : ResolvedCatalog} (hr : (c.resolveWith (c.memoAfter qs)).1 = .ok r) :
    (∀ name, r.contains name ↔
      c.base.contains name ∨ ∃ l ∈ c.layers, l.overlay.contains name) ∧
    ∀ name p, r.get? name = some p →
      (c.lookup [] name (c.memoAfter (qs ++ .resolve :: qs'))).1 = .ok p.component ∧
      p.component.name = name ∧
      p.inputs.map Prod.fst = p.component.inputs.keys ∧
      (∀ slot target, p.component.inputs.get? slot = some (.catalog target) →
        ∃ q, r.get? target = some q ∧ p.inputs.lookup slot = some (.component q) ∧
          p.inputListing.lookup slot = some (.object [("kind", .string "catalog"),
            ("name", .string target), ("artifact", .string q.artifact.render)])) ∧
      ∀ slot id, p.component.inputs.get? slot = some (.external id) →
        p.inputs.lookup slot = some (.external id) := by
  obtain ⟨hsteps, hresolved⟩ := resolveWith_reaches c (c.memoAfter qs)
  obtain ⟨hnames, hkept⟩ := hresolved r hr
  have hm := hsteps.isConsistent (isConsistent_memoAfter c qs)
  have hlater := memoAfter_append_steps c (qs ++ [.resolve]) qs'
  rw [memoAfter_concat, List.append_assoc] at hlater
  have hmade : ∀ name p, r.get? name = some p →
      (c.resolveWith (c.memoAfter qs)).2.Holds c name p.component ∧
      List.Forall₂ (c.resolveWith (c.memoAfter qs)).2.Supplies p.component.inputs.toList
        p.inputs := by
    intro name p hp
    obtain ⟨v, filled, hv, hfilled, rfl⟩ := hm.plan name p (hkept name p hp)
    exact ⟨hv, hfilled⟩
  constructor
  · intro name
    rw [hnames, contains, Bool.or_eq_true, List.any_eq_true]
  · intro name p hp
    obtain ⟨hv, hfilled⟩ := hmade name p hp
    refine ⟨?_, hv.name_eq hbase hm, map_fst_of_forall₂_supplies hfilled, ?_, ?_⟩
    · exact congrArg Prod.fst (lookup_of_holds [] (hlater.holds hv))
    · intro slot target hslot
      obtain ⟨f, hf, q, hq, hfq⟩ := lookup_of_forall₂_supplies hfilled hslot
      rw [(Prod.mk.inj hfq).2] at hf
      have hget : r.get? target = some q := by
        obtain ⟨w, -, hw, -, -⟩ := hm.plan target q hq
        obtain ⟨q', hq'⟩ := Option.isSome_iff_exists.1 ((hnames target).2 hw.contains)
        rw [hq', ← hq, hkept target q' hq']
      have hname : q.name = target := (hmade target q hget).1.name_eq hbase hm
      refine ⟨q, hget, hf, ?_⟩
      rw [Plan.inputListing, lookup_map_value, hf, Option.map_some, Plan.inputToJson, hname]
    · intro slot source hslot
      obtain ⟨f, hf, hsource⟩ := lookup_of_forall₂_supplies hfilled hslot
      rw [hf, (Prod.mk.inj hsource).2]

theorem isKeyed_base_refreshed : refreshed.base.IsKeyed :=
  (Catalog.isKeyed_empty.add _).add _

theorem resolveWith_refreshed_wget :
    refreshed.base.IsKeyed ∧ ∃ r p q,
      (refreshed.resolveWith (refreshed.memoAfter [])).1 = .ok r ∧
      r.get? "wget" = some p ∧ r.get? "zlib" = some q ∧
      p.inputs.lookup "tls" = some (.component q) := by
  have hbase := isKeyed_base_refreshed
  have hisOk : (refreshed.resolveWith (refreshed.memoAfter [])).1.isOk = true := by
    decide +kernel
  have hwget : (refreshed.lookup [] "wget" (refreshed.memoAfter [.resolve])).1 = .ok
      { name := "wget", version := "8.6",
        inputs := .ofList [("ca", .external "certs"), ("tls", .catalog "zlib")] } := by
    decide +kernel
  cases hr : (refreshed.resolveWith (refreshed.memoAfter [])).1 with
  | error e =>
      rw [hr] at hisOk
      cases hisOk
  | ok r =>
      obtain ⟨hnames, hplans⟩ := resolveWith_consistent hbase [] [] hr
      have hcontains : r.contains "wget" := (hnames "wget").2 (by decide)
      obtain ⟨p, hp⟩ := Option.isSome_iff_exists.1 hcontains
      obtain ⟨hlookup, -, -, hcatalog, -⟩ := hplans "wget" p hp
      have hslot : p.component.inputs.get? "tls" = some (.catalog "zlib") := by
        rw [← Except.ok.inj (hwget.symm.trans hlookup)]
        rfl
      obtain ⟨q, hq, htls, -⟩ := hcatalog "tls" "zlib" hslot
      exact ⟨hbase, r, p, q, rfl, hp, hq, htls⟩

end Composition

end LayeredCatalog
