import LayeredCatalog.Proofs.Composition.Applied
import LayeredCatalog.Proofs.Composition.Cycles
import LayeredCatalog.Proofs.Composition.Kept

/-!
# Layers that only look back

If everything that the layers read is in the previous view, evaluation on demand gives
what the layers give when they are applied one after another
(`Composition.lookup_eq_applied`). The evaluator works from the last slot of a name
downwards and may never meet a slot that is covered; the other way works upwards and
meets every slot.

What a definition reads lies below its layer, so the induction is on the index of the
layer, and no frame can come back. The functions of the layers may do anything
with the failures of their reads, since these failures are the same on every memo.
Cycles are left to the inputs of components, if no function makes one up.
-/

namespace LayeredCatalog

/-- A memo keeps nothing but what the layers give when they are applied in order. -/
def Memo.IsApplied (c : Composition) (m : Memo) : Prop :=
  ∀ name i v, m.values.lookup (name, i) = some v → c.resultAt name (.layer i) = .ok v

namespace Results

/-- The component of `a` has a catalog input that asks for `b`. -/
def Uses (results : Results) (a b : String) : Prop :=
  ∃ v slot, results.get? a = some (.ok v) ∧ (slot, .catalog b) ∈ v.inputs.toList

/-- No name is reported to lie on a cycle. -/
def IsAcyclic (results : Results) : Prop :=
  ∀ name target path, results.get? name ≠ some (.error (.cycle target path))

theorem IsAcyclic.tell_ne {results : Results} (h : results.IsAcyclic) (o : Origin)
    {failure : LayerFailure} (hfailure : failure.IsCycle) :
    results.tell o ≠ .error failure := by
  obtain ⟨target, path, rfl⟩ := hfailure
  intro htell
  rw [tell] at htell
  split at htell
  · cases htell
  · next result hresult =>
    cases result with
    | ok v => cases htell
    | error e =>
        obtain rfl : e = .cycle target path := LayerFailure.fault.inj (Except.error.inj htell)
        exact h o.name target path hresult

end Results

theorem Layer.resultOn_ne_cycle {l : Layer} {i : Nat} {below : Results} {k : Contribution}
    (hbelow : below.IsAcyclic) (hk : k.RaisesOnly fun failure => ¬ failure.IsCycle)
    (name target : String) (path : List String) :
    l.resultOn i below name k ≠ .error (.cycle target path) := by
  obtain ⟨ts, hts, hanswers⟩ :=
    (k.toReading i).evaluate_leadsTo below.tell below.contains
  rw [resultOn, Contribution.applyTo_eq_evaluate]
  intro h
  split at h
  · next failure hfailure =>
    have hfault := LayerFailure.eq_fault_of_blame_eq_cycle (Except.error.inj h)
    have hcycle : failure.IsCycle := ⟨target, path, hfault⟩
    rw [hfailure] at hts
    rcases hk.cases hts with ⟨o, hmem⟩ | hown | ⟨o, patch, old, field, -, -, hambiguous⟩
    · exact hbelow.tell_ne o hcycle (hanswers _ hmem).symm
    · exact hown hcycle
    · cases hambiguous.symm.trans hfault
  · cases h

namespace Composition

section Run

variable {σ : Type} {P : σ → Prop} {answer : Origin → σ → Except LayerFailure Component × σ}

theorem run_reading_settles {α : Type} {told : Origin → Except LayerFailure Component}
    {below : String → Bool}
    (hanswer : ∀ o, o.view = .previous → Settles P (answer o) (told o))
    (r : Reading α) (hr : r.LooksBack) :
    Settles P (r.run answer below) (r.evaluate told below) := by
  induction r with
  | done result => exact fun s hs => ⟨rfl, hs⟩
  | read o next ih =>
      exact (hanswer o hr.1).bind (g := fun a => (next a).run answer below)
        (ih (told o) (hr.2 _))
  | definedBelow name next ih => exact ih (below name) (hr _)

theorem run_contribution_settles {below : Results} {i : Nat} {start : σ → σ}
    (hanswer : ∀ o, o.view = .previous → Settles P (answer o) (below.tell o))
    (hstart : ∀ s, P s → P (start s)) (k : Contribution) (hk : k.LooksBack) :
    Settles P (k.run answer below.contains i start) (k.applyTo below i) := by
  cases k with
  | constant component => exact fun s hs => ⟨rfl, hs⟩
  | compute body =>
      show Settles P (fun s => (body i).run answer below.contains (start s)) _
      exact (run_reading_settles hanswer (body i) (hk i)).before hstart
  | derive o t =>
      intro s hs
      obtain ⟨hread, hs'⟩ := hanswer o (Contribution.looksBack_derive_iff.1 hk) s hs
      rw [Contribution.run, Contribution.applyTo, ← hread]
      split
      · next failure s' h =>
        rw [h] at hs' ⊢
        exact ⟨rfl, hs'⟩
      · next old s' h =>
        rw [h] at hs' ⊢
        refine ⟨rfl, ?_⟩
        cases t with
        | replace f => exact hstart s' hs'
        | merge patch => exact hs'

theorem answer_settles {c : Composition} {i : Nat}
    {value : String → Slot → σ → Except ResolutionError Component × σ} {o : Origin}
    (ho : o.view = .previous)
    (hvalue : ∀ s, c.Shows i o s → Settles P (value o.name s) (c.resultAt o.name s)) :
    Settles P (c.answer i value o) ((c.appliedBelow i).tell o) := by
  obtain ⟨view, name⟩ := o
  obtain rfl : view = .previous := ho
  intro m hm
  rw [answer, Results.tell, get?_appliedBelow, slotIn?]
  cases hslot : c.slotBelow? i name with
  | none => exact ⟨rfl, hm⟩
  | some s =>
      obtain ⟨hresult, hm'⟩ := hvalue s (slotBelow?_eq_some_iff.1 hslot) m hm
      exact ⟨congrArg (Except.mapError LayerFailure.fault) hresult, hm'⟩

end Run

section Values

variable {c : Composition}

theorem concludeValue_settles {name : String} {i : Nat} {l : Layer} {k : Contribution}
    {run : Memo → Except LayerFailure Component × Memo}
    (hk : c.contribution? i name = some (l, k))
    (hrun : Settles (Memo.IsApplied c) run (k.applyTo (c.appliedBelow i) i)) :
    Settles (Memo.IsApplied c) (fun m => concludeValue name i l.name (run m))
      (c.resultAt name (.layer i)) := by
  intro m hm
  obtain ⟨hresult, hm'⟩ := hrun m hm
  have hvalue := resultAt_layer hk
  rw [Layer.resultOn, ← hresult] at hvalue
  show (concludeValue name i l.name (run m)).1 = _ ∧
    (concludeValue name i l.name (run m)).2.IsApplied c
  generalize run m = result at hvalue hm' ⊢
  obtain ⟨a, m'⟩ := result
  cases a with
  | error failure => exact ⟨hvalue.symm, hm'⟩
  | ok v =>
      refine ⟨hvalue.symm, ?_⟩
      intro name' i' v' hlookup
      rw [concludeValue, Memo.note, Memo.lookup_keepValue] at hlookup
      split at hlookup
      · next hcell =>
        obtain ⟨rfl, rfl⟩ := Prod.mk.inj hcell
        rw [hvalue, ← Option.some.inj hlookup]
      · exact hm' name' i' v' hlookup

theorem valueAt_base_settles (stack : List Frame) {name : String} (hs : c.Defines name .base) :
    Settles (Memo.IsApplied c) (c.valueAt stack name .base) (c.resultAt name .base) := by
  obtain ⟨v, hv⟩ := Option.isSome_iff_exists.1 hs
  intro m hm
  rw [valueAt, resultAt_base hv, hv]
  exact ⟨rfl, hm⟩

/-- The value of a definition is its result, if all definitions in progress are above
it. -/
theorem valueAt_settles (hc : ∀ l ∈ c.layers, l.LooksBack) (stack : List Frame)
    {name : String} {i : Nat} (hs : c.Defines name (.layer i))
    (hstack : ∀ name' i', .define name' i' ∈ stack → i < i') :
    Settles (Memo.IsApplied c) (c.valueAt stack name (.layer i))
      (c.resultAt name (.layer i)) := by
  induction i using Nat.strong_induction_on generalizing stack name with
  | _ i ih =>
  obtain ⟨l, k, hk⟩ := defines_layer_iff.1 hs
  have hframe : .define name i ∉ stack := fun hmem => Nat.lt_irrefl i (hstack name i hmem)
  have hback : k.LooksBack := forall_contribution? hc hk
  have hanswer : ∀ o, o.view = .previous → Settles (Memo.IsApplied c)
      (c.answer i (c.valueAt (.define name i :: stack)) o) ((c.appliedBelow i).tell o) := by
    intro o ho
    refine answer_settles ho fun s hshows => ?_
    cases s with
    | base => exact valueAt_base_settles _ hshows.1.1
    | layer j =>
        have hj : j < i := by
          have hadmits := hshows.1.2
          rw [ho] at hadmits
          exact of_decide_eq_true hadmits
        refine ih j hj (.define name i :: stack) hshows.1.1 ?_
        intro name' i' hmem
        rcases List.mem_cons.1 hmem with hnew | hmem
        · rw [(Frame.define.inj hnew).2]
          exact hj
        · exact hj.trans (hstack name' i' hmem)
  have hstart : ∀ m : Memo, m.IsApplied c → (m.note (.start name i)).IsApplied c :=
    fun m hm => hm
  have hrun := run_contribution_settles (i := i) hanswer hstart k hback
  rw [contains_appliedBelow] at hrun
  intro m hm
  cases hkept : m.values.lookup (name, i) with
  | some v =>
      rw [valueAt_of_kept hkept]
      exact ⟨(hm name i v hkept).symm, hm⟩
  | none =>
      rw [valueAt_of_contribution? hkept hk hframe]
      exact concludeValue_settles hk hrun (m.note (.enter (.define name i))) hm

/-- A lookup under plans in progress gives the result that the layers end with. -/
theorem lookup_settles (hc : ∀ l ∈ c.layers, l.LooksBack) (names : List String)
    (name : String) :
    Settles (Memo.IsApplied c) (c.lookup (names.map .plan) name)
      ((c.applied.get? name).getD (.error (.unknownComponent name .final))) := by
  intro m hm
  rw [lookup, get?_applied]
  cases hslot : c.lastSlot? name with
  | none => exact ⟨rfl, hm⟩
  | some s =>
      have hs := (lastSlot?_eq_some_iff.1 hslot).1
      cases s with
      | base => exact valueAt_base_settles _ hs m hm
      | layer i => exact valueAt_settles hc _ hs (by simp) m hm

theorem isApplied_memoAfter (hc : ∀ l ∈ c.layers, l.LooksBack) (qs : List Query) :
    (c.memoAfter qs).IsApplied c := by
  have hkept : c.IsKept fun _ m => m.IsApplied c :=
    { lookup := fun {names} {m} name hm => (lookup_settles hc names name m hm).2
      enter := fun _ _ hm => hm
      leave := fun hm => hm
      keepPlan := fun _ _ hm => hm }
  refine hkept.memoAfter ?_ qs
  intro name i v hlookup
  cases hlookup

end Values

section Cycles

variable {c : Composition}

theorem isAcyclic_appliedBelow
    (hown : ∀ l ∈ c.layers, l.RaisesOnly fun failure => ¬ failure.IsCycle) (i : Nat) :
    (c.appliedBelow i).IsAcyclic := by
  induction i with
  | zero =>
      intro name target path
      rw [get?_appliedBelow_zero]
      cases c.base.get? name with
      | none => exact nofun
      | some v => exact nofun
  | succ i ih =>
      intro name target path
      by_cases h : c.Defines name (.layer i)
      · obtain ⟨l, k, hk⟩ := defines_layer_iff.1 h
        have hraises := forall_contribution? hown hk
        rw [get?_appliedBelow_succ_of_contribution? hk]
        intro hcycle
        exact Layer.resultOn_ne_cycle ih hraises name target path (Option.some.inj hcycle)
      · rw [get?_appliedBelow_succ_of_not_defines h]
        exact ih name target path

/-- A definition that reads another one is in a higher layer. -/
theorem lt_of_memo_needs (hc : ∀ l ∈ c.layers, l.LooksBack) {m : Memo} {d d' : String × Nat}
    (h : m.Needs c d d') : d'.2 < d.2 := by
  obtain ⟨o, ⟨l, k, ts, next, hk, hread⟩, -, hshows⟩ := h
  have hback : k.LooksBack := forall_contribution? hc hk
  have hview : o.view = .previous := (hread.leadsTo.looksBack (hback d.2)).1
  have hadmits := hshows.1.2
  rw [hview] at hadmits
  exact of_decide_eq_true hadmits

end Cycles

/-- Whatever was asked before, a lookup gives the result of its name that the layers
end with when they are applied one after another, also while plans are in progress.
This is never a cycle, and a cycle that a question reports is one of catalog inputs
between the components that the layers end with. The layers read nothing in the final
view, and their functions make up no cycles. -/
theorem lookup_eq_applied {c : Composition} (hc : ∀ l ∈ c.layers, l.LooksBack)
    (hown : ∀ l ∈ c.layers, l.RaisesOnly fun failure => ¬ failure.IsCycle) (qs : List Query) :
    (∀ (names : List String) name, (c.lookup (names.map .plan) name (c.memoAfter qs)).1 =
        (c.applied.get? name).getD (.error (.unknownComponent name .final))) ∧
      c.applied.IsAcyclic ∧
      ∀ q name path, (c.ask q (c.memoAfter qs)).1.error? = some (.cycle name path) →
        ∃ names, path = name :: names ++ [name] ∧ (name :: names).Nodup ∧
          path.IsChain c.applied.Uses := by
  refine ⟨?_, ?_, ?_⟩
  · intro names name
    exact (lookup_settles hc names name _ (isApplied_memoAfter hc qs)).1
  · rw [applied_eq_appliedBelow]
    exact isAcyclic_appliedBelow hown c.layers.length
  · intro q name path h
    have hexplains : (c.memoAfter (qs ++ [q])).Explains c (.cycle name path) := by
      rw [memoAfter_concat]
      rcases ask_explains c q _ h with hexplains | ⟨name', -, -, hunknown⟩
      · exact hexplains
      · cases hunknown
    have happlied := isApplied_memoAfter hc (qs ++ [q])
    rcases hexplains.cycle_cases hown with ⟨names, hwalk, hnodup, rfl⟩ | ⟨i, ds, hwalk, -⟩
    · refine ⟨names, rfl, hnodup, hwalk.imp ?_⟩
      rintro a b ⟨v, slot, hv, hmem⟩
      refine ⟨v, slot, ?_, hmem⟩
      have hlookup := (lookup_settles hc [] a _ happlied).1
      rw [lookup_of_holds _ hv] at hlookup
      cases hget : c.applied.get? a with
      | none =>
          rw [hget] at hlookup
          cases hlookup
      | some result =>
          rw [hget] at hlookup
          exact congrArg some hlookup.symm
    · have hcycle := Relation.transGen_swap.2 (transGen_of_isChain hwalk)
      exact absurd hcycle
        (not_transGen_self_of_lt Prod.snd (fun _ _ hneeds => lt_of_memo_needs hc hneeds) _)

/-- Three layers above a base: a patch of `curl` that cannot be applied, a `curl` that
covers it, and tools that are made of what is below. -/
def covered : Composition where
  base := Catalog.add ∅ { name := "curl", version := "8.5" }
  layers := [
    ⟨"draft", Overlay.modify ∅ "curl" (.merge { patches := .unannotated ["tls.patch"] })⟩,
    ⟨"pin", Overlay.set ∅ "curl" { version := "8.6" }⟩,
    ⟨"tools", Overlay.derive (Overlay.derive ∅ "perl" ⟨.previous, "python"⟩ (.replace .ok))
      "wget" ⟨.previous, "curl"⟩ (.replace .ok)⟩]

/-- The fault of the covered patch is never met; that of `perl` is. -/
theorem lookup_covered :
    (∀ l ∈ covered.layers, l.LooksBack) ∧
      (∀ l ∈ covered.layers, l.RaisesOnly fun failure => ¬ failure.IsCycle) ∧
      (covered.lookup (["site"].map .plan) "wget" (covered.memoAfter [.lookup "perl"])).1 =
        .ok { name := "wget", version := "8.6" } ∧
      (covered.lookup (["site"].map .plan) "perl" (covered.memoAfter [.lookup "perl"])).1 =
        .error (.danglingOrigin "python" .previous "perl" 2 "tools") := by
  have hc : ∀ l ∈ covered.layers, l.LooksBack := by
    intro l hl
    rw [Layer.looksBack_iff_forall_mem]
    rcases List.mem_cons.1 hl with rfl | hl
    · exact List.forall_mem_singleton.2 (Contribution.looksBack_derive_iff.2 rfl)
    rcases List.mem_pair.1 hl with rfl | rfl
    · exact List.forall_mem_singleton.2 (Contribution.looksBack_constant _)
    · intro e he
      rcases List.mem_pair.1 he with rfl | rfl
      · exact Contribution.looksBack_derive_iff.2 rfl
      · exact Contribution.looksBack_derive_iff.2 rfl
  have hown : ∀ l ∈ covered.layers, l.RaisesOnly fun failure => ¬ failure.IsCycle := by
    intro l hl
    rw [Layer.raisesOnly_iff_forall_mem]
    rcases List.mem_cons.1 hl with rfl | hl
    · exact List.forall_mem_singleton.2 trivial
    rcases List.mem_pair.1 hl with rfl | rfl
    · exact List.forall_mem_singleton.2 trivial
    · intro e he
      rcases List.mem_pair.1 he with rfl | rfl
      · exact Contribution.raisesOnly_derive_ok _ _
      · exact Contribution.raisesOnly_derive_ok _ _
  have h := (lookup_eq_applied hc hown [.lookup "perl"]).1 ["site"]
  refine ⟨hc, hown, (h "wget").trans ?_, (h "perl").trans ?_⟩
  · decide +kernel
  · decide +kernel

end Composition

end LayeredCatalog
