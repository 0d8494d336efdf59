import LayeredCatalog.Proofs.Composition.Faults

/-!
# Reported cycles are real

A cycle that a question ends with was found either among the plans or among the
definitions in progress (`Memo.Explains.cycle_cases`), unless a function of a layer
made it up. The path of the first kind is the walk itself. The path of the second
kind gives names only: the walk goes through definitions, a name in a layer each, and
stretches of it within one name are seen once in the path, or twice if there is
nothing else.

Under functions that pass on the failure of a read the memo is sound. Then what it
says of reads and inputs is what the definitions of the composition say, so the
walks are walks of `Composition.Needs` and `Composition.Uses`.
-/

namespace LayeredCatalog

namespace Memo

theorem Explains.cycle_cases {c : Composition} {m : Memo} {name : String} {path : List String}
    (hown : ∀ l ∈ c.layers, l.RaisesOnly fun failure => ¬ failure.IsCycle)
    (h : m.Explains c (.cycle name path)) :
    (∃ names, (name :: names ++ [name]).IsChain (m.Uses c) ∧ (name :: names).Nodup ∧
        path = name :: names ++ [name]) ∨
      ∃ i ds, ((name, i) :: ds ++ [(name, i)]).IsChain (m.Needs c) ∧
        path = closedPath (((name, i) :: ds ++ [(name, i)]).map Prod.fst) := by
  generalize hcycle : ResolutionError.cycle name path = e at h
  cases h with
  | @raised name' i l k ts failure hk hdone hnone =>
      have hfault := LayerFailure.eq_fault_of_blame_eq_cycle hcycle.symm
      have hraises := Composition.forall_contribution? hown hk
      rcases hraises.cases hdone.leadsTo with
        ⟨o, hread⟩ | hfunction | ⟨o, patch, old, field, hpatch⟩
      · exact absurd hread (hnone o)
      · exact absurd ⟨name, path, hfault⟩ hfunction
      · cases hfault.symm.trans hpatch.2.2
  | missing => cases hcycle
  | dangling => cases hcycle
  | definitions hwalk =>
      obtain ⟨rfl, rfl⟩ := ResolutionError.cycle.inj hcycle
      exact .inr ⟨_, _, hwalk, rfl⟩
  | plans hwalk hnodup =>
      obtain ⟨rfl, rfl⟩ := ResolutionError.cycle.inj hcycle
      exact .inl ⟨_, hwalk, hnodup, closedPath_of_nodup hnodup⟩

section Sound

variable {c : Composition} {m : Memo}

theorem IsSound.hasValue {name : String} {s : Slot} {v : Component} (hm : m.IsSound c)
    (hv : m.HoldsAt c name s v) : c.HasValue name s v := by
  cases s with
  | base => exact .base hv
  | layer i => exact hm.value name i v hv

theorem IsSound.hasFinal {name : String} {v : Component} (hm : m.IsSound c)
    (hv : m.Holds c name v) : c.HasFinal name v := by
  obtain ⟨s, hs, hv⟩ := hv
  exact ⟨s, Composition.lastSlot?_eq_some_iff.1 hs, hm.hasValue hv⟩

/-- What a computation reads on answers that a sound memo accounts for, it reads on the
values of the composition. -/
theorem IsSound.asks_of_leadsTo {i : Nat} {r : Reading (Except LayerFailure Component)}
    {ts : Transcript} {o : Origin}
    {next : Except LayerFailure Component → Reading (Except LayerFailure Component)}
    (hm : m.IsSound c) (hr : r.PassesErrors)
    (h : r.LeadsTo (fun n => (c.slotBelow? i n).isSome) ts (.read o next))
    (hts : ∀ t ∈ ts, m.Answers c i t.1 t.2) : c.Asks i r o := by
  have hok := h.eq_ok_of_mem hr
  generalize hend : Reading.read o next = r' at h
  induction h with
  | refl r =>
      rw [← hend]
      exact .inl rfl
  | @read o' next' a ts r' h ih =>
      obtain ⟨⟨v, rfl⟩, hrest⟩ := List.forall_mem_cons.1 hok
      obtain ⟨⟨s, hs, hv⟩, hts⟩ := List.forall_mem_cons.1 hts
      exact .inr ⟨s, v, hs, hm.hasValue hv, ih (hr.2 v) hts hrest hend⟩
  | definedBelow _ ih => exact ih (hr _) hts hok hend

theorem IsSound.needs {d d' : String × Nat} (hm : m.IsSound c) (hc : c.PassesErrors)
    (h : m.Needs c d d') : c.Needs (d.1, .layer d.2) (d'.1, .layer d'.2) := by
  obtain ⟨o, ⟨l, k, ts, next, hk, hread⟩, hname, hs⟩ := h
  have hasks := hm.asks_of_leadsTo (hc.of_contribution? hk d.2) hread.leadsTo hread.answers
  exact ⟨d.2, l, k, o, rfl, hk, hasks, hname.symm, hs⟩

theorem IsSound.uses {a b : String} (hm : m.IsSound c) (h : m.Uses c a b) : c.Uses a b := by
  obtain ⟨v, slot, hv, hmem⟩ := h
  exact ⟨v, slot, hm.hasFinal hv, hmem⟩

end Sound

end Memo

namespace Composition

/-- Whatever was asked before, a cycle that a question reports leads from the name back
to it, through neighbours that differ unless the name is its own neighbour. Either
each name has a final component with a catalog input that asks for the next name, and
no name but the first comes twice; or for any two different neighbours a definition of
the one reads the other, and if there is only one name then a definition of it comes
back to itself through definitions of that name. The functions of the layers pass on
the failure of what they read and make up no cycles. -/
theorem ask_cycle_isWalk {c : Composition} (hc : c.PassesErrors)
    (hown : ∀ l ∈ c.layers, l.RaisesOnly fun failure => ¬ failure.IsCycle) (qs : List Query)
    (q : Query) {name : String} {path : List String}
    (h : (c.ask q (c.memoAfter qs)).1.error? = some (.cycle name path)) :
    2 ≤ path.length ∧ path.head? = some name ∧ path.getLast? = some name ∧
      (path = [name, name] ∨ path.IsChain (· ≠ ·)) ∧
      ((path.IsChain c.Uses ∧ path.dropLast.Nodup) ∨
        path.IsChain (fun x y => x ≠ y → ∃ s t, c.Needs (x, s) (y, t)) ∧
          (path = [name, name] → ∃ s, Relation.TransGen
            (fun a b => c.Needs a b ∧ b.1 = name) (name, s) (name, s))) := by
  have hsound : (c.ask q (c.memoAfter qs)).2.IsSound c := by
    rw [← memoAfter_concat]
    exact isSound_memoAfter hc (qs ++ [q])
  have hexplains : (c.ask q (c.memoAfter qs)).2.Explains c (.cycle name path) := by
    rcases ask_explains c q _ h with hexplains | ⟨name', -, -, hunknown⟩
    · exact hexplains
    · cases hunknown
  rcases hexplains.cycle_cases hown with ⟨names, hwalk, hnodup, rfl⟩ | ⟨i, ds, hwalk, rfl⟩
  · have hlast : (name :: names ++ [name]).getLast? = some name := List.getLast?_concat
    have hclosed := closedPath_isClosed rfl hlast
    rw [closedPath_of_nodup hnodup] at hclosed
    refine ⟨hclosed.1, hclosed.2.1, hclosed.2.2.1, hclosed.2.2.2, .inl ⟨?_, ?_⟩⟩
    · exact hwalk.imp fun _ _ => hsound.uses
    · rwa [List.dropLast_concat]
  · have hlast : (((name, i) :: ds ++ [(name, i)]).map Prod.fst).getLast? = some name := by
      rw [List.map_append]
      exact List.getLast?_concat
    have hclosed := closedPath_isClosed rfl hlast
    have hsteps := closedPath_of_isChain (f := Prod.fst) hwalk
    refine ⟨hclosed.1, hclosed.2.1, hclosed.2.2.1, hclosed.2.2.2, .inr ⟨?_, ?_⟩⟩
    · refine hsteps.1.imp ?_
      intro x y hstep hne
      obtain ⟨d, d', hneeds, rfl, rfl⟩ := hstep hne
      exact ⟨.layer d.2, .layer d'.2, hsound.needs hc hneeds⟩
    · intro hpair
      refine ⟨.layer i, (hsteps.2 hpair).lift (fun d => (d.1, Slot.layer d.2)) ?_⟩
      rintro d d' ⟨hneeds, hname⟩
      exact ⟨hsound.needs hc hneeds, hname⟩

/-- Two layers without a base: the lower one makes `curl` from `wget` and `wget` from
`curl`, the upper one raises `curl`. -/
def entangled : Composition where
  base := ∅
  layers := [
    ⟨"tools", Overlay.derive (Overlay.derive ∅ "curl" ⟨.final, "wget"⟩ (.replace .ok))
      "wget" ⟨.final, "curl"⟩ (.replace .ok)⟩,
    ⟨"refresh", Overlay.modify ∅ "curl" (.merge { version := some "8.6" })⟩]

/-- The walk through both definitions of `curl` and the one of `wget` is reported by the
two names. -/
theorem ask_entangled_curl :
    entangled.PassesErrors ∧
      (∀ l ∈ entangled.layers, l.RaisesOnly fun failure => ¬ failure.IsCycle) ∧
      (entangled.ask (.lookup "curl") (entangled.memoAfter [.plan "wget"])).1.error? =
        some (.cycle "curl" ["curl", "wget", "curl"]) ∧
      ((["curl", "wget", "curl"].IsChain entangled.Uses ∧ ["curl", "wget"].Nodup) ∨
        ["curl", "wget", "curl"].IsChain
            (fun x y => x ≠ y → ∃ s t, entangled.Needs (x, s) (y, t)) ∧
          (["curl", "wget", "curl"] = ["curl", "curl"] → ∃ s, Relation.TransGen
            (fun a b => entangled.Needs a b ∧ b.1 = "curl") ("curl", s) ("curl", s))) := by
  have hpasses : entangled.PassesErrors := by
    intro l hl
    rw [Layer.passesErrors_iff_forall_mem]
    rcases List.mem_pair.1 hl with rfl | rfl
    · intro e he
      rcases List.mem_pair.1 he with rfl | rfl
      · exact Contribution.passesErrors_derive _ _
      · exact Contribution.passesErrors_derive _ _
    · exact List.forall_mem_singleton.2 (Contribution.passesErrors_derive _ _)
  have hown : ∀ l ∈ entangled.layers, l.RaisesOnly fun failure => ¬ failure.IsCycle := by
    intro l hl
    rw [Layer.raisesOnly_iff_forall_mem]
    rcases List.mem_pair.1 hl with rfl | rfl
    · intro e he
      rcases List.mem_pair.1 he with rfl | rfl
      · exact Contribution.raisesOnly_derive_ok _ _
      · exact Contribution.raisesOnly_derive_ok _ _
    · exact List.forall_mem_singleton.2 trivial
  have hcycle : (entangled.ask (.lookup "curl") (entangled.memoAfter [.plan "wget"])).1.error? =
      some (.cycle "curl" ["curl", "wget", "curl"]) := by decide +kernel
  have h := ask_cycle_isWalk hpasses hown [.plan "wget"] (.lookup "curl") hcycle
  exact ⟨hpasses, hown, hcycle, h.2.2.2.2⟩

end Composition

end LayeredCatalog
