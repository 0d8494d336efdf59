import LayeredCatalog.Proofs.Composition.History
import LayeredCatalog.Proofs.Composition.Renumbered
import LayeredCatalog.Proofs.Patch

/-!
# Lists that layers only add to

Above some slot of a name, let every layer that assigns the name merge a patch into what
the layers below leave of it, and let the patches keep or extend one of the lists. Then
that list goes through the slots of the name from one to the next, and what each union
brings is appended to it (`Composition.HasValue.list_accumulates`): the final list begins
with the list at the slot, and holds the items of all unions besides
(`Composition.list_lookup_accumulates`).
-/

namespace LayeredCatalog

namespace Composition

variable {c : Composition} {name : String} {s : Slot} {field : ListField}

/-- The layer `i` merges a patch with this edit of a list into the previous component of
the name. -/
def Edits (c : Composition) (name : String) (field : ListField) (i : Nat) (edit : ListEdit) :
    Prop :=
  ∃ l patch, c.contribution? i name = some (l, .derive ⟨.previous, name⟩ (.merge patch)) ∧
    patch.edit field = edit

/-- Every layer above the slot `s` that assigns the name merges a patch into the previous
component of the name, and the patch keeps or extends the list. -/
def AddsAbove (c : Composition) (name : String) (field : ListField) (s : Slot) : Prop :=
  ∀ i, s.lt (.layer i) → c.Defines name (.layer i) →
    ∃ edit, c.Edits name field i edit ∧ edit.IsAdditive

theorem Edits.unique {i : Nat} {edit edit' : ListEdit} (h : c.Edits name field i edit)
    (h' : c.Edits name field i edit') : edit = edit' := by
  obtain ⟨l, patch, hk, rfl⟩ := h
  obtain ⟨l', patch', hk', rfl⟩ := h'
  cases hk.symm.trans hk'
  rfl

theorem Edits.defines {i : Nat} {edit : ListEdit} (h : c.Edits name field i edit) :
    c.Defines name (.layer i) :=
  let ⟨l, _, hk, _⟩ := h
  defines_layer_iff.2 ⟨l, _, hk⟩

/-- The value of a name in a layer that edits it comes from the greatest slot below that
defines the name, by the edit. -/
theorem HasValue.exists_edited {i : Nat} {edit : ListEdit} {v : Component}
    (hedit : c.Edits name field i edit) (h : c.HasValue name (.layer i) v) :
    ∃ t old, c.Shows i ⟨.previous, name⟩ t ∧ c.HasValue name t old ∧
      edit.appliedTo? (old.list field) = some (v.list field) := by
  obtain ⟨l, patch, hk, rfl⟩ := hedit
  obtain ⟨l', k', w, hk', hr, rfl⟩ := hasValue_layer_iff.1 h
  cases hk.symm.trans hk'
  obtain ⟨t, old, ht, hold, happly⟩ := returns_derive_iff.1 hr
  have hpatch : patch.apply old = .ok w := by
    cases hp : patch.apply old with
    | error f => simp [Transform.apply, hp, Except.mapError] at happly
    | ok w' => simpa [Transform.apply, hp, Except.mapError] using happly
  refine ⟨t, old, ht, hold, ?_⟩
  rw [Patch.appliedTo?_list hpatch field]
  cases field <;> rfl

/-- The slots above `s`, up to the greatest slot `t` below the layer `i`, and `i` itself are
the slots above `s` up to `i`. -/
theorem Edits.le_or_eq {i j : Nat} {t : Slot} {edit : ListEdit}
    (ht : c.Shows i ⟨.previous, name⟩ t) (hedit : c.Edits name field j edit)
    (hj : Slot.layer j ≤ .layer i) : Slot.layer j ≤ t ∨ j = i := by
  rcases hj with heq | hlt
  · exact .inr (Slot.layer.inj heq)
  · exact .inl (ht.2 ⟨hedit.defines, Slot.isBelow_iff_lt.2 hlt⟩)

/-- In a slot from `s` on the list is what it is in `s`, with the items of the unions up to
that slot appended. -/
theorem HasValue.list_accumulates (hs : c.Defines name s)
    (hedits : c.AddsAbove name field s) {n : Nat} {t : Slot} (htn : t.isBelow n)
    (hst : s ≤ t) {v : Component} (hv : c.HasValue name t v) :
    ∃ old items, c.HasValue name s old ∧ v.list field = addAllNew (old.list field) items ∧
      ∀ x, x ∈ items ↔ ∃ i edit, s.lt (.layer i) ∧ Slot.layer i ≤ t ∧
        c.Edits name field i edit ∧ x ∈ edit.added := by
  -- The layers of the slots that the value goes through decrease.
  induction n using Nat.strong_induction_on generalizing t v with
  | _ n ih =>
  rcases hst with rfl | hlt
  · refine ⟨v, [], hv, rfl, fun x => ⟨fun hx => (List.not_mem_nil hx).elim, ?_⟩⟩
    rintro ⟨i, edit, hi, hle, -⟩
    exact absurd hi (Slot.not_lt_of_le hle)
  · cases t with
    | base => cases s <;> exact hlt.elim
    | layer i =>
        obtain ⟨edit, hedit, hadditive⟩ := hedits i hlt hv.defines
        obtain ⟨t, below, ht, hvalue, hlist⟩ := hv.exists_edited hedit
        rw [hadditive.appliedTo?_eq, Option.some.injEq] at hlist
        have hst : s ≤ t := ht.2 ⟨hs, Slot.isBelow_iff_lt.2 hlt⟩
        have hti : t.lt (.layer i) := Slot.isBelow_iff_lt.1 ht.1.2
        obtain ⟨old, items, hold, hitems, hmem⟩ :=
          ih i (by simpa [Slot.isBelow] using htn) ht.1.2 hst hvalue
        refine ⟨old, items ++ edit.added, hold, ?_, fun x => ?_⟩
        · rw [← hlist, hitems, addAllNew_append]
        · rw [List.mem_append, hmem]
          constructor
          · rintro (⟨j, edit', hj, hjt, h⟩ | hx)
            · exact ⟨j, edit', hj, .inr (Slot.lt_of_le_of_lt hjt hti), h⟩
            · exact ⟨i, edit, hlt, .inl rfl, hedit, hx⟩
          · rintro ⟨j, edit', hj, hji, hedit', hx⟩
            rcases hedit'.le_or_eq ht hji with hjt | rfl
            · exact .inl ⟨j, edit', hj, hjt, hedit', hx⟩
            · exact .inr (hedit.unique hedit' ▸ hx)

/-- The list of the final component is the list at the slot `s` with the items of all
unions above it appended. -/
theorem HasFinal.list_accumulates (hs : c.Defines name s)
    (hedits : c.AddsAbove name field s) {v : Component} (hv : c.HasFinal name v) :
    ∃ old items, c.HasValue name s old ∧ v.list field = addAllNew (old.list field) items ∧
      ∀ x, x ∈ items ↔ ∃ i edit, s.lt (.layer i) ∧ c.Edits name field i edit ∧
        x ∈ edit.added := by
  obtain ⟨t, ht, hvalue⟩ := hv
  obtain ⟨old, items, hold, hitems, hmem⟩ :=
    hvalue.list_accumulates hs hedits ht.1.isBelow (ht.2 hs)
  refine ⟨old, items, hold, hitems, fun x => (hmem x).trans ⟨?_, ?_⟩⟩
  · rintro ⟨i, edit, hi, -, h⟩
    exact ⟨i, edit, hi, h⟩
  · rintro ⟨i, edit, hi, hedit, hx⟩
    exact ⟨i, edit, hi, ht.2 hedit.defines, hedit, hx⟩

/-- Let the layers above the slot `s` only add to a list of the name. If the name is looked
up successfully, it has a value in the slot `s`, and the list of the final component is the
list of that value with the new items of the unions above `s` appended, none of them twice.
So there are no repeats in the final list if there are none in the list at `s`. -/
theorem list_lookup_accumulates (hc : c.PassesErrors) (hs : c.Defines name s)
    (hedits : c.AddsAbove name field s) (qs : List Query) {v : Component}
    (hv : (c.lookup [] name (c.memoAfter qs)).1 = .ok v) :
    ∃ old added, (c.valueAt [] name s (c.memoAfter qs)).1 = .ok old ∧
      v.list field = old.list field ++ added ∧ added.Nodup ∧
      (∀ x ∈ added, x ∉ old.list field ∧ ∃ i items, s.lt (.layer i) ∧
        c.Edits name field i (.union items) ∧ x ∈ items) ∧
      (∀ i items, s.lt (.layer i) → c.Edits name field i (.union items) →
        ∀ x ∈ items, x ∈ v.list field) ∧
      ((old.list field).Nodup → (v.list field).Nodup) := by
  have hm := isSound_memoAfter hc qs
  have hfinal := ((lookup_computes hc [] name (by simp)).eq_ok_iff hm v).1 hv
  obtain ⟨old, items, hold, hitems, hmem⟩ := hfinal.list_accumulates hs hedits
  obtain ⟨added, happend, hnodup, hnew⟩ := exists_addAllNew_eq_append (old.list field) items
  refine ⟨old, added, ?_, hitems.trans happend, hnodup, fun x hx => ⟨(hnew x hx).1, ?_⟩, ?_, ?_⟩
  · exact ((valueAt_computes hc [] name s (by simp)).eq_ok_iff hm old).2 hold
  · obtain ⟨i, edit, hi, hedit, hx⟩ := (hmem x).1 (hnew x hx).2
    cases edit with
    | union union => exact ⟨i, union, hi, hedit, hx⟩
    | keep => cases hx
    | replace _ => cases hx
    | unannotated _ => cases hx
  · intro i union hi hedit x hx
    rw [hitems, mem_addAllNew]
    exact .inr ((hmem x).2 ⟨i, .union union, hi, hedit, hx⟩)
  · intro hold
    rw [hitems]
    exact nodup_addAllNew hold items

/-- A layer that adds patches to the previous `curl`. -/
def fixLayer (layerName : String) (fixes : List String) : Layer :=
  ⟨layerName, Overlay.modify ∅ "curl" (.merge { patches := .union fixes })⟩

/-- Layers that add patches to `curl`, raise it and leave it alone. -/
def fixedCurl : Composition where
  base := refreshed.base
  layers := [fixLayer "tls" ["tls.patch"], wgetLayer, curlLayer,
    fixLayer "dns" ["dns.patch", "tls.patch", "dns.patch"]]

theorem passesErrors_fixedCurl : fixedCurl.PassesErrors := by
  intro l hl
  rw [Layer.passesErrors_iff_forall_mem]
  simp only [fixedCurl, List.mem_cons, List.not_mem_nil, or_false] at hl
  rcases hl with rfl | rfl | rfl | rfl
  all_goals exact List.forall_mem_singleton.2 (Contribution.passesErrors_derive _ _)

/-- The fix that both layers bring is there once, in its place below the other one. -/
theorem list_lookup_accumulates_fixedCurl :
    fixedCurl.PassesErrors ∧ fixedCurl.Defines "curl" (.layer 0) ∧
      fixedCurl.AddsAbove "curl" .patches (.layer 0) ∧
      ∃ v, (fixedCurl.lookup [] "curl" {}).1 = .ok v ∧ v.patches = ["tls.patch", "dns.patch"] ∧
        v.patches.Nodup := by
  have hs : fixedCurl.Defines "curl" (.layer 0) := ⟨_, rfl, rfl⟩
  have hedits : fixedCurl.AddsAbove "curl" .patches (.layer 0)
    | 0, hi, _ => (Nat.lt_irrefl 0 hi).elim
    | 1, _, ⟨_, hl, hcurl⟩ => by
        cases hl
        cases hcurl
    | 2, _, _ => ⟨.keep, ⟨_, _, rfl, rfl⟩, .inl rfl⟩
    | 3, _, _ => ⟨_, ⟨_, _, rfl, rfl⟩, .inr ⟨_, rfl⟩⟩
    | _ + 4, _, ⟨_, hl, _⟩ => by cases hl
  have hv : (fixedCurl.lookup [] "curl" {}).1 = .ok
      { name := "curl", version := "8.6",
        inputs := .ofList [("ca", .external "certs"), ("tls", .catalog "zlib")],
        patches := ["tls.patch", "dns.patch"] } := by
    decide +kernel
  obtain ⟨old, added, hold, -, -, -, -, hnodup⟩ :=
    list_lookup_accumulates passesErrors_fixedCurl hs hedits [] hv
  have hbelow : (fixedCurl.valueAt [] "curl" (.layer 0) {}).1 = .ok
      { name := "curl", version := "8.5",
        inputs := .ofList [("ca", .external "certs"), ("tls", .catalog "zlib")],
        patches := ["tls.patch"] } := by
    decide +kernel
  obtain rfl := Except.ok.inj (hold.symm.trans hbelow)
  exact ⟨passesErrors_fixedCurl, hs, hedits, _, hv, rfl, hnodup (by decide)⟩

end Composition

end LayeredCatalog
