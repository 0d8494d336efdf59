import LayeredCatalog.Proofs.Composition.Applied
import LayeredCatalog.Proofs.Composition.Renumbered
import LayeredCatalog.Proofs.Resolution
import LayeredCatalog.Proofs.Stages

/-!
# Layers composed ahead of time

The final components of a composition make a catalog (`Composition.composed`), and more
layers can go on top of either: on top of the composition (`Composition.under`), or on
top of that catalog. If the layers below are constant or derived and only look back, the
layers above cannot tell which of the two they are on
(`Composition.lookup_planWith_composed`).

On top of the catalog a layer has a lower index, and all slots that a name has below
are one, the base. `Composition.Meets` relates the slots that stand for each other: a
layer to itself under its new index, and the last slot of a name below to the base. In
both views a contribution is shown slots that meet, so values go over from one side to
the other along their derivations.
-/

namespace LayeredCatalog

namespace Composition

/-- The final components of a composition, under their names. -/
def composed (c : Composition) : Catalog :=
  .ofList (c.names.filterMap fun name => (c.lookup [] name {}).1.toOption.map (name, ·))

/-- A composition with more layers on top. -/
def under (c : Composition) (upper : List Layer) : Composition :=
  { c with layers := c.layers ++ upper }

section Composed

variable {c : Composition} {name : String} {v : Component}

theorem get?_composed_eq_some_iff (hc : c.PassesErrors) :
    c.composed.get? name = some v ↔ c.HasFinal name v := by
  have hlookup : (c.lookup [] name {}).1.toOption = some v ↔ c.HasFinal name v := by
    rw [toOption_eq_some_iff]
    exact (lookup_computes hc [] name (by simp)).eq_ok_iff (Memo.IsSound.empty c) v
  have hmem : ∀ w, (name, w) ∈ (c.names.filterMap fun name =>
      (c.lookup [] name {}).1.toOption.map (name, ·)) ↔
        name ∈ c.names ∧ (c.lookup [] name {}).1.toOption = some w := by
    intro w
    simp [List.mem_filterMap]
  constructor
  · intro h
    exact hlookup.1 ((hmem v).1 (Table.mem_of_get?_ofList h)).2
  · intro h
    have hname : name ∈ c.names := contains_iff_mem_names.1 h.contains
    have hcontains : c.composed.contains name := by
      rw [composed, Table.contains_ofList, List.any_eq_true]
      exact ⟨(name, v), (hmem v).2 ⟨hname, hlookup.2 h⟩, by simp⟩
    obtain ⟨w, hw⟩ := Option.isSome_iff_exists.1 hcontains
    have hfound := ((hmem w).1 (Table.mem_of_get?_ofList hw)).2
    rw [hw, ← hfound, hlookup.2 h]

theorem isKeyed_composed (hc : c.PassesErrors) (hbase : c.base.IsKeyed) : c.composed.IsKeyed := by
  intro name v h
  obtain ⟨s, -, hv⟩ := (get?_composed_eq_some_iff hc).1 h
  cases hv with
  | base hv => exact hbase name v hv
  | constant => rfl
  | derive => rfl
  | compute => rfl

/-- If all lookups succeed, the catalog has all the names. -/
theorem contains_composed_iff (hc : c.PassesErrors)
    (hall : ∀ name, c.contains name → ∃ v, c.HasFinal name v) :
    c.composed.contains name ↔ c.contains name := by
  rw [Table.contains, Option.isSome_iff_exists]
  simp only [get?_composed_eq_some_iff hc]
  constructor
  · rintro ⟨v, hv⟩
    exact hv.contains
  · exact hall name

end Composed

theorem isLast_iff_shows {c : Composition} {name : String} {i : Nat} {s : Slot} :
    c.IsLast name s ↔ c.Shows i ⟨.final, name⟩ s := by
  simp [IsLast, Shows, View.Admits]

/-- Compositions that assign the same names list them alike. -/
theorem names_eq_of_contains_iff {c c' : Composition}
    (h : ∀ name, c.contains name ↔ c'.contains name) : c.names = c'.names := by
  refine Table.keys_eq_of_contains_iff fun name => ?_
  rw [Table.contains_iff_mem_keys, Table.contains_iff_mem_keys]
  exact (contains_iff_mem_names.symm.trans (h name)).trans contains_iff_mem_names

/-- Values go over from `c` to `c'` along `R`: slots that are related either have their
value in common, or they are layers with one contribution, and what it derives from is
shown to them in slots that are related again. -/
def IsSimulation (c c' : Composition) (R : String → Slot → Slot → Prop) : Prop :=
  ∀ name s s', R name s s' → (∀ v, c.HasValue name s v → c'.HasValue name s' v) ∨
    ∃ i i', s = .layer i ∧ s' = .layer i' ∧
      (∀ x, c.contribution? i name = some x → c'.contribution? i' name = some x) ∧
      ∀ l o t s, c.contribution? i name = some (l, .derive o t) → c.Shows i o s →
        ∃ s', c'.Shows i' o s' ∧ R o.name s s'

/-- The proof follows the derivation of the value. -/
theorem IsSimulation.hasValue {c c' : Composition} {R : String → Slot → Slot → Prop}
    (h : c.IsSimulation c' R) (hstatic : ∀ l ∈ c.layers, l.IsStatic) {name : String}
    {s s' : Slot} {v : Component} : c.HasValue name s v → R name s s' → c'.HasValue name s' v
  | .base hv, hrelated => by
      rcases h _ _ _ hrelated with hall | ⟨i, i', hi, -⟩
      · exact hall v (.base hv)
      · cases hi
  | .constant hk, hrelated => by
      rcases h _ _ _ hrelated with hall | ⟨i, i', hi, rfl, hcontribution, -⟩
      · exact hall _ (.constant hk)
      · cases hi
        exact .constant (hcontribution _ hk)
  | .derive hk hs hold ht, hrelated => by
      rcases h _ _ _ hrelated with hall | ⟨i, i', hi, rfl, hcontribution, hshown⟩
      · exact hall _ (.derive hk hs hold ht)
      · cases hi
        obtain ⟨s', hs', hrelated'⟩ := hshown _ _ _ _ hk hs
        exact .derive (hcontribution _ hk) hs' (h.hasValue hstatic hold hrelated') ht
  | .compute hk _, _ => (forall_contribution? hstatic hk).elim

section Under

variable {c : Composition} {upper : List Layer} {name : String} {i : Nat}

theorem contribution?_under {x : Layer × Contribution} (h : c.contribution? i name = some x) :
    (c.under upper).contribution? i name = some x := by
  obtain ⟨l, k⟩ := x
  obtain ⟨hl, hk⟩ := contribution?_eq_some_iff.1 h
  have hi := (List.getElem?_eq_some_iff.1 hl).1
  exact contribution?_eq_some_iff.2 ⟨(List.getElem?_append_left hi).trans hl, hk⟩

/-- The layers on top have the same contributions on top of any base. -/
theorem contribution?_under_add (base : Catalog) :
    (c.under upper).contribution? (c.layers.length + i) name =
      (Composition.mk base upper).contribution? i name := by
  rw [contribution?, contribution?, under, List.getElem?_append_right (Nat.le_add_right _ _),
    Nat.add_sub_cancel_left]

theorem defines_under_iff (base : Catalog) {s : Slot} :
    (c.under upper).Defines name s ↔ c.Defines name s ∨
      ∃ i, s = .layer (c.layers.length + i) ∧ (Composition.mk base upper).Defines name (.layer i) := by
  cases s with
  | base => simp [Defines, under]
  | layer j =>
      rcases Nat.lt_or_ge j c.layers.length with hlt | hge
      · have hne : ∀ i, j ≠ c.layers.length + i := fun i => by omega
        simp [Defines, under, List.getElem?_append_left hlt, hne]
      · obtain ⟨i, rfl⟩ := Nat.exists_eq_add_of_le hge
        rw [defines_layer_iff, contribution?_under_add base, ← defines_layer_iff]
        simp [Defines]

/-- A layer that looks back sees nothing of the layers on top. -/
theorem shows_under (hi : i < c.layers.length) {o : Origin} (ho : o.view = .previous) {s : Slot}
    (h : c.Shows i o s) : (c.under upper).Shows i o s := by
  have hset : {t | (c.under upper).Defines o.name t ∧ o.view.Admits i t} =
      {t | c.Defines o.name t ∧ o.view.Admits i t} := by
    ext t
    refine and_congr_left fun hadmits => ?_
    rw [defines_under_iff ∅, or_iff_left_iff_imp]
    rintro ⟨j, rfl, -⟩
    rw [ho] at hadmits
    have hlt : c.layers.length + j < i := of_decide_eq_true hadmits
    omega
  rw [Shows, hset]
  exact h

/-- Values stay when layers are put on top, if all that is below looks back. -/
theorem HasValue.under (hstatic : ∀ l ∈ c.layers, l.IsStatic)
    (hback : ∀ l ∈ c.layers, l.LooksBack) {s : Slot} {v : Component}
    (h : c.HasValue name s v) : (c.under upper).HasValue name s v := by
  have hsimulation : c.IsSimulation (c.under upper) fun _ s s' => s = s' := by
    rintro name s - rfl
    cases s with
    | base =>
        have hbase : (c.under upper).base = c.base := rfl
        refine .inl fun v hv => ?_
        rwa [hasValue_base_iff, hbase, ← hasValue_base_iff]
    | layer i =>
        refine .inr ⟨i, i, rfl, rfl, fun _ => contribution?_under, ?_⟩
        intro l o t s hk hs
        have hi := (List.getElem?_eq_some_iff.1 (contribution?_eq_some_iff.1 hk).1).1
        have ho := Contribution.looksBack_derive_iff.1 (forall_contribution? hback hk)
        exact ⟨s, shows_under hi ho hs, rfl⟩
  exact hsimulation.hasValue hstatic h rfl

end Under

/-- The slots of a name that stand for each other, on top of the composition and on top
of its final components. -/
inductive Meets (c : Composition) (name : String) : Slot → Slot → Prop
  | last {s : Slot} : c.IsLast name s → Meets c name s .base
  | layer (i : Nat) : Meets c name (.layer (c.layers.length + i)) (.layer i)

section Simulation

variable {c : Composition} {upper : List Layer} {name : String} {i : Nat} {o : Origin}

theorem admits_add_iff {view : View} {k j : Nat} :
    view.Admits (k + i) (.layer (k + j)) ↔ view.Admits i (.layer j) := by
  cases view with
  | previous => simp [View.Admits, Slot.isBelow]
  | final => exact Iff.rfl

theorem admits_of_isBelow {view : View} {k : Nat} {s : Slot} (h : s.isBelow k) :
    view.Admits (k + i) s := by
  cases view with
  | final => exact trivial
  | previous =>
      cases s with
      | base => rfl
      | layer j =>
          have hj : j < k := of_decide_eq_true h
          exact decide_eq_true (by omega)

variable (hall : ∀ name, c.composed.contains name ↔ c.contains name)

include hall

theorem exists_shows_under {s' : Slot} (h : (Composition.mk c.composed upper).Shows i o s') :
    ∃ s, (c.under upper).Shows (c.layers.length + i) o s ∧ c.Meets o.name s s' := by
  obtain ⟨⟨hdefines, hadmits⟩, htop⟩ := h
  cases s' with
  | base =>
      obtain ⟨s, hs⟩ := contains_iff_exists_isLast.1 ((hall o.name).1 hdefines)
      refine ⟨s, ⟨⟨(defines_under_iff c.composed).2 (.inl hs.1),
        admits_of_isBelow hs.1.isBelow⟩, ?_⟩, .last hs⟩
      rintro t ⟨ht, hadmitst⟩
      rcases (defines_under_iff c.composed).1 ht with hlower | ⟨j, rfl, hupper⟩
      · exact hs.2 hlower
      · rcases htop ⟨hupper, admits_add_iff.1 hadmitst⟩ with heq | hlt
        · cases heq
        · exact hlt.elim
  | layer j =>
      refine ⟨_, ⟨⟨(defines_under_iff c.composed).2 (.inr ⟨j, rfl, hdefines⟩),
        admits_add_iff.2 hadmits⟩, ?_⟩, .layer j⟩
      rintro t ⟨ht, hadmitst⟩
      rcases (defines_under_iff c.composed).1 ht with hlower | ⟨j', rfl, hupper⟩
      · cases t with
        | base => exact .inr trivial
        | layer t =>
            have hlt : t < c.layers.length := of_decide_eq_true hlower.isBelow
            exact .inr (Nat.lt_add_right j hlt)
      · rcases htop ⟨hupper, admits_add_iff.1 hadmitst⟩ with heq | hlt
        · rw [Slot.layer.inj heq]
          exact .inl rfl
        · exact .inr (Nat.add_lt_add_left hlt _)

/-- On top of the final components a contribution is shown a slot that meets the one it
was shown before. -/
theorem exists_shows_composed {s : Slot}
    (h : (c.under upper).Shows (c.layers.length + i) o s) :
    ∃ s', (Composition.mk c.composed upper).Shows i o s' ∧ c.Meets o.name s s' := by
  have hshown : ∃ s', (Composition.mk c.composed upper).Shows i o s' := by
    rw [exists_shows_iff]
    rcases (defines_under_iff c.composed).1 h.1.1 with hs | ⟨j, rfl, hs⟩
    · refine ⟨.base, (hall o.name).2 (contains_iff_exists_defines.2 ⟨s, hs⟩), ?_⟩
      cases o.view with
      | previous => rfl
      | final => exact trivial
    · exact ⟨.layer j, hs, admits_add_iff.1 h.1.2⟩
  obtain ⟨s', hs'⟩ := hshown
  obtain ⟨t, ht, hmeets⟩ := exists_shows_under hall hs'
  rw [h.unique ht]
  exact ⟨s', hs', hmeets⟩

end Simulation

/-- Constant or derived layers that look back, all of whose names have final components. -/
structure IsComposable (c : Composition) : Prop where
  isStatic : ∀ l ∈ c.layers, l.IsStatic
  looksBack : ∀ l ∈ c.layers, l.LooksBack
  exists_hasFinal : ∀ name, c.contains name → ∃ v, c.HasFinal name v

namespace IsComposable

variable {c : Composition} {upper : List Layer}

theorem passesErrors (h : c.IsComposable) : c.PassesErrors := passesErrors_of_isStatic h.isStatic

theorem contains_composed_iff (h : c.IsComposable) (name : String) :
    c.composed.contains name ↔ c.contains name :=
  Composition.contains_composed_iff h.passesErrors h.exists_hasFinal

/-- The value of the last slot below is the component that the catalog has. -/
theorem hasValue_under_iff_of_isLast (h : c.IsComposable) {name : String} {s : Slot}
    (hs : c.IsLast name s) (v : Component) :
    (c.under upper).HasValue name s v ↔ c.composed.get? name = some v := by
  obtain ⟨w, hw⟩ := h.exists_hasFinal name (contains_iff_exists_isLast.2 ⟨s, hs⟩)
  obtain ⟨t, ht, hvalue⟩ := id hw
  rw [← hs.unique ht] at hvalue
  have hunder : (c.under upper).HasValue name s w := hvalue.under h.isStatic h.looksBack
  rw [(get?_composed_eq_some_iff h.passesErrors).2 hw, Option.some.injEq]
  constructor
  · exact hunder.unique
  · rintro rfl
    exact hunder

theorem isStatic_under (h : c.IsComposable) (hupper : ∀ l ∈ upper, l.IsStatic) :
    ∀ l ∈ (c.under upper).layers, l.IsStatic := by
  intro l hl
  rcases List.mem_append.1 hl with hlower | hl
  · exact h.isStatic l hlower
  · exact hupper l hl

theorem isSimulation_composed (h : c.IsComposable) :
    (c.under upper).IsSimulation ⟨c.composed, upper⟩ c.Meets := by
  intro name s s' hmeets
  cases hmeets with
  | last hs => exact .inl fun v hv => .base ((h.hasValue_under_iff_of_isLast hs v).1 hv)
  | layer i =>
      refine .inr ⟨_, i, rfl, rfl, ?_, ?_⟩
      · intro x hx
        exact (contribution?_under_add c.composed).symm.trans hx
      · intro l o t s _ hs
        exact exists_shows_composed h.contains_composed_iff hs

theorem isSimulation_under (h : c.IsComposable) :
    (Composition.mk c.composed upper).IsSimulation (c.under upper)
      fun name s' s => c.Meets name s s' := by
  intro name s' s hmeets
  cases hmeets with
  | last hs =>
      exact .inl fun v hv => (h.hasValue_under_iff_of_isLast hs v).2 (hasValue_base_iff.1 hv)
  | layer i =>
      refine .inr ⟨i, _, rfl, rfl, ?_, ?_⟩
      · intro x hx
        exact (contribution?_under_add c.composed).trans hx
      · intro l o t s' _ hs'
        exact exists_shows_under h.contains_composed_iff hs'

/-- Both sides have the same final components. -/
theorem hasFinal_under_iff (h : c.IsComposable) (hupper : ∀ l ∈ upper, l.IsStatic)
    {name : String} {v : Component} :
    (c.under upper).HasFinal name v ↔ (Composition.mk c.composed upper).HasFinal name v := by
  constructor
  · rintro ⟨s, hs, hv⟩
    obtain ⟨s', hs', hmeets⟩ := exists_shows_composed (i := 0) h.contains_composed_iff
      (isLast_iff_shows.1 hs)
    exact ⟨s', isLast_iff_shows.2 hs',
      h.isSimulation_composed.hasValue (h.isStatic_under hupper) hv hmeets⟩
  · rintro ⟨s', hs', hv⟩
    obtain ⟨s, hs, hmeets⟩ := exists_shows_under (i := 0) h.contains_composed_iff
      (isLast_iff_shows.1 hs')
    exact ⟨s, isLast_iff_shows.2 hs, h.isSimulation_under.hasValue hupper hv hmeets⟩

theorem hasPlan_under_iff (h : c.IsComposable) (hupper : ∀ l ∈ upper, l.IsStatic)
    {name : String} {p : Plan} :
    (c.under upper).HasPlan name p ↔ (Composition.mk c.composed upper).HasPlan name p := by
  constructor
  · exact HasPlan.of_hasFinal fun name v => (h.hasFinal_under_iff hupper).1
  · exact HasPlan.of_hasFinal fun name v => (h.hasFinal_under_iff hupper).2

theorem names_under (h : c.IsComposable) (upper : List Layer) :
    (c.under upper).names = (Composition.mk c.composed upper).names := by
  refine names_eq_of_contains_iff fun name => ?_
  rw [contains_iff_exists_isLast, contains_iff_exists_isLast]
  constructor
  · rintro ⟨s, hs⟩
    obtain ⟨s', hs', -⟩ := exists_shows_composed (i := 0) h.contains_composed_iff
      (isLast_iff_shows.1 hs)
    exact ⟨s', isLast_iff_shows.2 hs'⟩
  · rintro ⟨s', hs'⟩
    obtain ⟨s, hs, -⟩ := exists_shows_under (i := 0) h.contains_composed_iff
      (isLast_iff_shows.1 hs')
    exact ⟨s, isLast_iff_shows.2 hs⟩

end IsComposable

/-- Constant layers and layers that derive from the previous view can be composed into
the base ahead of time. Whatever is asked of them before, the composition of all layers
and that of the upper ones over the final components of the lower ones have the same
names, with the same components and the same plans; a lookup or a plan fails on both
sides or on neither. The catalog of final components is one that additions build, if the
base is. The upper layers are constant or derived, from either view. -/
theorem lookup_planWith_composed {base : Catalog} {lower upper : List Layer}
    (hstatic : ∀ l ∈ lower ++ upper, l.IsStatic) (hback : ∀ l ∈ lower, l.LooksBack)
    (hlookup : ∀ name, (Composition.mk base lower).contains name →
      ∃ v, ((Composition.mk base lower).lookup [] name {}).1 = .ok v)
    (qs qs' : List Query) :
    (base.IsKeyed → (Composition.mk base lower).composed.IsKeyed) ∧
      (Composition.mk base (lower ++ upper)).names =
        (Composition.mk (Composition.mk base lower).composed upper).names ∧
      ∀ name,
        (∀ v, ((Composition.mk base (lower ++ upper)).lookup [] name
            ((Composition.mk base (lower ++ upper)).memoAfter qs)).1 = .ok v ↔
          ((Composition.mk (Composition.mk base lower).composed upper).lookup [] name
            ((Composition.mk (Composition.mk base lower).composed upper).memoAfter qs')).1 =
              .ok v) ∧
        ∀ p, ((Composition.mk base (lower ++ upper)).planWith [] name
            ((Composition.mk base (lower ++ upper)).memoAfter qs)).1 = .ok p ↔
          ((Composition.mk (Composition.mk base lower).composed upper).planWith [] name
            ((Composition.mk (Composition.mk base lower).composed upper).memoAfter qs')).1 =
              .ok p := by
  have hlower : ∀ l ∈ lower, l.IsStatic := fun l hl => hstatic l (List.mem_append_left _ hl)
  have hupper : ∀ l ∈ upper, l.IsStatic := fun l hl => hstatic l (List.mem_append_right _ hl)
  have hpasses : (Composition.mk base lower).PassesErrors := passesErrors_of_isStatic hlower
  have h : (Composition.mk base lower).IsComposable :=
    { isStatic := hlower
      looksBack := hback
      exists_hasFinal := fun name hname =>
        (exists_lookup_ok_iff hpasses (Memo.IsSound.empty _) name).1 (hlookup name hname) }
  have hunder : (Composition.mk base (lower ++ upper)).PassesErrors :=
    passesErrors_of_isStatic hstatic
  have hcomposed : (Composition.mk (Composition.mk base lower).composed upper).PassesErrors :=
    passesErrors_of_isStatic hupper
  refine ⟨isKeyed_composed hpasses, h.names_under upper, fun name => ⟨fun v => ?_, fun p => ?_⟩⟩
  · rw [(lookup_computes hunder [] name (by simp)).eq_ok_iff (isSound_memoAfter hunder qs),
      (lookup_computes hcomposed [] name (by simp)).eq_ok_iff (isSound_memoAfter hcomposed qs')]
    exact h.hasFinal_under_iff hupper
  · rw [(planWith_computes hunder [] name (by simp) (by simp)).eq_ok_iff
        (isSound_memoAfter hunder qs),
      (planWith_computes hcomposed [] name (by simp) (by simp)).eq_ok_iff
        (isSound_memoAfter hcomposed qs')]
    exact h.hasPlan_under_iff hupper

/-- A layer that patches the previous `curl`. -/
def hardenLayer : Layer :=
  ⟨"harden", Overlay.modify ∅ "curl" (.merge { patches := .union ["tls.patch"] })⟩

theorem isStatic_curlLayer_wgetLayer_hardenLayer :
    ∀ l ∈ [curlLayer] ++ [wgetLayer, hardenLayer], l.IsStatic := by
  have hcurl : curlLayer.IsStatic := Layer.isStatic_iff_forall_mem.2 <|
    List.forall_mem_singleton.2 trivial
  have hwget : wgetLayer.IsStatic := Layer.isStatic_iff_forall_mem.2 <|
    List.forall_mem_singleton.2 trivial
  have hharden : hardenLayer.IsStatic := Layer.isStatic_iff_forall_mem.2 <|
    List.forall_mem_singleton.2 trivial
  simp [hcurl, hwget, hharden]

/-- The raised `curl` is composed into the base; the layer that patches it sees it there,
and the tools made of the final `curl` see both. -/
theorem lookup_planWith_composed_curlLayer :
    (∀ l ∈ [curlLayer] ++ [wgetLayer, hardenLayer], l.IsStatic) ∧
      (∀ l ∈ [curlLayer], l.LooksBack) ∧
      (∀ name, (Composition.mk refreshed.base [curlLayer]).contains name →
        ∃ v, ((Composition.mk refreshed.base [curlLayer]).lookup [] name {}).1 = .ok v) ∧
      ((Composition.mk (Composition.mk refreshed.base [curlLayer]).composed
        [wgetLayer, hardenLayer]).lookup [] "wget" {}).1 = .ok
          { name := "wget", version := "8.6",
            inputs := .ofList [("ca", .external "certs"), ("tls", .catalog "zlib")],
            patches := ["tls.patch"] } := by
  have hback : ∀ l ∈ [curlLayer], l.LooksBack := List.forall_mem_singleton.2 <|
    Layer.looksBack_iff_forall_mem.2 <| List.forall_mem_singleton.2 <|
      Contribution.looksBack_derive_iff.2 rfl
  have hok : ∀ name ∈ (Composition.mk refreshed.base [curlLayer]).names,
      ((Composition.mk refreshed.base [curlLayer]).lookup [] name {}).1.isOk := by
    decide +kernel
  have hlookup : ∀ name, (Composition.mk refreshed.base [curlLayer]).contains name →
      ∃ v, ((Composition.mk refreshed.base [curlLayer]).lookup [] name {}).1 = .ok v := by
    intro name hname
    have hisOk := hok name (contains_iff_mem_names.1 hname)
    cases h : ((Composition.mk refreshed.base [curlLayer]).lookup [] name {}).1 with
    | error e =>
        rw [h] at hisOk
        cases hisOk
    | ok v => exact ⟨v, rfl⟩
  have h := lookup_planWith_composed isStatic_curlLayer_wgetLayer_hardenLayer hback hlookup [] []
  refine ⟨isStatic_curlLayer_wgetLayer_hardenLayer, hback, hlookup, ((h.2.2 "wget").1 _).1 ?_⟩
  decide +kernel

end Composition

end LayeredCatalog
