import LayeredCatalog.Proofs.Composition.Closure
import Mathlib.Logic.Equiv.Basic

/-!
# Layers under other indices

The value of a constant or derived contribution does not depend on the index of its
layer, only on which slots its origin is looked up in. `Composition.IsRenumbered c c' f`
says that `c'` has the layers of `c`, with the layer `i` at the index `f i`, and that as
far as anyone looks the slots are in the same order: those of one name among each other,
and those of a name that is read in the previous view relative to the reader. Then both
compositions have the same values, up to the indices of their slots
(`IsRenumbered.hasValue`), the same final components and the same plans.

Two neighbouring layers that do not look at each other in the previous view and assign
different names may change places (`Composition.resolve_exchange`).
-/

namespace LayeredCatalog

namespace Slot

/-- The slot with the layer `i` at the index `f i`. -/
def renumber (f : Nat → Nat) : Slot → Slot
  | .base => .base
  | .layer i => .layer (f i)

theorem renumber_symm_renumber (f : Nat ≃ Nat) (s : Slot) : (s.renumber f.symm).renumber f = s := by
  cases s with
  | base => rfl
  | layer i => simp [renumber]

end Slot

namespace Composition

/-- The layers of `c` are in `c'` at the indices that `f` gives them, in an order that
no contribution can tell from the old one. -/
structure IsRenumbered (c c' : Composition) (f : Nat ≃ Nat) : Prop where
  base_eq : c'.base = c.base
  layer_eq : ∀ i, c'.layers[f i]? = c.layers[i]?
  lt_of_lt : ∀ {name : String} {i j : Nat}, c.Defines name (.layer i) →
    c.Defines name (.layer j) → i < j → f i < f j
  lt_iff_lt : ∀ {name : String} {i j : Nat} {l : Layer} {o : Origin} {t : Transform},
    c.contribution? i name = some (l, .derive o t) → o.view = .previous →
    c.Defines o.name (.layer j) → (f j < f i ↔ j < i)

namespace IsRenumbered

variable {c c' : Composition} {f : Nat ≃ Nat}

theorem contribution?_eq (h : c.IsRenumbered c' f) (i : Nat) (name : String) :
    c'.contribution? (f i) name = c.contribution? i name := by
  rw [contribution?, contribution?, h.layer_eq]

theorem defines_iff (h : c.IsRenumbered c' f) {name : String} {s : Slot} :
    c'.Defines name (s.renumber f) ↔ c.Defines name s := by
  cases s with
  | base => rw [Slot.renumber, Defines, Defines, h.base_eq]
  | layer i => rw [Slot.renumber, Defines, Defines, h.layer_eq]

theorem contains_iff (h : c.IsRenumbered c' f) (name : String) :
    c'.contains name ↔ c.contains name := by
  rw [contains_iff_exists_defines, contains_iff_exists_defines]
  constructor
  · rintro ⟨s, hs⟩
    refine ⟨s.renumber f.symm, h.defines_iff.1 ?_⟩
    rwa [Slot.renumber_symm_renumber]
  · rintro ⟨s, hs⟩
    exact ⟨s.renumber f, h.defines_iff.2 hs⟩

theorem le_of_le (h : c.IsRenumbered c' f) {name : String} {s t : Slot} (hs : c.Defines name s)
    (ht : c.Defines name t) (hle : s ≤ t) : s.renumber f ≤ t.renumber f := by
  rcases hle with rfl | hlt
  · exact .inl rfl
  · cases s with
    | base =>
        cases t with
        | base => exact hlt.elim
        | layer j => exact .inr trivial
    | layer i =>
        cases t with
        | base => exact hlt.elim
        | layer j => exact .inr (h.lt_of_lt hs ht hlt)

/-- Among the slots that define a name, the greatest one with a property stays it. -/
theorem isGreatest (h : c.IsRenumbered c' f) {name : String} {P P' : Slot → Prop} {s : Slot}
    (hP : ∀ t, c.Defines name t → (P' (t.renumber f) ↔ P t))
    (hs : IsGreatest {t | c.Defines name t ∧ P t} s) :
    IsGreatest {t | c'.Defines name t ∧ P' t} (s.renumber f) := by
  obtain ⟨⟨hdefines, hPs⟩, htop⟩ := hs
  refine ⟨⟨h.defines_iff.2 hdefines, (hP s hdefines).2 hPs⟩, ?_⟩
  rintro t' ⟨ht', hPt'⟩
  rw [← Slot.renumber_symm_renumber f t'] at ht' hPt' ⊢
  have ht := h.defines_iff.1 ht'
  exact h.le_of_le ht hdefines (htop ⟨ht, (hP _ ht).1 hPt'⟩)

theorem isLast (h : c.IsRenumbered c' f) {name : String} {s : Slot} (hs : c.IsLast name s) :
    c'.IsLast name (s.renumber f) := by
  have hgreatest : IsGreatest {t | c.Defines name t ∧ True} s := by simpa [IsLast] using hs
  have hstays : IsGreatest {t | c'.Defines name t ∧ True} (s.renumber f) :=
    h.isGreatest (fun _ _ => Iff.rfl) hgreatest
  simpa [IsLast] using hstays

/-- A derived contribution is shown its origin in the slot that it was shown before. -/
theorem shows_of_shows (h : c.IsRenumbered c' f) {name : String} {i : Nat} {l : Layer}
    {o : Origin} {t : Transform} {s : Slot}
    (hk : c.contribution? i name = some (l, .derive o t)) (hs : c.Shows i o s) :
    c'.Shows (f i) o (s.renumber f) := by
  refine h.isGreatest (fun s' hs' => ?_) hs
  obtain ⟨view, target⟩ := o
  cases view with
  | final => exact Iff.rfl
  | previous =>
      cases s' with
      | base => exact Iff.rfl
      | layer j => simpa [View.Admits, Slot.isBelow, Slot.renumber] using h.lt_iff_lt hk rfl hs'

/-- The values are the same. The proof follows the derivation of the value. -/
theorem hasValue (h : c.IsRenumbered c' f) {name : String} {s : Slot} {v : Component} :
    (∀ l ∈ c.layers, l.IsStatic) → c.HasValue name s v → c'.HasValue name (s.renumber f) v
  | _, .base hv => .base (by rwa [h.base_eq])
  | _, .constant hk => .constant ((h.contribution?_eq _ _).trans hk)
  | hstatic, .derive hk hs hold ht =>
      .derive ((h.contribution?_eq _ _).trans hk) (h.shows_of_shows hk hs)
        (h.hasValue hstatic hold) ht
  | hstatic, .compute hk _ => (forall_contribution? hstatic hk).elim

theorem hasFinal (h : c.IsRenumbered c' f) (hstatic : ∀ l ∈ c.layers, l.IsStatic)
    {name : String} {v : Component} (hv : c.HasFinal name v) : c'.HasFinal name v := by
  obtain ⟨s, hs, hv⟩ := hv
  exact ⟨s.renumber f, h.isLast hs, h.hasValue hstatic hv⟩

theorem isResolved (h : c.IsRenumbered c' f) (hstatic : ∀ l ∈ c.layers, l.IsStatic)
    {r : ResolvedCatalog} (hr : c.IsResolved r) : c'.IsResolved r := by
  constructor
  · intro name
    rw [hr.contains_iff, h.contains_iff]
  · intro name p hp
    exact (hr.hasPlan name p hp).of_hasFinal fun name v => h.hasFinal hstatic

end IsRenumbered

end Composition

namespace Layer

/-- Nothing that the layer derives from the previous view is assigned by the other
layer. -/
def LooksPast (a b : Layer) : Prop :=
  ∀ name o t, a.overlay.get? name = some (.derive o t) → o.view = .previous →
    ¬ b.overlay.contains o.name

/-- The layers assign different names and look past each other in the previous view. -/
structure IsIndependent (a b : Layer) : Prop where
  disjoint : ∀ name, a.overlay.contains name → ¬ b.overlay.contains name
  looksPast : a.LooksPast b
  lookedPast : b.LooksPast a

theorem IsIndependent.symm {a b : Layer} (h : a.IsIndependent b) : b.IsIndependent a :=
  ⟨fun name hb ha => h.disjoint name ha hb, h.lookedPast, h.looksPast⟩

end Layer

section Exchange

open Equiv (swap)

/-- Exchanging two neighbours changes the order of no other pair. -/
theorem swap_lt_swap_iff {k i j : Nat} (h : ¬ (i = k ∧ j = k + 1)) (h' : ¬ (i = k + 1 ∧ j = k)) :
    swap k (k + 1) i < swap k (k + 1) j ↔ i < j := by
  simp only [Equiv.swap_apply_def]
  split_ifs <;> omega

theorem getElem?_swap {α : Type*} (pre post : List α) (a b : α) (i : Nat) :
    (pre ++ b :: a :: post)[swap pre.length (pre.length + 1) i]? =
      (pre ++ a :: b :: post)[i]? := by
  rw [Equiv.swap_apply_def]
  split_ifs with hfirst hsecond
  · simp [hfirst]
  · simp [hsecond]
  · rcases Nat.lt_or_gt_of_ne hfirst with hlt | hgt
    · rw [List.getElem?_append_left hlt, List.getElem?_append_left hlt]
    · rw [List.getElem?_append_right hgt.le, List.getElem?_append_right hgt.le]
      obtain ⟨j, hj⟩ : ∃ j, i - pre.length = j + 2 := ⟨i - pre.length - 2, by omega⟩
      rw [hj]
      rfl

namespace Composition

variable {base : Catalog} {pre post : List Layer} {a b : Layer}

theorem isRenumbered_exchange (h : a.IsIndependent b) :
    (Composition.mk base (pre ++ a :: b :: post)).IsRenumbered
      (Composition.mk base (pre ++ b :: a :: post)) (swap pre.length (pre.length + 1)) where
  base_eq := rfl
  layer_eq := getElem?_swap pre post a b
  lt_of_lt := by
    rintro name i j ⟨l, hl, hname⟩ ⟨l', hl', hname'⟩ hlt
    refine (swap_lt_swap_iff ?_ ?_).2 hlt
    · rintro ⟨rfl, rfl⟩
      obtain rfl : a = l := by simpa using hl
      obtain rfl : b = l' := by simpa using hl'
      exact h.disjoint name hname hname'
    · rintro ⟨rfl, rfl⟩
      omega
  lt_iff_lt := by
    rintro name i j l o t hk hview ⟨l', hl', hname⟩
    obtain ⟨hl, hget⟩ := contribution?_eq_some_iff.1 hk
    refine swap_lt_swap_iff ?_ ?_
    · rintro ⟨rfl, rfl⟩
      obtain rfl : b = l := by simpa using hl
      obtain rfl : a = l' := by simpa using hl'
      exact h.lookedPast name o t hget hview hname
    · rintro ⟨rfl, rfl⟩
      obtain rfl : a = l := by simpa using hl
      obtain rfl : b = l' := by simpa using hl'
      exact h.looksPast name o t hget hview hname

theorem resolve_eq_ok_iff {c : Composition} (hstatic : ∀ l ∈ c.layers, l.IsStatic)
    {r : ResolvedCatalog} : c.resolve = .ok r ↔ c.IsResolved r :=
  resolveWith_eq_ok_iff (passesErrors_of_isStatic hstatic) (Memo.IsSound.empty c)

/-- Two neighbouring layers that assign different names and look past each other in the
previous view may change places: one order resolves exactly if the other does, and to
the same names with the same plans. What the layers read in the final view does not
matter, nor what the other layers read. All contributions are constant or derived. -/
theorem resolve_exchange (hstatic : ∀ l ∈ pre ++ a :: b :: post, l.IsStatic)
    (h : a.IsIndependent b) (r : ResolvedCatalog) :
    (Composition.mk base (pre ++ a :: b :: post)).resolve = .ok r ↔
      (Composition.mk base (pre ++ b :: a :: post)).resolve = .ok r := by
  have hperm : (pre ++ b :: a :: post).Perm (pre ++ a :: b :: post) :=
    (List.Perm.swap a b post).append_left pre
  have hstatic' : ∀ l ∈ pre ++ b :: a :: post, l.IsStatic :=
    fun l hl => hstatic l (hperm.mem_iff.1 hl)
  rw [resolve_eq_ok_iff hstatic, resolve_eq_ok_iff hstatic']
  constructor
  · exact (isRenumbered_exchange h).isResolved hstatic
  · exact (isRenumbered_exchange h.symm).isResolved hstatic'

/-- A layer that makes `wget` from what `curl` is in the end. -/
def wgetLayer : Layer := ⟨"tools", Overlay.derive ∅ "wget" ⟨.final, "curl"⟩ (.replace .ok)⟩

/-- A layer that raises the previous `curl`. -/
def curlLayer : Layer :=
  ⟨"refresh", Overlay.modify ∅ "curl" (.merge { version := some "8.6" })⟩

theorem isIndependent_wgetLayer_curlLayer : wgetLayer.IsIndependent curlLayer where
  disjoint := by
    intro name hname
    have hmem : name ∈ ["wget"] := Table.contains_iff_mem_keys.1 hname
    rw [List.mem_singleton.1 hmem]
    decide
  looksPast := by
    intro name o t hget hview
    cases List.mem_singleton.1 (Table.get?_eq_some_iff.1 hget)
    cases hview
  lookedPast := by
    intro name o t hget _
    cases List.mem_singleton.1 (Table.get?_eq_some_iff.1 hget)
    decide

theorem resolve_exchange_wgetLayer_curlLayer :
    (∀ l ∈ [curlLayer] ++ wgetLayer :: curlLayer :: [wgetLayer], l.IsStatic) ∧
      wgetLayer.IsIndependent curlLayer ∧ ∃ r : ResolvedCatalog, r.contains "wget" ∧
      (Composition.mk refreshed.base [curlLayer, wgetLayer, curlLayer, wgetLayer]).resolve =
        .ok r ∧
      (Composition.mk refreshed.base [curlLayer, curlLayer, wgetLayer, wgetLayer]).resolve =
        .ok r := by
  have hstatic : ∀ l ∈ [curlLayer] ++ wgetLayer :: curlLayer :: [wgetLayer], l.IsStatic := by
    have hwget : wgetLayer.IsStatic := Layer.isStatic_iff_forall_mem.2 <|
      List.forall_mem_singleton.2 trivial
    have hcurl : curlLayer.IsStatic := Layer.isStatic_iff_forall_mem.2 <|
      List.forall_mem_singleton.2 trivial
    simp [hwget, hcurl]
  have hkeys : (Composition.mk refreshed.base
      [curlLayer, wgetLayer, curlLayer, wgetLayer]).resolve.toOption.map (·.contains "wget") =
        some true := by
    decide +kernel
  cases hr : (Composition.mk refreshed.base
      [curlLayer, wgetLayer, curlLayer, wgetLayer]).resolve with
  | error e =>
      rw [hr] at hkeys
      cases hkeys
  | ok r =>
      rw [hr] at hkeys
      refine ⟨hstatic, isIndependent_wgetLayer_curlLayer, r, Option.some.inj hkeys, rfl, ?_⟩
      exact (resolve_exchange hstatic isIndependent_wgetLayer_curlLayer r).1 hr

end Composition

end Exchange

end LayeredCatalog
