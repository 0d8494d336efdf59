import LayeredCatalog.Composition
import Mathlib.Order.Bounds.Basic

/-!
# Which slots a view shows

`c.Defines name s` says that the slot `s` defines a name, without any list of
slots. The slots of a name are listed in strictly increasing order
(`pairwise_slots`), so a search from the top finds the greatest one that a view
admits: `Shows c i o s` is that reading of a view, and `slotIn?_eq_some_iff`
ties it to the search. The final view does not depend on the layer it is read
from and is `lastSlot?`.
-/

namespace LayeredCatalog

namespace Slot

instance : LE Slot := ⟨fun s t => s = t ∨ s.lt t⟩

theorem not_lt_self (s : Slot) : ¬ s.lt s := by
  cases s with
  | base => exact id
  | layer i => exact Nat.lt_irrefl i

theorem lt_asymm {s t : Slot} (h : s.lt t) : ¬ t.lt s := by
  cases s with
  | base =>
      cases t with
      | base => exact id
      | layer j => exact id
  | layer i =>
      cases t with
      | base => exact fun _ => h
      | layer j => exact Nat.lt_asymm h

theorem not_lt_of_le {s t : Slot} (h : s ≤ t) : ¬ t.lt s := by
  rcases h with rfl | hlt
  · exact not_lt_self s
  · exact lt_asymm hlt

theorem lt_of_le_of_lt {s t : Slot} {i : Nat} (hst : s ≤ t) (ht : t.lt (.layer i)) :
    s.lt (.layer i) := by
  rcases hst with rfl | hst
  · exact ht
  · cases s with
    | base => trivial
    | layer j =>
        cases t with
        | base => exact hst.elim
        | layer k => exact Nat.lt_trans hst ht

theorem isBelow_iff_lt {s : Slot} {i : Nat} : s.isBelow i ↔ s.lt (.layer i) := by
  cases s with
  | base => simp [isBelow, lt]
  | layer j => simp [isBelow, lt]

/-- In a list of slots from the base upwards, a search from the end finds the
greatest slot with the wanted property. -/
theorem find?_reverse_eq_some_iff {l : List Slot} (hl : l.Pairwise Slot.lt)
    (p : Slot → Bool) (s : Slot) :
    l.reverse.find? p = some s ↔ IsGreatest {t | t ∈ l ∧ p t} s := by
  rw [List.find?_eq_some_iff_append]
  constructor
  · rintro ⟨hp, above, below, hsplit, habove⟩
    have hl' : l = below.reverse ++ s :: above.reverse := by
      rw [← List.reverse_reverse l, hsplit]
      simp
    refine ⟨⟨by simp [hl'], hp⟩, ?_⟩
    rintro t ⟨ht, hpt⟩
    rw [hl', List.pairwise_append] at hl
    rw [hl', List.mem_append, List.mem_cons, List.mem_reverse, List.mem_reverse] at ht
    rcases ht with ht | rfl | ht
    · exact .inr (hl.2.2 t (List.mem_reverse.2 ht) s (List.mem_cons_self ..))
    · exact .inl rfl
    · have := habove t ht
      simp [hpt] at this
  · rintro ⟨⟨hs, hp⟩, htop⟩
    obtain ⟨below, above, rfl⟩ := List.append_of_mem hs
    refine ⟨hp, above.reverse, below.reverse, by simp, ?_⟩
    intro t ht
    rw [List.mem_reverse] at ht
    by_contra hpt
    have hst : s.lt t := by
      rw [List.pairwise_append, List.pairwise_cons] at hl
      exact hl.2.1.1 t ht
    have hmem : t ∈ below ++ s :: above := by simp [ht]
    rcases htop ⟨hmem, by simpa using hpt⟩ with rfl | hts
    · exact not_lt_self t hst
    · exact lt_asymm hst hts

end Slot

/-- Whether a view, as seen from a layer, looks into a slot. -/
def View.Admits (view : View) (layer : Nat) (s : Slot) : Prop :=
  match view with
  | .previous => s.isBelow layer
  | .final => True

namespace Composition

/-- Whether a slot defines a name. -/
def Defines (c : Composition) (name : String) : Slot → Prop
  | .base => c.base.contains name
  | .layer i => ∃ l, c.layers[i]? = some l ∧ l.overlay.contains name

/-- The slot `s` is the last one that defines the name. -/
def IsLast (c : Composition) (name : String) (s : Slot) : Prop :=
  IsGreatest {t | c.Defines name t} s

/-- The view of the origin `o`, as seen from layer `i`, shows the name of `o` as
the slot `s` defines it: of the slots the view looks into, `s` is the greatest
one that defines the name. -/
def Shows (c : Composition) (i : Nat) (o : Origin) (s : Slot) : Prop :=
  IsGreatest {t | c.Defines o.name t ∧ o.view.Admits i t} s

theorem Defines.isBelow {c : Composition} {name : String} {s : Slot}
    (h : c.Defines name s) : s.isBelow c.layers.length := by
  cases s with
  | base => rfl
  | layer i =>
      obtain ⟨l, hl, -⟩ := h
      exact decide_eq_true (List.getElem?_eq_some_iff.1 hl).1

theorem mem_layersAssigning {name : String} {s : Slot} (layers : List Layer) (i : Nat) :
    s ∈ layersAssigning name i layers ↔
      ∃ j l, layers[j]? = some l ∧ l.overlay.contains name ∧ s = .layer (i + j) := by
  induction layers generalizing i with
  | nil => simp [layersAssigning]
  | cons l layers ih =>
      have hrest : s ∈ layersAssigning name (i + 1) layers ↔
          ∃ j l', (l :: layers)[j + 1]? = some l' ∧ l'.overlay.contains name ∧
            s = .layer (i + (j + 1)) := by
        rw [ih (i + 1)]
        simp only [List.getElem?_cons_succ, Nat.add_assoc, Nat.add_comm 1]
      have hhead : (l.overlay.contains name ∧ s = .layer i) ↔
          ∃ l', (l :: layers)[0]? = some l' ∧ l'.overlay.contains name ∧
            s = .layer (i + 0) := by
        simp
      rw [← Nat.or_exists_add_one, ← hhead, ← hrest, layersAssigning]
      split
      · next h => simp [h]
      · next h => simp [h]

theorem pairwise_layersAssigning (name : String) (layers : List Layer) (i : Nat) :
    (layersAssigning name i layers).Pairwise Slot.lt := by
  induction layers generalizing i with
  | nil => simp [layersAssigning]
  | cons l layers ih =>
      rw [layersAssigning]
      split
      · refine List.pairwise_cons.2 ⟨?_, ih (i + 1)⟩
        intro s hs
        obtain ⟨j, -, -, -, rfl⟩ := (mem_layersAssigning layers (i + 1)).1 hs
        show i < i + 1 + j
        omega
      · exact ih (i + 1)

/-- The listed slots of a name are the slots that define it. -/
theorem mem_slots {c : Composition} {name : String} {s : Slot} :
    s ∈ c.slots name ↔ c.Defines name s := by
  rw [slots, List.mem_append, mem_layersAssigning]
  cases s with
  | base => simp [Defines]
  | layer i => simp [Defines]

theorem pairwise_slots (c : Composition) (name : String) :
    (c.slots name).Pairwise Slot.lt := by
  refine List.pairwise_append.2 ⟨?_, pairwise_layersAssigning name c.layers 0, ?_⟩
  · split <;> simp
  · intro s hs t ht
    obtain ⟨j, -, -, -, rfl⟩ := (mem_layersAssigning c.layers 0).1 ht
    have hbase : s = .base := by
      split at hs
      · exact List.mem_singleton.1 hs
      · exact absurd hs (by simp)
    rw [hbase]
    trivial

theorem lastSlot?_eq_some_iff {c : Composition} {name : String} {s : Slot} :
    c.lastSlot? name = some s ↔ c.IsLast name s := by
  have hsearch : c.lastSlot? name = (c.slots name).reverse.find? fun _ => true := by
    rw [lastSlot?, ← List.head?_reverse]
    cases (c.slots name).reverse with
    | nil => rfl
    | cons t r => rfl
  rw [hsearch, Slot.find?_reverse_eq_some_iff (c.pairwise_slots name)]
  simp [IsLast, mem_slots]

theorem slotBelow?_eq_some_iff {c : Composition} {i : Nat} {name : String} {s : Slot} :
    c.slotBelow? i name = some s ↔ c.Shows i ⟨.previous, name⟩ s := by
  rw [slotBelow?, Slot.find?_reverse_eq_some_iff (c.pairwise_slots name)]
  simp [Shows, mem_slots, View.Admits]

/-- A view shows a name as the slot that the search finds. -/
theorem slotIn?_eq_some_iff {c : Composition} {i : Nat} {o : Origin} {s : Slot} :
    c.slotIn? i o = some s ↔ c.Shows i o s := by
  obtain ⟨view, name⟩ := o
  cases view with
  | previous => exact slotBelow?_eq_some_iff
  | final =>
      rw [slotIn?, lastSlot?_eq_some_iff]
      simp [IsLast, Shows, View.Admits]

theorem slotBelow?_isSome_iff {c : Composition} {i : Nat} {name : String} :
    (c.slotBelow? i name).isSome ↔ ∃ s, c.Defines name s ∧ s.isBelow i := by
  rw [slotBelow?, List.find?_isSome]
  simp [mem_slots]

/-- Below the first layer there is nothing but the base. -/
theorem slotBelow?_zero (c : Composition) (name : String) :
    c.slotBelow? 0 name = (c.base.get? name).map fun _ => .base := by
  refine Option.ext fun s => ?_
  rw [slotBelow?_eq_some_iff, Option.map_eq_some_iff]
  constructor
  · rintro ⟨⟨hs, hbelow⟩, -⟩
    cases s with
    | base =>
        obtain ⟨v, hv⟩ := Option.isSome_iff_exists.1 hs
        exact ⟨v, hv, rfl⟩
    | layer i => simp [View.Admits, Slot.isBelow] at hbelow
  · rintro ⟨v, hv, rfl⟩
    refine ⟨⟨Option.isSome_iff_exists.2 ⟨v, hv⟩, rfl⟩, ?_⟩
    rintro t ⟨-, hbelow⟩
    cases t with
    | base => exact .inl rfl
    | layer i => simp [View.Admits, Slot.isBelow] at hbelow

/-- One layer further up the view shows the layer if it defines the name. -/
theorem slotBelow?_succ_of_defines {c : Composition} {name : String} {i : Nat}
    (h : c.Defines name (.layer i)) : c.slotBelow? (i + 1) name = some (.layer i) := by
  refine slotBelow?_eq_some_iff.2 ⟨⟨h, by simp [View.Admits, Slot.isBelow]⟩, ?_⟩
  rintro t ⟨-, hbelow⟩
  cases t with
  | base => exact .inr trivial
  | layer j =>
      have hj : j < i + 1 := by simpa [View.Admits, Slot.isBelow] using hbelow
      rcases Nat.lt_succ_iff_lt_or_eq.1 hj with hlt | rfl
      · exact .inr hlt
      · exact .inl rfl

/-- If the layer does not define the name, the view does not change. -/
theorem slotBelow?_succ_of_not_defines {c : Composition} {name : String} {i : Nat}
    (h : ¬ c.Defines name (.layer i)) : c.slotBelow? (i + 1) name = c.slotBelow? i name := by
  have hset : {t | c.Defines name t ∧ View.previous.Admits (i + 1) t} =
      {t | c.Defines name t ∧ View.previous.Admits i t} := by
    ext t
    refine and_congr_right fun ht => ?_
    cases t with
    | base => simp [View.Admits, Slot.isBelow]
    | layer j =>
        have hne : j ≠ i := by
          rintro rfl
          exact h ht
        simp only [View.Admits, Slot.isBelow, decide_eq_true_eq]
        omega
  refine Option.ext fun s => ?_
  rw [slotBelow?_eq_some_iff, slotBelow?_eq_some_iff, Shows, Shows, hset]

/-- Above all layers the previous view shows what the final view shows. -/
theorem slotBelow?_length (c : Composition) (name : String) :
    c.slotBelow? c.layers.length name = c.lastSlot? name := by
  have hset : {t | c.Defines name t ∧ View.previous.Admits c.layers.length t} =
      {t | c.Defines name t} := by
    ext t
    refine and_iff_left_of_imp fun ht => ?_
    cases t with
    | base => rfl
    | layer i =>
        obtain ⟨l, hl, -⟩ := ht
        exact decide_eq_true (List.getElem?_eq_some_iff.1 hl).1
  refine Option.ext fun s => ?_
  rw [slotBelow?_eq_some_iff, lastSlot?_eq_some_iff, Shows, hset, IsLast]

theorem contribution?_eq_some_iff {c : Composition} {i : Nat} {name : String} {l : Layer}
    {k : Contribution} :
    c.contribution? i name = some (l, k) ↔
      c.layers[i]? = some l ∧ l.overlay.get? name = some k := by
  rw [contribution?]
  cases c.layers[i]? with
  | none => simp
  | some l' =>
      simp only [Option.map_eq_some_iff, Prod.mk.injEq, Option.some.injEq]
      constructor
      · rintro ⟨k', hk, rfl, rfl⟩
        exact ⟨rfl, hk⟩
      · rintro ⟨rfl, hk⟩
        exact ⟨k, hk, rfl, rfl⟩

/-- What holds of all contributions of all layers holds of one that is found. -/
theorem forall_contribution? {c : Composition} {P : Contribution → Prop}
    (h : ∀ l ∈ c.layers, ∀ name k, l.overlay.get? name = some k → P k) {i : Nat}
    {name : String} {l : Layer} {k : Contribution} (hk : c.contribution? i name = some (l, k)) :
    P k := by
  obtain ⟨hl, hget⟩ := contribution?_eq_some_iff.1 hk
  exact h l (List.mem_of_getElem? hl) name k hget

/-- A layer defines the names that it has a contribution for. -/
theorem defines_layer_iff {c : Composition} {name : String} {i : Nat} :
    c.Defines name (.layer i) ↔ ∃ l k, c.contribution? i name = some (l, k) := by
  simp only [contribution?_eq_some_iff, Defines, Table.contains, Option.isSome_iff_exists]
  exact exists_congr fun l => exists_and_left.symm

theorem contains_iff_exists_defines {c : Composition} {name : String} :
    c.contains name ↔ ∃ s, c.Defines name s := by
  rw [contains, Bool.or_eq_true, List.any_eq_true]
  constructor
  · rintro (h | ⟨l, hl, h⟩)
    · exact ⟨.base, h⟩
    · obtain ⟨i, hi⟩ := List.mem_iff_getElem?.1 hl
      exact ⟨.layer i, l, hi, h⟩
  · rintro ⟨s, hs⟩
    cases s with
    | base => exact .inl hs
    | layer i =>
        obtain ⟨l, hl, h⟩ := hs
        exact .inr ⟨l, List.mem_of_getElem? hl, h⟩

/-- A name that some slot defines has a last slot. -/
theorem contains_iff_exists_isLast {c : Composition} {name : String} :
    c.contains name ↔ ∃ s, c.IsLast name s := by
  rw [contains_iff_exists_defines]
  constructor
  · rintro ⟨s, hs⟩
    have hne : c.slots name ≠ [] := List.ne_nil_of_mem (mem_slots.2 hs)
    exact ⟨_, lastSlot?_eq_some_iff.1 (List.getLast?_eq_some_getLast hne)⟩
  · rintro ⟨s, hs⟩
    exact ⟨s, hs.1⟩

/-- A view shows a name exactly if it looks into a slot that defines the name. -/
theorem exists_shows_iff {c : Composition} {i : Nat} {o : Origin} :
    (∃ s, c.Shows i o s) ↔ ∃ s, c.Defines o.name s ∧ o.view.Admits i s := by
  obtain ⟨view, name⟩ := o
  cases view with
  | previous =>
      rw [← exists_congr fun s => slotBelow?_eq_some_iff, ← Option.isSome_iff_exists]
      exact slotBelow?_isSome_iff
  | final =>
      have hlast : (∃ s, c.Shows i ⟨.final, name⟩ s) ↔ ∃ s, c.IsLast name s := by
        simp [Shows, IsLast, View.Admits]
      rw [hlast, ← contains_iff_exists_isLast, contains_iff_exists_defines]
      simp [View.Admits]

end Composition

end LayeredCatalog
