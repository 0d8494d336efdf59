import LayeredCatalog.Proofs.Composition.Evaluation

/-!
# The slots of all names in one table

The slots of a name can be told from the composition for that name alone
(`Composition.slots`), or they are gathered for all names in one pass: the base enters its
names, and then each layer in turn puts its slot behind those of each name that it assigns
(`Composition.slotTable`). A name gets one slot from each place that assigns it, and the
places are visited from the base upwards, so the pass leaves the same lists
(`Composition.get?_slotTable`). They increase strictly, and this is why a search from the end
of a list finds the greatest slot below a layer and never the layer itself
(`Composition.slotTable_ordered_and_searched`).
-/

namespace LayeredCatalog

/-- Slots by name. -/
abbrev SlotTable := Table String (List Slot)

namespace SlotTable

/-- Puts a slot behind those of a name. -/
def push (t : SlotTable) (s : Slot) (name : String) : SlotTable :=
  t.insert name ((t.get? name).getD [] ++ [s])

/-- Puts a slot behind those of each name of a list. -/
def pushAll (t : SlotTable) (s : Slot) (names : List String) : SlotTable :=
  names.foldl (fun t name => t.push s name) t

/-- Enters the names that layers assign, one layer after another. The first layer has the
index `i`. -/
def pushLayers (t : SlotTable) (i : Nat) : List Layer → SlotTable
  | [] => t
  | l :: layers => (t.pushAll (.layer i) l.overlay.keys).pushLayers (i + 1) layers

/-- The last slot of a name that lies below a layer, searched for from the end. -/
def below? (t : SlotTable) (layer : Nat) (name : String) : Option Slot :=
  (t.get? name).bind fun slots => slots.reverse.find? (·.isBelow layer)

/-- The last slot of a name. -/
def last? (t : SlotTable) (name : String) : Option Slot := (t.get? name).bind List.getLast?

/-- What is held under a name once more slots are put behind. Where none are, a name does not
come into being. -/
def extended (old : Option (List Slot)) (more : List Slot) : Option (List Slot) :=
  if more = [] then old else some (old.getD [] ++ more)

@[simp] theorem extended_nil (old : Option (List Slot)) : extended old [] = old := rfl

theorem extended_extended (old : Option (List Slot)) (more more' : List Slot) :
    extended (extended old more) more' = extended old (more ++ more') := by
  cases more with
  | nil => rfl
  | cons s more =>
      cases more' with
      | nil => rw [List.append_nil, extended_nil]
      | cons s' more' => simp [extended]

variable {t : SlotTable} {name : String}

theorem get?_push (t : SlotTable) (s : Slot) (name name' : String) :
    (t.push s name).get? name' = extended (t.get? name') (if name' = name then [s] else []) := by
  rw [push, Table.get?_insert]
  split
  · next h => simp [extended, h]
  · rfl

/-- Each name of the list gets the slot once, and no other name gets it. -/
theorem get?_pushAll {s : Slot} {names : List String} (h : names.Nodup) :
    (t.pushAll s names).get? name =
      extended (t.get? name) (if name ∈ names then [s] else []) := by
  induction names generalizing t with
  | nil => rfl
  | cons first names ih =>
      obtain ⟨hfirst, hnames⟩ := List.nodup_cons.1 h
      have hrest := ih (t := t.push s first) hnames
      rw [pushAll] at hrest ⊢
      rw [List.foldl_cons, hrest, get?_push, extended_extended]
      by_cases hname : name = first
      · subst hname
        simp [hfirst]
      · simp [hname]

theorem get?_pushAll_keys {α : Type} (u : Table String α) (s : Slot) :
    (t.pushAll s u.keys).get? name =
      extended (t.get? name) (if u.contains name then [s] else []) := by
  rw [get?_pushAll u.nodup_keys]
  simp only [Table.contains_iff_mem_keys]

/-- A name gets the slots of the layers that assign it, in their order. -/
theorem get?_pushLayers {i : Nat} {layers : List Layer} :
    (t.pushLayers i layers).get? name =
      extended (t.get? name) (Composition.layersAssigning name i layers) := by
  induction layers generalizing t i with
  | nil => rfl
  | cons l layers ih =>
      rw [pushLayers, ih, get?_pushAll_keys, extended_extended, Composition.layersAssigning]
      by_cases hassigns : l.overlay.contains name
      · rw [if_pos hassigns, if_pos hassigns, List.singleton_append]
      · rw [if_neg hassigns, if_neg hassigns, List.nil_append]

end SlotTable

namespace Composition

/-- The slots of all names, entered from the base upwards. -/
def slotTable (c : Composition) : SlotTable :=
  (SlotTable.pushAll .empty .base c.base.keys).pushLayers 0 c.layers

variable {c : Composition} {name : String}

theorem slots_eq_nil_iff : c.slots name = [] ↔ name ∉ c.names := by
  rw [← contains_iff_mem_names, contains_iff_exists_defines, List.eq_nil_iff_forall_not_mem]
  simp [mem_slots]

/-- The table holds the slots of a name, if there are any. -/
theorem get?_slotTable :
    c.slotTable.get? name = if name ∈ c.names then some (c.slots name) else none := by
  rw [slotTable, SlotTable.get?_pushLayers, SlotTable.get?_pushAll_keys,
    SlotTable.extended_extended, ← slots, SlotTable.extended, Table.get?_empty]
  simp only [slots_eq_nil_iff, ite_not, Option.getD_none, List.nil_append]

/-- The names in the table are the names of the composition, in the same order. -/
theorem keys_slotTable (c : Composition) : c.slotTable.keys = c.names := by
  refine Table.keys_eq_of_contains_iff fun name => ?_
  rw [Table.contains_iff_mem_keys (t := List.foldl ..)]
  change _ ↔ name ∈ c.names
  rw [Table.contains, get?_slotTable]
  split
  · next h => simp [h]
  · next h => simp [h]

/-- What finds nothing in an empty list finds in the table what it finds in the slots. -/
theorem bind_get?_slotTable {find : List Slot → Option Slot} (h : find [] = none) :
    (c.slotTable.get? name).bind find = find (c.slots name) := by
  rw [get?_slotTable]
  split
  · rfl
  · next hname => rw [slots_eq_nil_iff.2 hname, h, Option.bind_none]

theorem below?_slotTable {i : Nat} : c.slotTable.below? i name = c.slotBelow? i name :=
  bind_get?_slotTable rfl

theorem last?_slotTable : c.slotTable.last? name = c.lastSlot? name := bind_get?_slotTable rfl

theorem head?_slots_eq_base_iff :
    (c.slots name).head? = some .base ↔ c.base.contains name := by
  constructor
  · intro h
    exact mem_slots.1 (List.mem_of_head? h)
  · intro h
    rw [slots, if_pos h]
    rfl

theorem mem_slots_iff {s : Slot} :
    s ∈ c.slots name ↔ (s = .base ∧ c.base.contains name) ∨
      ∃ i l, c.layers[i]? = some l ∧ l.overlay.contains name ∧ s = .layer i := by
  rw [mem_slots]
  cases s with
  | base => simp [Defines]
  | layer i => simp [Defines]

theorem slotBelow?_eq_none_iff {i : Nat} :
    c.slotBelow? i name = none ↔ ¬ c.base.contains name ∧
      ∀ j < i, ∀ l, c.layers[j]? = some l → ¬ l.overlay.contains name := by
  rw [← Option.not_isSome_iff_eq_none, slotBelow?_isSome_iff]
  constructor
  · intro h
    refine ⟨fun hbase => h ⟨.base, hbase, rfl⟩, fun j hj l hl hassigns => ?_⟩
    exact h ⟨.layer j, ⟨l, hl, hassigns⟩, decide_eq_true hj⟩
  · rintro ⟨hbase, hlayers⟩ ⟨s, hs, hbelow⟩
    cases s with
    | base => exact hbase hs
    | layer j =>
        obtain ⟨l, hl, hassigns⟩ := hs
        exact hlayers j (of_decide_eq_true hbelow) l hl hassigns

/-- One pass from the base upwards leaves, for each name of the composition and for no other
one, the slots of the name. They increase strictly, the base comes first if it has the name,
and they are the base, if it has the name, and the layers that assign the name. A search from
the end finds the greatest of them below a layer; it finds none exactly if neither the base
has the name nor a layer further down assigns it. The last slot is the greatest of all. -/
theorem slotTable_ordered_and_searched (c : Composition) :
    c.slotTable.keys = c.names ∧
    (∀ name, c.slotTable.get? name = if name ∈ c.names then some (c.slots name) else none) ∧
    (∀ name, (c.slots name).Pairwise Slot.lt ∧
      ((c.slots name).head? = some .base ↔ c.base.contains name) ∧
      (c.slots name = [] ↔ name ∉ c.names) ∧
      ∀ s, s ∈ c.slots name ↔ (s = .base ∧ c.base.contains name) ∨
        ∃ i l, c.layers[i]? = some l ∧ l.overlay.contains name ∧ s = .layer i) ∧
    (∀ i name, c.slotBelow? i name = c.slotTable.below? i name ∧
      (∀ s, c.slotBelow? i name = some s ↔
        IsGreatest {t | t ∈ c.slots name ∧ t.lt (.layer i)} s) ∧
      (c.slotBelow? i name = none ↔ ¬ c.base.contains name ∧
        ∀ j < i, ∀ l, c.layers[j]? = some l → ¬ l.overlay.contains name)) ∧
    ∀ name, c.lastSlot? name = c.slotTable.last? name ∧
      (∀ s, c.lastSlot? name = some s ↔ IsGreatest {t | t ∈ c.slots name} s) ∧
      (c.lastSlot? name = none ↔ name ∉ c.names) := by
  refine ⟨c.keys_slotTable, fun name => get?_slotTable, fun name => ?_, fun i name => ?_,
    fun name => ?_⟩
  · exact ⟨c.pairwise_slots name, head?_slots_eq_base_iff, slots_eq_nil_iff,
      fun s => mem_slots_iff⟩
  · refine ⟨below?_slotTable.symm, fun s => ?_, slotBelow?_eq_none_iff⟩
    simp only [slotBelow?_eq_some_iff, Shows, View.Admits, mem_slots, Slot.isBelow_iff_lt]
  · refine ⟨last?_slotTable.symm, fun s => ?_, ?_⟩
    · simp only [lastSlot?_eq_some_iff, IsLast, mem_slots]
    · rw [lastSlot?, List.getLast?_eq_none_iff, slots_eq_nil_iff]

/-- The upper layer sees the `curl` of the base and not its own. -/
example :
    refreshed.slotTable.toList = [("curl", [.base, .layer 1]), ("wget", [.layer 0]),
      ("zlib", [.base])] ∧
    refreshed.slotTable.below? 1 "curl" = some .base ∧
    refreshed.slotTable.below? 0 "wget" = none := by
  decide +kernel

end Composition

end LayeredCatalog
