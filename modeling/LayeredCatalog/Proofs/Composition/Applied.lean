import LayeredCatalog.Proofs.Composition.Slots
import LayeredCatalog.Proofs.Transcript

/-!
# Layers applied one after another

The plain way to compose a catalog is to go through the layers from the base upwards
and to keep for each name what it is by then: its component, or why it has none.
Each layer replaces the results of the names that it assigns. What it reads is
answered by the results below it, in both views; that is what the previous view
shows, so `Composition.applied` means something for layers that only look back
(`Layer.LooksBack`).

The results below a layer are those of the slots that the previous view shows
(`get?_appliedBelow`), and the last results are those of the last slots
(`get?_applied`).
-/

namespace LayeredCatalog

/-- For names what they are: a component, or a fault. -/
abbrev Results := Table String (Except ResolutionError Component)

/-- What a layer is told about an origin by the results below it. -/
def Results.tell (below : Results) (o : Origin) : Except LayerFailure Component :=
  match below.get? o.name with
  | none => .error (.missing o.name o.view)
  | some result => result.mapError .fault

namespace Reading

/-- The result of a computation on answers that do not change. -/
def evaluate {α : Type} (answer : Origin → Except LayerFailure Component)
    (below : String → Bool) : Reading α → α
  | .done result => result
  | .read o next => (next (answer o)).evaluate answer below
  | .definedBelow name next => (next (below name)).evaluate answer below

/-- Whether everything that a computation reads is in the previous view. -/
def LooksBack {α : Type} : Reading α → Prop
  | .done _ => True
  | .read o next => o.view = .previous ∧ ∀ answer, (next answer).LooksBack
  | .definedBelow _ next => ∀ b, (next b).LooksBack

theorem evaluate_leadsTo {α : Type} (answer : Origin → Except LayerFailure Component)
    (below : String → Bool) (r : Reading α) :
    ∃ ts, r.LeadsTo below ts (.done (r.evaluate answer below)) ∧
      ∀ t ∈ ts, t.2 = answer t.1 := by
  induction r with
  | done result => exact ⟨[], .refl _, List.forall_mem_nil _⟩
  | read o next ih =>
      obtain ⟨ts, hts, hanswers⟩ := ih (answer o)
      exact ⟨(o, answer o) :: ts, .read hts, List.forall_mem_cons.2 ⟨rfl, hanswers⟩⟩
  | definedBelow name next ih =>
      obtain ⟨ts, hts, hanswers⟩ := ih (below name)
      exact ⟨ts, .definedBelow hts, hanswers⟩

theorem LeadsTo.looksBack {α : Type} {below : String → Bool} {r r' : Reading α}
    {ts : Transcript} (h : r.LeadsTo below ts r') (hr : r.LooksBack) : r'.LooksBack := by
  induction h with
  | refl r => exact hr
  | read _ ih => exact ih (hr.2 _)
  | definedBelow _ ih => exact ih (hr _)

end Reading

namespace Contribution

/-- What a contribution of the layer `i` makes of the results below the layer. -/
def applyTo (below : Results) (i : Nat) : Contribution → Except LayerFailure Component
  | .constant component => .ok component
  | .compute body => (body i).evaluate below.tell below.contains
  | .derive o transform =>
    match below.tell o with
    | .error failure => .error failure
    | .ok old => transform.apply old

/-- Whether everything that a contribution reads is in the previous view. -/
def LooksBack (k : Contribution) : Prop := ∀ i, (k.toReading i).LooksBack

theorem applyTo_eq_evaluate (below : Results) (i : Nat) (k : Contribution) :
    k.applyTo below i = (k.toReading i).evaluate below.tell below.contains := by
  cases k with
  | constant component => rfl
  | compute body => rfl
  | derive o t =>
      rw [applyTo, toReading, Reading.andThen, Reading.bind, Reading.evaluate]
      cases below.tell o with
      | error failure => rfl
      | ok old => rfl

theorem looksBack_constant (component : Component) : (constant component).LooksBack :=
  fun _ => trivial

theorem looksBack_derive_iff {o : Origin} {t : Transform} :
    (derive o t).LooksBack ↔ o.view = .previous := by
  constructor
  · intro h
    exact (h 0).1
  · intro ho i
    refine ⟨ho, fun answer => ?_⟩
    cases answer with
    | error failure => exact trivial
    | ok old => exact trivial

end Contribution

namespace Layer

/-- Whether everything that a layer reads is in the previous view. -/
def LooksBack (l : Layer) : Prop := ∀ name k, l.overlay.get? name = some k → k.LooksBack

/-- The result of a name that the layer `i` assigns. -/
def resultOn (l : Layer) (i : Nat) (below : Results) (name : String) (k : Contribution) :
    Except ResolutionError Component :=
  match k.applyTo below i with
  | .error failure => .error (failure.blame name i l.name)
  | .ok component => .ok { component with name }

/-- The results with the layer `i` above them. -/
def applyTo (l : Layer) (i : Nat) (below : Results) : Results :=
  below.insertMany (l.overlay.map (l.resultOn i below)).toList

/-- The results of layers above a base, each one applied to those before it. -/
def applyAll (base : Catalog) (layers : List Layer) : Results :=
  layers.zipIdx.foldl (fun below l => l.1.applyTo l.2 below) (base.map fun _ v => .ok v)

theorem get?_applyTo (l : Layer) (i : Nat) (below : Results) (name : String) :
    (l.applyTo i below).get? name =
      ((l.overlay.get? name).map (l.resultOn i below name)).or (below.get? name) := by
  rw [applyTo, Table.get?_insertMany_toList, Table.get?_map]

theorem applyAll_concat (base : Catalog) (layers : List Layer) (l : Layer) :
    applyAll base (layers ++ [l]) = l.applyTo layers.length (applyAll base layers) := by
  rw [applyAll, List.zipIdx_append, List.foldl_append, Nat.zero_add]
  rfl

theorem looksBack_iff_forall_mem {l : Layer} :
    l.LooksBack ↔ ∀ e ∈ l.overlay.toList, e.2.LooksBack :=
  Table.forall_get?_iff

end Layer

namespace Composition

/-- The results of all layers, applied one after another. -/
def applied (c : Composition) : Results := Layer.applyAll c.base c.layers

/-- The results below the layer `i`. -/
def appliedBelow (c : Composition) (i : Nat) : Results :=
  Layer.applyAll c.base (c.layers.take i)

/-- The result of a name once its slot is applied. -/
def resultAt (c : Composition) (name : String) : Slot → Except ResolutionError Component
  | .base => ((c.appliedBelow 0).get? name).getD (.error (.unknownComponent name .final))
  | .layer i => ((c.appliedBelow (i + 1)).get? name).getD (.error (.unknownComponent name .final))

section Results

variable {c : Composition} {name : String} {i : Nat} {l : Layer} {k : Contribution}

theorem get?_appliedBelow_zero :
    (c.appliedBelow 0).get? name = (c.base.get? name).map .ok := by
  rw [appliedBelow, List.take_zero, Layer.applyAll, List.zipIdx_nil, List.foldl_nil,
    Table.get?_map]

theorem appliedBelow_succ (hl : c.layers[i]? = some l) :
    c.appliedBelow (i + 1) = l.applyTo i (c.appliedBelow i) := by
  have hlength : (c.layers.take i).length = i :=
    List.length_take_of_le (List.getElem?_eq_some_iff.1 hl).1.le
  rw [appliedBelow, List.take_add_one, hl, Option.toList_some, Layer.applyAll_concat, hlength,
    appliedBelow]

theorem get?_appliedBelow_succ_of_contribution? (hk : c.contribution? i name = some (l, k)) :
    (c.appliedBelow (i + 1)).get? name = some (l.resultOn i (c.appliedBelow i) name k) := by
  obtain ⟨hl, hget⟩ := contribution?_eq_some_iff.1 hk
  rw [appliedBelow_succ hl, Layer.get?_applyTo, hget]
  rfl

theorem get?_appliedBelow_succ_of_not_defines (h : ¬ c.Defines name (.layer i)) :
    (c.appliedBelow (i + 1)).get? name = (c.appliedBelow i).get? name := by
  cases hl : c.layers[i]? with
  | none =>
      rw [appliedBelow, List.take_add_one, hl, Option.toList_none, List.append_nil, appliedBelow]
  | some l =>
      have hnone : l.overlay.get? name = none := by
        by_contra hsome
        exact h ⟨l, hl, Option.isSome_iff_ne_none.2 hsome⟩
      rw [appliedBelow_succ hl, Layer.get?_applyTo, hnone]
      rfl

theorem resultAt_base {v : Component} (hv : c.base.get? name = some v) :
    c.resultAt name .base = .ok v := by
  rw [resultAt, get?_appliedBelow_zero, hv]
  rfl

theorem resultAt_layer (hk : c.contribution? i name = some (l, k)) :
    c.resultAt name (.layer i) = l.resultOn i (c.appliedBelow i) name k := by
  rw [resultAt, get?_appliedBelow_succ_of_contribution? hk]
  rfl

/-- Below a layer a name is what its slot in the previous view made of it. -/
theorem get?_appliedBelow (c : Composition) (i : Nat) (name : String) :
    (c.appliedBelow i).get? name = (c.slotBelow? i name).map (c.resultAt name) := by
  induction i with
  | zero =>
      rw [slotBelow?_zero, get?_appliedBelow_zero]
      cases hbase : c.base.get? name with
      | none => rfl
      | some v =>
          rw [Option.map_some, Option.map_some, Option.map_some, resultAt_base hbase]
  | succ i ih =>
      by_cases h : c.Defines name (.layer i)
      · obtain ⟨l, k, hk⟩ := defines_layer_iff.1 h
        rw [slotBelow?_succ_of_defines h, Option.map_some, resultAt_layer hk,
          get?_appliedBelow_succ_of_contribution? hk]
      · rw [slotBelow?_succ_of_not_defines h, get?_appliedBelow_succ_of_not_defines h, ih]

theorem contains_appliedBelow (c : Composition) (i : Nat) :
    (c.appliedBelow i).contains = fun n => (c.slotBelow? i n).isSome := by
  funext n
  rw [Table.contains, get?_appliedBelow, Option.isSome_map]

theorem applied_eq_appliedBelow (c : Composition) :
    c.applied = c.appliedBelow c.layers.length := by
  rw [applied, appliedBelow, List.take_length]

/-- In the end a name is what its last slot made of it. -/
theorem get?_applied (c : Composition) (name : String) :
    c.applied.get? name = (c.lastSlot? name).map (c.resultAt name) := by
  rw [applied_eq_appliedBelow, get?_appliedBelow, slotBelow?_length]

end Results

end Composition

end LayeredCatalog
