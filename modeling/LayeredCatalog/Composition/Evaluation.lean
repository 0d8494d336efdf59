import LayeredCatalog.Composition
import LayeredCatalog.Dependencies
import LayeredCatalog.Plan
/-!
# Evaluating a composition

Values are computed on demand. The value of a name in the slot of a layer is
what the layer's contribution makes of the values it reads, and it is kept in a
`Memo` once it is there. The plan of a name fills the inputs of its final value
with the plans of the names they ask for, and is kept as well.

What is being computed stands on a stack of frames. A computation that needs a
frame of its own stack would not end; it fails with the cycle that leads back to
that frame. Since no frame comes twice and there are finitely many, every
computation ends.

A `Memo` also keeps a trace of what happened: frames entered and left, and
functions of layers started. Nothing here reads the trace.
-/

namespace LayeredCatalog

/-- A computation in progress. -/
inductive Frame where
  /-- The value of a name in the slot of a layer. -/
  | define (name : String) (layer : Nat)
  | plan (name : String)
deriving DecidableEq, Repr

def Frame.name : Frame → String
  | .define name _ => name
  | .plan name => name

/-- What happened during an evaluation. -/
inductive Event where
  /-- A computation began. -/
  | enter (frame : Frame)
  /-- The innermost computation ended. -/
  | leave
  /-- A function of a layer was called for a name. -/
  | start (name : String) (layer : Nat)
deriving DecidableEq, Repr

/-- What earlier computations left behind. -/
structure Memo where
  /-- The values of names in the slots of layers. -/
  values : List ((String × Nat) × Component) := []
  plans : List (String × Plan) := []
  /-- What happened, the latest event first. -/
  trace : List Event := []

namespace Memo

def note (m : Memo) (e : Event) : Memo := { m with trace := e :: m.trace }

/-- Keeps the value of a name in the slot of a layer. -/
def keepValue (m : Memo) (name : String) (layer : Nat) (c : Component) : Memo :=
  { m with values := ((name, layer), c) :: m.values }

def keepPlan (m : Memo) (name : String) (p : Plan) : Memo :=
  { m with plans := (name, p) :: m.plans }

theorem lookup_keepValue (m : Memo) (name : String) (i : Nat) (c : Component)
    (cell : String × Nat) :
    (m.keepValue name i c).values.lookup cell =
      if cell = (name, i) then some c else m.values.lookup cell := by
  rw [keepValue, List.lookup_cons]
  by_cases h : cell = (name, i)
  · simp [h]
  · simp [h, beq_eq_false_iff_ne.2 h]

theorem lookup_keepPlan (m : Memo) (name : String) (p : Plan) (name' : String) :
    (m.keepPlan name p).plans.lookup name' =
      if name' = name then some p else m.plans.lookup name' := by
  rw [keepPlan, List.lookup_cons]
  by_cases h : name' = name
  · simp [h]
  · simp [h, beq_eq_false_iff_ne.2 h]

end Memo

/-- Leaves out entries that are equal to the one before them. -/
def collapse : List String → List String
  | a :: b :: r => if a = b then collapse (b :: r) else a :: collapse (b :: r)
  | l => l

/-- The names on the way from a frame of the stack back to that frame. -/
def cyclePath (stack : List Frame) (frame : Frame) : List String :=
  let inner := stack.takeWhile (· ≠ frame)
  match collapse ((frame :: inner.reverse ++ [frame]).map Frame.name) with
  | [name] => [name, name]
  | path => path

/-- The fault of a computation that needs a frame of its own stack. -/
def cycleError (stack : List Frame) (frame : Frame) : ResolutionError :=
  .cycle frame.name (cyclePath stack frame)

/-- The state after a transform was applied: a call of a function of the layer is
noted on it. -/
def Transform.noteCall {σ : Type} (start : σ → σ) : Transform → σ → σ
  | .replace _, s => start s
  | .merge _, s => s

/-- The component that a contribution makes, from answers to what it reads. The
state passes through the answers; a call of a function of the layer is noted on
it. -/
def Contribution.run {σ : Type} (answer : Origin → σ → Except LayerFailure Component × σ)
    (isDefinedBelow : String → Bool) (layer : Nat) (start : σ → σ) :
    Contribution → σ → Except LayerFailure Component × σ
  | .constant component, s => (.ok component, s)
  | .compute body, s => (body layer).run answer isDefinedBelow (start s)
  | .derive origin transform, s =>
    match answer origin s with
    | (.error failure, s) => (.error failure, s)
    | (.ok old, s) => (transform.apply old, transform.noteCall start s)

/-- An answer with another value in a success. -/
def onSuccess {σ ε α β : Type} (f : α → β) (r : Except ε α × σ) : Except ε β × σ :=
  (r.1.map f, r.2)

theorem onSuccess_eq_ok_iff {σ ε α β : Type} {f : α → β} {r : Except ε α × σ} {w : β} :
    (onSuccess f r).1 = .ok w ↔ ∃ v, r.1 = .ok v ∧ w = f v := by
  cases h : r.1 with
  | error e => simp [onSuccess, h, Except.map]
  | ok v => simp [onSuccess, h, Except.map, eq_comm]

/-- An answer with another failure. -/
def onFailure {σ ε ε' α : Type} (f : ε → ε') (r : Except ε α × σ) : Except ε' α × σ :=
  (r.1.mapError f, r.2)

/-- Fewer items have their frames off the stack once the frame of one more item is
on it. -/
theorem length_filter_frame_lt {α : Type} {l : List α} (frame : α → Frame)
    {stack : List Frame} {a : α} (ha : a ∈ l) (hs : frame a ∉ stack) :
    (l.filter (frame · ∉ frame a :: stack)).length < (l.filter (frame · ∉ stack)).length := by
  have hsplit : l.filter (frame · ∉ frame a :: stack) =
      (l.filter (frame · ∉ stack)).filter (frame · ≠ frame a) := by
    rw [List.filter_filter]
    refine congrArg (List.filter · l) (funext fun b => ?_)
    simp
  rw [hsplit]
  refine List.length_filter_lt_length_iff_exists.2 ⟨a, ?_, by simp⟩
  exact List.mem_filter.2 ⟨ha, by simpa using hs⟩

namespace Composition

/-- The definitions of layers whose frames are not on the stack. -/
def freeCells (c : Composition) (stack : List Frame) : List (String × Nat) :=
  c.cells.filter fun cell => Frame.define cell.1 cell.2 ∉ stack

/-- The names whose plans have no frame on the stack. -/
def freeNames (c : Composition) (stack : List Frame) : List String :=
  c.names.filter fun name => Frame.plan name ∉ stack

theorem length_freeCells_lt {c : Composition} {stack : List Frame} {name : String} {i : Nat}
    {x : Layer × Contribution} (hx : c.contribution? i name = some x)
    (hs : .define name i ∉ stack) :
    (c.freeCells (.define name i :: stack)).length < (c.freeCells stack).length :=
  length_filter_frame_lt (fun cell : String × Nat => .define cell.1 cell.2)
    (mem_cells_of_contribution? hx) hs

theorem length_freeNames_lt {c : Composition} {stack : List Frame} {name : String}
    (hname : c.contains name) (hs : .plan name ∉ stack) :
    (c.freeNames (.plan name :: stack)).length < (c.freeNames stack).length :=
  length_filter_frame_lt .plan (contains_iff_mem_names.1 hname) hs

/-- The answer to a read of a layer, from the values of names in slots. -/
def answer {σ : Type} (c : Composition) (layer : Nat)
    (value : String → Slot → σ → Except ResolutionError Component × σ) (o : Origin) (s : σ) :
    Except LayerFailure Component × σ :=
  match c.slotIn? layer o with
  | none => (.error (.missing o.name o.view), s)
  | some slot => onFailure .fault (value o.name slot s)

/-- The value of a name in the slot of a layer, from the result of its contribution.
Whatever name the layer gave to the component, it bears the name that is defined. -/
def concludeValue (name : String) (i : Nat) (layerName : String) :
    Except LayerFailure Component × Memo → Except ResolutionError Component × Memo
  | (.error failure, m) => (.error (failure.blame name i layerName), m.note .leave)
  | (.ok component, m) =>
    (.ok { component with name }, (m.keepValue name i { component with name }).note .leave)

/-- The value of a name in a slot. The stack holds the computations that wait for
it, the innermost first. -/
def valueAt (c : Composition) (stack : List Frame) (name : String) :
    Slot → Memo → Except ResolutionError Component × Memo
  | .base, m =>
    match c.base.get? name with
    | some component => (.ok component, m)
    | none => (.error (.unknownComponent name .final), m)
  | .layer i, m =>
    match m.values.lookup (name, i) with
    | some component => (.ok component, m)
    | none =>
      match _h : c.contribution? i name with
      | none => (.error (.unknownComponent name .final), m)
      | some (layer, contribution) =>
        if _hs : .define name i ∈ stack then
          (.error (cycleError stack (.define name i)), m)
        else
          concludeValue name i layer.name
            (contribution.run
              (c.answer i fun n s m => c.valueAt (.define name i :: stack) n s m)
              (fun n => (c.slotBelow? i n).isSome) i (·.note (.start name i))
              (m.note (.enter (.define name i))))
termination_by (c.freeCells stack).length
decreasing_by exact length_freeCells_lt _h _hs

section ValueAt

variable {c : Composition} {stack : List Frame} {name : String} {i : Nat} {m : Memo}

theorem valueAt_of_kept {v : Component} (hm : m.values.lookup (name, i) = some v) :
    c.valueAt stack name (.layer i) m = (.ok v, m) := by
  rw [valueAt, hm]

theorem valueAt_of_contribution?_none (hm : m.values.lookup (name, i) = none)
    (hk : c.contribution? i name = none) :
    c.valueAt stack name (.layer i) m = (.error (.unknownComponent name .final), m) := by
  rw [valueAt, hm]
  dsimp only
  split
  · rfl
  · next h => cases hk.symm.trans h

theorem valueAt_of_mem_stack {x : Layer × Contribution}
    (hm : m.values.lookup (name, i) = none) (hk : c.contribution? i name = some x)
    (hs : .define name i ∈ stack) :
    c.valueAt stack name (.layer i) m = (.error (cycleError stack (.define name i)), m) := by
  rw [valueAt, hm]
  dsimp only
  split
  · next h => cases hk.symm.trans h
  · exact dif_pos hs

theorem valueAt_of_contribution? {l : Layer} {k : Contribution}
    (hm : m.values.lookup (name, i) = none) (hk : c.contribution? i name = some (l, k))
    (hs : .define name i ∉ stack) :
    c.valueAt stack name (.layer i) m =
      concludeValue name i l.name
        (k.run (c.answer i (c.valueAt (.define name i :: stack)))
          (fun n => (c.slotBelow? i n).isSome) i (·.note (.start name i))
          (m.note (.enter (.define name i)))) := by
  rw [valueAt, hm]
  dsimp only
  split
  · next h => cases hk.symm.trans h
  · next l' k' h =>
    obtain ⟨rfl, rfl⟩ := Prod.mk.inj (Option.some.inj (hk.symm.trans h))
    exact dif_neg hs

end ValueAt

/-- The value of a name in the final view. -/
def lookup (c : Composition) (stack : List Frame) (name : String) (m : Memo) :
    Except ResolutionError Component × Memo :=
  match c.lastSlot? name with
  | none => (.error (.unknownComponent name .final), m)
  | some slot => c.valueAt stack name slot m

/-- Fills the inputs of a component, slot by slot. The plans of other components
come from `plan`. -/
def fill {σ : Type} (c : Composition)
    (plan : String → σ → Except ResolutionError Plan × σ) (referencedBy : String) :
    List (String × InputRef) → σ → Except ResolutionError (List (String × PlanInput)) × σ
  | [], s => (.ok [], s)
  | (slot, .external id) :: inputs, s =>
    onSuccess ((slot, .external id) :: ·) (c.fill plan referencedBy inputs s)
  | (slot, .catalog target) :: inputs, s =>
    if c.contains target then
      match plan target s with
      | (.error e, s) => (.error e, s)
      | (.ok p, s) => onSuccess ((slot, .component p) :: ·) (c.fill plan referencedBy inputs s)
    else (.error (.danglingInput target referencedBy slot), s)

/-- The plan of a name, from its final component and the result of filling the
inputs. -/
def concludePlan (name : String) (component : Component) :
    Except ResolutionError (List (String × PlanInput)) × Memo →
      Except ResolutionError Plan × Memo
  | (.error e, m) => (.error e, m.note .leave)
  | (.ok filled, m) =>
    let p := Plan.build component filled
    (.ok p, (m.keepPlan name p).note .leave)

/-- The plan of a name, from its final component and from what fills the inputs of
a component. -/
def makePlan (name : String) (final : Memo → Except ResolutionError Component × Memo)
    (fill : Component → Memo → Except ResolutionError (List (String × PlanInput)) × Memo)
    (m : Memo) : Except ResolutionError Plan × Memo :=
  match final (m.note (.enter (.plan name))) with
  | (.error e, m) => (.error e, m.note .leave)
  | (.ok component, m) => concludePlan name component (fill component m)

def planWith (c : Composition) (stack : List Frame) (name : String) (m : Memo) :
    Except ResolutionError Plan × Memo :=
  if _hn : c.contains name then
    match m.plans.lookup name with
    | some p => (.ok p, m)
    | none =>
      if _hs : .plan name ∈ stack then (.error (cycleError stack (.plan name)), m)
      else
        makePlan name (c.lookup (.plan name :: stack) name)
          (fun component => c.fill (fun target m => c.planWith (.plan name :: stack) target m)
            name component.inputs.toList) m
  else (.error (.unknownComponent name .final), m)
termination_by (c.freeNames stack).length
decreasing_by exact length_freeNames_lt _hn _hs

section PlanWith

variable {c : Composition} {stack : List Frame} {name : String} {m : Memo}

theorem planWith_of_not_contains (hn : ¬ c.contains name) :
    c.planWith stack name m = (.error (.unknownComponent name .final), m) := by
  rw [planWith, dif_neg hn]

theorem planWith_of_kept {p : Plan} (hn : c.contains name)
    (hm : m.plans.lookup name = some p) : c.planWith stack name m = (.ok p, m) := by
  rw [planWith, dif_pos hn, hm]

theorem planWith_of_mem_stack (hn : c.contains name) (hm : m.plans.lookup name = none)
    (hs : .plan name ∈ stack) :
    c.planWith stack name m = (.error (cycleError stack (.plan name)), m) := by
  rw [planWith, dif_pos hn, hm]
  exact dif_pos hs

theorem planWith_of_not_mem_stack (hn : c.contains name) (hm : m.plans.lookup name = none)
    (hs : .plan name ∉ stack) :
    c.planWith stack name m =
      makePlan name (c.lookup (.plan name :: stack) name)
        (fun v => c.fill (c.planWith (.plan name :: stack)) name v.inputs.toList) m := by
  rw [planWith, dif_pos hn, hm]
  exact dif_neg hs

end PlanWith

/-- The plans of a list of names, up to the first fault. -/
def plans (c : Composition) :
    List String → Memo → Except ResolutionError (List (String × Plan)) × Memo
  | [], m => (.ok [], m)
  | name :: names, m =>
    match c.planWith [] name m with
    | (.error e, m) => (.error e, m)
    | (.ok p, m) => onSuccess ((name, p) :: ·) (c.plans names m)

end Composition

end LayeredCatalog
