import LayeredCatalog.Proofs.Composition.Faults
import LayeredCatalog.Proofs.Composition.Kept

/-!
# The stack of an evaluation

The trace of a memo tells at each moment which frames were in progress: a frame that is
entered goes on top, and whatever ends takes the top off (`Memo.replay`). At every
moment plans are below definitions, no frame is there twice and each of them stands for
something that the composition has (`Composition.WellStacked`), which bounds their
number. Between questions nothing is in progress.

The evaluator is handed its stack from call to call. `callValue` and `callPlan` are one
call each of an evaluator that reads the stack off the trace instead and leaves the
calls that it makes to others. Put together as often as there are definitions and names,
they answer every question as the evaluator does, whatever is left to be called at
the end: no evaluation gets that deep (`Composition.ask_wellStacked`). The functions of the
layers may do anything.
-/

namespace LayeredCatalog

/-- The frames in progress after an event. Whatever ends, the top frame leaves. -/
def Event.act : Event → List Frame → List Frame
  | .enter frame, stack => frame :: stack
  | .leave, stack => stack.tail
  | .start _ _, stack => stack

namespace Memo

/-- The frames in progress after the events of a trace, the innermost frame first. -/
def replay (trace : List Event) : List Frame := trace.foldr Event.act []

/-- The frames in progress. -/
def stack (m : Memo) : List Frame := replay m.trace

end Memo

namespace Composition

open Memo

/-- The names with the slots that define them. -/
def definitions (c : Composition) : List (String × Slot) :=
  c.names.flatMap fun name => (c.slots name).map (name, ·)

theorem mem_definitions {c : Composition} {name : String} {s : Slot} :
    (name, s) ∈ c.definitions ↔ c.Defines name s := by
  rw [definitions, List.mem_flatMap]
  constructor
  · rintro ⟨name', -, hmem⟩
    obtain ⟨s', hs', hpair⟩ := List.mem_map.1 hmem
    obtain ⟨rfl, rfl⟩ := Prod.mk.inj hpair
    exact mem_slots.1 hs'
  · intro hs
    refine ⟨name, ?_, List.mem_map_of_mem (mem_slots.2 hs)⟩
    exact contains_iff_mem_names.1 (contains_iff_exists_defines.2 ⟨s, hs⟩)

/-- Whether a frame stands for a definition or for a name that is there. -/
def Has (c : Composition) : Frame → Prop
  | .define name i => c.Defines name (.layer i)
  | .plan name => c.contains name

/-- The frames in progress are in order. -/
structure WellStacked (c : Composition) (stack : List Frame) : Prop where
  runs : ∃ defs names, stack = stackOf defs names
  nodup : stack.Nodup
  has : ∀ frame ∈ stack, c.Has frame

namespace WellStacked

variable {c : Composition}

theorem nil (c : Composition) : c.WellStacked [] :=
  ⟨⟨[], [], rfl⟩, .nil, List.forall_mem_nil _⟩

theorem define {defs : List (String × Nat)} {names : List String} {name : String} {i : Nat}
    (h : c.WellStacked (stackOf defs names)) (hs : c.Defines name (.layer i))
    (hnew : .define name i ∉ stackOf defs names) :
    c.WellStacked (stackOf ((name, i) :: defs) names) :=
  ⟨⟨_, _, rfl⟩, List.nodup_cons.2 ⟨hnew, h.nodup⟩, List.forall_mem_cons.2 ⟨hs, h.has⟩⟩

theorem plan {names : List String} {name : String} (h : c.WellStacked (stackOf [] names))
    (hname : c.contains name) (hnew : name ∉ names) :
    c.WellStacked (stackOf [] (name :: names)) := by
  have hframe : .plan name ∉ stackOf [] names := mt plan_mem_stackOf.1 hnew
  exact ⟨⟨_, _, rfl⟩, List.nodup_cons.2 ⟨hframe, h.nodup⟩,
    List.forall_mem_cons.2 ⟨hname, h.has⟩⟩

theorem of_cons {frame : Frame} {stack : List Frame} (h : c.WellStacked (frame :: stack)) :
    c.WellStacked stack := by
  obtain ⟨defs, names, hruns⟩ := h.runs
  refine ⟨?_, (List.nodup_cons.1 h.nodup).2, (List.forall_mem_cons.1 h.has).2⟩
  cases defs with
  | nil =>
      cases names with
      | nil => cases hruns
      | cons name names => exact ⟨[], names, (List.cons.inj hruns).2⟩
  | cons d defs => exact ⟨defs, names, (List.cons.inj hruns).2⟩

/-- There are no more frames than names and definitions. -/
theorem length_le {stack : List Frame} (h : c.WellStacked stack) :
    stack.length ≤ c.names.length + c.definitions.length := by
  obtain ⟨defs, names, rfl⟩ := h.runs
  obtain ⟨hdefs, hnames, -⟩ := List.nodup_append.1 h.nodup
  have hnames_le : names.length ≤ c.names.length := by
    refine (List.subperm_of_subset hnames.of_map fun name hmem => ?_).length_le
    exact contains_iff_mem_names.1 (h.has (.plan name) (plan_mem_stackOf.2 hmem))
  have hdefs_le : defs.length ≤ c.definitions.length := by
    have hinj : Function.Injective fun d : String × Nat => (d.1, Slot.layer d.2) := by
      intro d d' hd
      obtain ⟨hname, hslot⟩ := Prod.mk.inj hd
      exact Prod.ext hname (Slot.layer.inj hslot)
    rw [← List.length_map fun d : String × Nat => (d.1, Slot.layer d.2)]
    refine (List.subperm_of_subset (hdefs.of_map.map hinj) fun d hmem => ?_).length_le
    obtain ⟨⟨name, i⟩, hd, rfl⟩ := List.mem_map.1 hmem
    exact mem_definitions.2 (h.has (.define name i) (define_mem_stackOf.2 hd))
  rw [stackOf, List.length_append, List.length_map, List.length_map]
  omega

end WellStacked

/-- The frames of the stack are those in progress, and they were in order at every
moment so far. -/
structure InProgress (c : Composition) (stack : List Frame) (m : Memo) : Prop where
  stack_eq : m.stack = stack
  wellStacked : ∀ t, t <:+ m.trace → c.WellStacked (replay t)

namespace InProgress

variable {c : Composition} {stack : List Frame} {m : Memo}

theorem empty (c : Composition) : c.InProgress [] {} := by
  refine ⟨rfl, ?_⟩
  intro t ht
  rw [List.suffix_nil.1 ht]
  exact .nil c

theorem note (h : c.InProgress stack m) (e : Event) (he : c.WellStacked (e.act stack)) :
    c.InProgress (e.act stack) (m.note e) := by
  have hstack : (m.note e).stack = e.act stack := by
    rw [← h.stack_eq]
    rfl
  refine ⟨hstack, ?_⟩
  intro t ht
  rcases List.suffix_cons_iff.1 ht with rfl | ht
  · show c.WellStacked (m.note e).stack
    rwa [hstack]
  · exact h.wellStacked t ht

theorem wellStacked_self (h : c.InProgress stack m) : c.WellStacked stack := by
  rw [← h.stack_eq]
  exact h.wellStacked m.trace (List.suffix_refl _)

theorem start (h : c.InProgress stack m) (name : String) (i : Nat) :
    c.InProgress stack (m.note (.start name i)) :=
  h.note (.start name i) h.wellStacked_self

theorem leave {frame : Frame} (h : c.InProgress (frame :: stack) m) :
    c.InProgress stack (m.note .leave) :=
  h.note .leave h.wellStacked_self.of_cons

end InProgress

section Run

variable {σ : Type} {P : σ → Prop} {below : String → Bool}
  {answer answer' : Origin → σ → Except LayerFailure Component × σ}

theorem run_reading_coincide {α : Type} (hanswer : ∀ o, Coincide P (answer o) (answer' o))
    (r : Reading α) : Coincide P (r.run answer below) (r.run answer' below) := by
  induction r with
  | done result => exact fun s hs => ⟨rfl, hs⟩
  | read o next ih =>
      intro s hs
      obtain ⟨heq, hs'⟩ := hanswer o s hs
      rw [Reading.run, Reading.run, heq]
      exact ih _ _ hs'
  | definedBelow name next ih => exact ih (below name)

theorem run_contribution_coincide {i : Nat} {start : σ → σ}
    (hanswer : ∀ o, Coincide P (answer o) (answer' o)) (hstart : ∀ s, P s → P (start s))
    (k : Contribution) :
    Coincide P (k.run answer below i start) (k.run answer' below i start) := by
  cases k with
  | constant component => exact fun s hs => ⟨rfl, hs⟩
  | compute body => exact fun s hs => run_reading_coincide hanswer (body i) _ (hstart s hs)
  | derive o t =>
      intro s hs
      obtain ⟨heq, hs'⟩ := hanswer o s hs
      rw [Contribution.run, Contribution.run, heq]
      refine ⟨rfl, ?_⟩
      split
      · next failure s' h =>
        rw [h] at hs'
        exact hs'
      · next old s' h =>
        rw [h] at hs'
        cases t with
        | replace f => exact hstart s' hs'
        | merge patch => exact hs'

theorem answer_coincide {c : Composition} {i : Nat}
    {value value' : String → Slot → σ → Except ResolutionError Component × σ}
    (hvalue : ∀ name s, Coincide P (value name s) (value' name s)) (o : Origin) :
    Coincide P (c.answer i value o) (c.answer i value' o) := by
  intro m hm
  rw [answer, answer]
  split
  · exact ⟨rfl, hm⟩
  · next s hs =>
    obtain ⟨heq, hm'⟩ := hvalue o.name s m hm
    rw [heq]
    exact ⟨rfl, hm'⟩

end Run

section Calls

variable (c : Composition)

/-- One call of an evaluator for the value of a name in a slot. Its stack is the one of
the memo, and the calls that it makes are left to `value`. -/
def callValue (value : String → Slot → Memo → Except ResolutionError Component × Memo)
    (name : String) : Slot → Memo → Except ResolutionError Component × Memo
  | .base, m =>
    match c.base.get? name with
    | some component => (.ok component, m)
    | none => (.error (.unknownComponent name .final), m)
  | .layer i, m =>
    match m.values.lookup (name, i) with
    | some component => (.ok component, m)
    | none =>
      match c.contribution? i name with
      | none => (.error (.unknownComponent name .final), m)
      | some (layer, contribution) =>
        if .define name i ∈ m.stack then
          (.error (cycleError m.stack (.define name i)), m)
        else
          concludeValue name i layer.name
            (contribution.run (c.answer i value) (fun n => (c.slotBelow? i n).isSome) i
              (·.note (.start name i)) (m.note (.enter (.define name i))))

/-- The value of a name in the final view, on the answers of `value`. -/
def callLookup (value : String → Slot → Memo → Except ResolutionError Component × Memo)
    (name : String) (m : Memo) : Except ResolutionError Component × Memo :=
  match c.lastSlot? name with
  | none => (.error (.unknownComponent name .final), m)
  | some slot => value name slot m

/-- One call of an evaluator for the plan of a name, likewise. -/
def callPlan (value : String → Slot → Memo → Except ResolutionError Component × Memo)
    (plan : String → Memo → Except ResolutionError Plan × Memo) (name : String) (m : Memo) :
    Except ResolutionError Plan × Memo :=
  if c.contains name then
    match m.plans.lookup name with
    | some p => (.ok p, m)
    | none =>
      if .plan name ∈ m.stack then (.error (cycleError m.stack (.plan name)), m)
      else
        makePlan name (c.callLookup value name)
          (fun component => c.fill plan name component.inputs.toList) m
  else (.error (.unknownComponent name .final), m)

/-- The plans of a list of names, up to the first fault, on the answers of `plan`. -/
def callPlans (plan : String → Memo → Except ResolutionError Plan × Memo) :
    List String → Memo → Except ResolutionError (List (String × Plan)) × Memo
  | [], m => (.ok [], m)
  | name :: names, m =>
    match plan name m with
    | (.error e, m) => (.error e, m)
    | (.ok p, m) => onSuccess ((name, p) :: ·) (callPlans plan names m)

/-- Answers a question by calls of `value` and `plan`. -/
def callAsk (value : String → Slot → Memo → Except ResolutionError Component × Memo)
    (plan : String → Memo → Except ResolutionError Plan × Memo) : Query → Memo → Answer × Memo
  | .lookup name, m => (.component (c.callLookup value name m).1, (c.callLookup value name m).2)
  | .plan name, m => (.plan (plan name m).1, (plan name m).2)
  | .resolve, m =>
    (.catalog (onSuccess .ofList (callPlans plan c.names m)).1,
      (onSuccess Table.ofList (callPlans plan c.names m)).2)
  | .contains name, m => (.flag (c.contains name), m)
  | .names, m => (.names c.names, m)

end Calls

section Iterate

variable {c : Composition}
  {value : String → Slot → Memo → Except ResolutionError Component × Memo}
  {plan : String → Memo → Except ResolutionError Plan × Memo}

theorem concludeValue_inProgress {stack : List Frame} {name : String} {i : Nat}
    (layerName : String) {result : Except LayerFailure Component × Memo}
    (h : c.InProgress (.define name i :: stack) result.2) :
    c.InProgress stack (concludeValue name i layerName result).2 := by
  obtain ⟨a, m⟩ := result
  cases a with
  | error failure => exact h.leave
  | ok v =>
      have hkept : c.InProgress (.define name i :: stack) (m.keepValue name i { v with name }) :=
        ⟨h.stack_eq, h.wellStacked⟩
      exact hkept.leave

/-- One call does what the evaluator does if the calls that it makes do so. -/
theorem callValue_coincide {defs : List (String × Nat)} {names : List String} {name : String}
    {i : Nat} (hvalue : ∀ x, c.contribution? i name = some x →
      .define name i ∉ stackOf defs names → ∀ name' s,
        Coincide (c.InProgress (stackOf ((name, i) :: defs) names)) (value name' s)
          (c.valueAt (stackOf ((name, i) :: defs) names) name' s)) :
    Coincide (c.InProgress (stackOf defs names)) (c.callValue value name (.layer i))
      (c.valueAt (stackOf defs names) name (.layer i)) := by
  intro m hm
  cases hkept : m.values.lookup (name, i) with
  | some v =>
      rw [valueAt_of_kept hkept, callValue, hkept]
      exact ⟨rfl, hm⟩
  | none =>
      cases hk : c.contribution? i name with
      | none =>
          rw [valueAt_of_contribution?_none hkept hk, callValue, hkept, hk]
          exact ⟨rfl, hm⟩
      | some x =>
          obtain ⟨l, k⟩ := x
          by_cases hmem : .define name i ∈ stackOf defs names
          · rw [valueAt_of_mem_stack hkept hk hmem, callValue, hkept, hk]
            dsimp only
            rw [hm.stack_eq, if_pos hmem]
            exact ⟨rfl, hm⟩
          · have hdefines : c.Defines name (.layer i) := defines_layer_iff.2 ⟨l, k, hk⟩
            have henter := hm.note (.enter (.define name i))
              (hm.wellStacked_self.define hdefines hmem)
            obtain ⟨heq, hrun⟩ := run_contribution_coincide (answer_coincide (hvalue _ hk hmem))
              (fun m' hm' => hm'.start name i) k _ henter
            rw [valueAt_of_contribution? hkept hk hmem, callValue, hkept, hk]
            dsimp only
            rw [hm.stack_eq, if_neg hmem, heq]
            exact ⟨rfl, concludeValue_inProgress l.name hrun⟩

variable (value plan)

/-- With more calls than there are definitions off the stack, no call is left over. -/
theorem iterate_callValue_coincide (defs : List (String × Nat)) (names : List String) {n : Nat}
    (hn : (c.freeCells (stackOf defs names)).length < n) (name : String) (s : Slot) :
    Coincide (c.InProgress (stackOf defs names)) (c.callValue^[n] value name s)
      (c.valueAt (stackOf defs names) name s) := by
  induction n generalizing defs name s with
  | zero => exact absurd hn (Nat.not_lt_zero _)
  | succ n ih =>
      rw [Function.iterate_succ_apply']
      cases s with
      | base =>
          intro m hm
          rw [callValue, valueAt]
          cases c.base.get? name with
          | none => exact ⟨rfl, hm⟩
          | some v => exact ⟨rfl, hm⟩
      | layer i =>
          refine callValue_coincide fun x hk hmem => ?_
          exact ih ((name, i) :: defs)
            ((length_freeCells_lt hk hmem).trans_le (Nat.le_of_lt_succ hn))

theorem callLookup_coincide (names : List String) {n : Nat} (hn : c.cells.length < n)
    (name : String) :
    Coincide (c.InProgress (names.map .plan)) (c.callLookup (c.callValue^[n] value) name)
      (c.lookup (names.map .plan) name) := by
  intro m hm
  rw [callLookup, lookup]
  cases c.lastSlot? name with
  | none => exact ⟨rfl, hm⟩
  | some s =>
      have hfree : (c.freeCells (stackOf [] names)).length < n :=
        (List.length_filter_le _ _).trans_lt hn
      exact iterate_callValue_coincide value [] names hfree name s m hm

theorem isKept_inProgress (c : Composition) :
    c.IsKept fun names m => c.InProgress (names.map .plan) m where
  lookup name hm :=
    (callLookup_coincide (c.valueAt []) _ (Nat.lt_succ_self _) name _ hm).2
  enter hname hnew hm := hm.note (.enter (.plan _)) (hm.wellStacked_self.plan hname hnew)
  leave hm := hm.leave
  keepPlan _ _ hm := ⟨hm.stack_eq, hm.wellStacked⟩

/-- With more calls than there are names off the stack, no call is left over. -/
theorem iterate_callPlan_coincide {n k : Nat} (hn : c.cells.length < n) (names : List String)
    (hk : (c.freeNames (names.map .plan)).length < k) (name : String) :
    Coincide (c.InProgress (names.map .plan))
      ((c.callPlan (c.callValue^[n] value))^[k] plan name)
      (c.planWith (names.map .plan) name) := by
  induction k generalizing names name with
  | zero => exact absurd hk (Nat.not_lt_zero _)
  | succ k ih =>
      intro m hm
      -- That the frames stay in order is known of the evaluator; what is left is that the
      -- call does the same.
      refine ⟨?_, (isKept_inProgress c).planWith names name hm⟩
      rw [Function.iterate_succ_apply', callPlan]
      by_cases hname : c.contains name
      · rw [if_pos hname]
        cases hkept : m.plans.lookup name with
        | some p => rw [planWith_of_kept hname hkept]
        | none =>
            dsimp only
            rw [hm.stack_eq]
            by_cases hmem : .plan name ∈ names.map Frame.plan
            · rw [if_pos hmem, planWith_of_mem_stack hname hkept hmem]
            · have hnew : name ∉ names := mt List.mem_map_of_mem hmem
              rw [if_neg hmem, planWith_of_not_mem_stack hname hkept hmem]
              refine makePlan_eq ((isKept_inProgress c).enter hname hnew hm)
                (callLookup_coincide value (name :: names) hn name) fun v m' _ hm' => ?_
              refine (fill_coincide name (fun _ target _ => ⟨rfl, ?_⟩) m' hm').1
              exact ih (name :: names)
                ((length_freeNames_lt hname hmem).trans_le (Nat.le_of_lt_succ hk)) target
      · rw [if_neg hname, planWith_of_not_contains hname]

theorem callPlans_coincide {n k : Nat} (hn : c.cells.length < n) (hk : c.names.length < k)
    (names : List String) :
    Coincide (c.InProgress []) (callPlans ((c.callPlan (c.callValue^[n] value))^[k] plan) names)
      (c.plans names) := by
  have hplan (name : String) : Coincide (c.InProgress [])
      ((c.callPlan (c.callValue^[n] value))^[k] plan name) (c.planWith [] name) :=
    iterate_callPlan_coincide value plan hn [] ((List.length_filter_le _ _).trans_lt hk) name
  induction names with
  | nil => exact fun m hm => ⟨rfl, hm⟩
  | cons name names ih =>
      intro m hm
      obtain ⟨heq, hm'⟩ := hplan name m hm
      rw [callPlans, plans, heq]
      generalize c.planWith [] name m = result at hm' ⊢
      obtain ⟨a, m'⟩ := result
      cases a with
      | error e => exact ⟨rfl, hm'⟩
      | ok p =>
          obtain ⟨heq', hm''⟩ := ih m' hm'
          dsimp only
          rw [heq']
          exact ⟨rfl, hm''⟩

theorem callAsk_eq_ask {n k : Nat} (hn : c.cells.length < n) (hk : c.names.length < k)
    (q : Query) {m : Memo} (hm : c.InProgress [] m) :
    c.callAsk (c.callValue^[n] value) ((c.callPlan (c.callValue^[n] value))^[k] plan) q m =
      c.ask q m := by
  cases q with
  | lookup name =>
      rw [callAsk, ask, (callLookup_coincide value [] hn name m hm).1]
      rfl
  | plan name =>
      have hfree : (c.freeNames []).length < k := (List.length_filter_le _ _).trans_lt hk
      rw [callAsk, ask, (iterate_callPlan_coincide value plan hn [] hfree name m hm).1]
      rfl
  | resolve =>
      rw [callAsk, ask, resolveWith, (callPlans_coincide value plan hn hk c.names m hm).1]
  | contains name => rfl
  | names => rfl

end Iterate

/-- Whatever was asked, nothing is in progress afterwards, and at every moment before the
frames in progress were in order and no more than there are names and definitions.
Every further question is answered by no more calls inside each other than there
are definitions, and names. -/
theorem ask_wellStacked (c : Composition) (qs : List Query) :
    (c.memoAfter qs).stack = [] ∧
      (∀ t, t <:+ (c.memoAfter qs).trace → c.WellStacked (replay t) ∧
        (replay t).length ≤ c.names.length + c.definitions.length) ∧
      ∀ value plan n k q, c.cells.length < n → c.names.length < k →
        c.callAsk (c.callValue^[n] value) ((c.callPlan (c.callValue^[n] value))^[k] plan) q
          (c.memoAfter qs) = c.ask q (c.memoAfter qs) := by
  have hm : c.InProgress [] (c.memoAfter qs) :=
    (isKept_inProgress c).memoAfter (InProgress.empty c) qs
  refine ⟨hm.stack_eq, ?_, ?_⟩
  · intro t ht
    exact ⟨hm.wellStacked t ht, (hm.wellStacked t ht).length_le⟩
  · intro value plan n k q hn hk
    exact callAsk_eq_ask value plan hn hk q hm

/-- A base whose `site` asks for `curl`, which the layer makes from itself. -/
def looped : Composition where
  base := Catalog.add ∅
    { name := "site", version := "1", inputs := .ofList [("fetch", .catalog "curl")] }
  layers := [⟨"tools", Overlay.derive ∅ "curl" ⟨.final, "curl"⟩ (.replace .ok)⟩]

/-- The plan of `site` fails two frames further in, and leaves nothing in progress. -/
theorem ask_looped_site :
    (looped.memoAfter [.plan "site"]).stack = [] ∧
      (∃ t, t <:+ (looped.memoAfter [.plan "site"]).trace ∧ looped.WellStacked (replay t) ∧
        replay t = [.define "curl" 0, .plan "curl", .plan "site"]) ∧
      looped.cells.length < 2 ∧ looped.names.length < 3 ∧
      ∀ value plan, looped.callAsk (looped.callValue^[2] value)
          ((looped.callPlan (looped.callValue^[2] value))^[3] plan) (.plan "curl")
          (looped.memoAfter [.plan "site"]) =
        looped.ask (.plan "curl") (looped.memoAfter [.plan "site"]) := by
  obtain ⟨hstack, hmoment, hcalls⟩ := ask_wellStacked looped [.plan "site"]
  have hcells : looped.cells.length < 2 := by decide +kernel
  have hnames : looped.names.length < 3 := by decide +kernel
  have ht := List.drop_suffix 3 (looped.memoAfter [.plan "site"]).trace
  refine ⟨hstack, ⟨_, ht, (hmoment _ ht).1, ?_⟩, hcells, hnames, ?_⟩
  · decide +kernel
  · intro value plan
    exact hcalls value plan 2 3 (.plan "curl") hcells hnames

end Composition

end LayeredCatalog
