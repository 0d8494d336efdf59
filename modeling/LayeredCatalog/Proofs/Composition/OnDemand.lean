import LayeredCatalog.Proofs.Composition.Starts
import LayeredCatalog.Proofs.Resolution

/-!
# Functions are called on demand and once

Under functions that pass on the failure of a read, a function that can bring a value
does so when it is started first, so nothing that is asked later starts it again
(`Memo.IsThrifty`). And a question starts no functions but those that
`Composition.MayStart` allows: of definitions which are reached by reads from what was
asked for. Both follow from the accounts of values and plans
(`Composition.valueAt_calls`, `Composition.planWith_calls`), and
`Composition.started_memoAfter` puts them together for questions one after another.
-/

namespace LayeredCatalog

namespace Composition

open Memo

section Run

variable {c : Composition} {stack : List Frame} {P : String × Nat → Prop} {i : Nat}
  {answer : Origin → Memo → Except LayerFailure Component × Memo}

theorem run_reading_calls (r : Reading (Except LayerFailure Component)) (hr : r.PassesErrors)
    (hanswer : ∀ o, c.Asks i r o → c.Calls stack P (answer o) ∧
      Computes (IsSound c) (answer o) fun old => ∃ s, c.Shows i o s ∧ c.HasValue o.name s old) :
    c.Calls stack P (r.run answer fun n => (c.slotBelow? i n).isSome) := by
  induction r with
  | done result => exact Calls.of_silent fun m => ⟨rfl, rfl⟩
  | read o next ih =>
      obtain ⟨hcalls, hfind⟩ := hanswer o (.inl rfl)
      refine hcalls.andThen hfind
        (k := fun old => (next (.ok old)).run answer fun n => (c.slotBelow? i n).isSome) ?_ ?_ ?_
      · intro failure m m' hrun
        rw [Reading.run, hrun, hr.1 failure]
        exact ⟨rfl, rfl, rfl⟩
      · intro old m m' hrun
        rw [Reading.run, hrun]
      · rintro old ⟨s, hs, hold⟩
        exact ih _ (hr.2 old) fun o' hask => hanswer o' (.inr ⟨s, old, hs, hold, hask⟩)
  | definedBelow name next ih => exact ih _ (hr _) hanswer

theorem answer_calls {value : String → Slot → Memo → Except ResolutionError Component × Memo}
    {o : Origin} (hvalue : ∀ s, c.Shows i o s → c.Calls stack P (value o.name s)) :
    c.Calls stack P (c.answer i value o) := by
  cases hslot : c.slotIn? i o with
  | none =>
      refine Calls.of_silent fun m => ?_
      simp only [answer, hslot, and_self]
  | some s =>
      have hanswer : c.answer i value o = fun m => onFailure .fault (value o.name s m) := by
        funext m
        simp only [answer, hslot]
      rw [hanswer]
      exact (hvalue s (slotIn?_eq_some_iff.1 hslot)).onFailure LayerFailure.fault

theorem run_contribution_starts (k : Contribution) (hk : k.PassesErrors) (name : String)
    (hanswer : ∀ o, c.Asks i (k.toReading i) o → c.Calls stack P (answer o) ∧
      Computes (IsSound c) (answer o) fun old => ∃ s, c.Shows i o s ∧ c.HasValue o.name s old)
    {m : Memo} (hm : m.IsSound c) {result : Except LayerFailure Component × Memo}
    (hrun : k.run answer (fun n => (c.slotBelow? i n).isSome) i (·.note (.start name i)) m =
      result) :
    ∃ ds, StartsFor c stack P ds k name i m result.1.isOk result.2 := by
  cases k with
  | constant component =>
      cases hrun
      exact ⟨[], .inr ⟨fun hfun => hfun.elim, .refl c stack P m _⟩⟩
  | compute body =>
      cases hrun
      obtain ⟨ds, h⟩ := run_reading_calls (body i) (hk i) hanswer _ (hm.note (.start name i))
      exact ⟨ds, .inl ⟨trivial, h⟩⟩
  | derive o t =>
      obtain ⟨ds, h⟩ := (hanswer o (.inl rfl)).1 m hm
      rw [Contribution.run] at hrun
      cases hread : answer o m with
      | mk a m' =>
          rw [hread] at h hrun
          cases a with
          | error failure =>
              cases hrun
              exact ⟨ds, .inr ⟨fun _ => rfl, h⟩⟩
          | ok old =>
              cases hrun
              have h' : Starts c stack P ds m (t.apply old).isOk m' := h.weaken fun _ => rfl
              cases t with
              | merge patch => exact ⟨ds, .inr ⟨fun hfun => hfun.elim, h'⟩⟩
              | replace f => exact ⟨ds, .inl ⟨trivial, h'.note_start name i⟩⟩

end Run

/-- The definition `a` reaches the definition `d`, which has a function, by reads. -/
def NeedsFunction (c : Composition) (a : String × Slot) (d : String × Nat) : Prop :=
  c.HasFunction d ∧ Relation.ReflTransGen c.Needs a (d.1, .layer d.2)

/-- The last definition of the name reaches `d` by reads. -/
def FinalNeeds (c : Composition) (name : String) (d : String × Nat) : Prop :=
  ∃ s, c.IsLast name s ∧ c.NeedsFunction (name, s) d

/-- The last definition of the name, or of a name that it reaches by catalog inputs, reaches
`d` by reads. -/
def PlanNeeds (c : Composition) (name : String) (d : String × Nat) : Prop :=
  ∃ b, Relation.ReflTransGen c.Uses name b ∧ c.FinalNeeds b d

/-- The functions that a question may start, those that it reaches from what it asks for. -/
def MayStart (c : Composition) : Query → String × Nat → Prop
  | .lookup name, d => c.FinalNeeds name d
  | .plan name, d => c.PlanNeeds name d
  | .resolve, d => ∃ name, c.PlanNeeds name d
  | .contains _, _ => False
  | .names, _ => False

section Value

variable {c : Composition} {stack : List Frame} {P : String × Nat → Prop} {name : String}
  {i : Nat} {l : Layer} {k : Contribution} {m : Memo} {ds : List (String × Nat)}

theorem hasFunction_iff (hk : c.contribution? i name = some (l, k)) :
    c.HasFunction (name, i) ↔ k.HasFunction := by
  constructor
  · rintro ⟨l', k', hk', hfun⟩
    obtain ⟨rfl, rfl⟩ := Prod.mk.inj (Option.some.inj (hk.symm.trans hk'))
    exact hfun
  · exact fun hfun => ⟨l, k, hk, hfun⟩

/-- The account of a definition, from the account of its contribution. -/
theorem concludeValue_starts (hk : c.contribution? i name = some (l, k))
    (hfree : .define name i ∉ stack) (hempty : m.values.lookup (name, i) = none)
    (hP : c.HasFunction (name, i) → P (name, i))
    {result : Except LayerFailure Component × Memo}
    (hvalue : ∀ v, c.HasValue name (.layer i) v →
      (concludeValue name i l.name result).1 = .ok v)
    (h : StartsFor c (.define name i :: stack) P ds k name i m result.1.isOk result.2) :
    ∃ ds, Starts c stack P ds m (concludeValue name i l.name result).1.isOk
      (concludeValue name i l.name result).2 := by
  obtain ⟨a, m'⟩ := result
  cases a with
  | error failure =>
      rcases h with ⟨hfun, h⟩ | ⟨-, h⟩
      · refine ⟨(name, i) :: ds, h.own (hP ((hasFunction_iff hk).2 hfun)) hfree hempty
          (fun _ _ => rfl) rfl (.inr ⟨rfl, fun v hv => ?_⟩)⟩
        cases hvalue v hv
      · exact ⟨ds, h.of_cons.congr rfl rfl rfl rfl⟩
  | ok v =>
      rcases h with ⟨hfun, h⟩ | ⟨hfun, h⟩
      · refine ⟨(name, i) :: ds, h.own (hP ((hasFunction_iff hk).2 hfun)) hfree hempty ?_ rfl ?_⟩
        · intro d hd
          exact (lookup_keepValue m' name i _ d).trans (if_neg hd)
        · exact .inl ⟨_, (lookup_keepValue m' name i _ (name, i)).trans (if_pos rfl)⟩
      · have hdata : ¬ c.HasFunction (name, i) := by
          intro hfun'
          cases hfun ((hasFunction_iff hk).1 hfun')
        exact ⟨ds, (h.of_cons.keepValue hempty hdata _).congr rfl rfl rfl rfl⟩

/-- The account of a definition whose cell is empty, from the accounts of what it reads. -/
theorem valueAt_starts (hk : c.contribution? i name = some (l, k)) (hpasses : k.PassesErrors)
    (hfree : .define name i ∉ stack) (hempty : m.values.lookup (name, i) = none)
    (hvalue : ∀ v, c.HasValue name (.layer i) v → (c.valueAt stack name (.layer i) m).1 = .ok v)
    (hm : m.IsSound c)
    (hanswer : ∀ o, c.Asks i (k.toReading i) o →
      c.Calls (.define name i :: stack) (c.NeedsFunction (name, .layer i))
        (c.answer i (c.valueAt (.define name i :: stack)) o) ∧
      Computes (IsSound c) (c.answer i (c.valueAt (.define name i :: stack)) o)
        fun old => ∃ s, c.Shows i o s ∧ c.HasValue o.name s old) :
    ∃ ds, Starts c stack (c.NeedsFunction (name, .layer i)) ds m
      (c.valueAt stack name (.layer i) m).1.isOk (c.valueAt stack name (.layer i) m).2 := by
  rw [valueAt_of_contribution? hempty hk hfree] at hvalue ⊢
  obtain ⟨ds, h⟩ := run_contribution_starts k hpasses name hanswer
    (hm.note (.enter (.define name i))) rfl
  have hself : c.HasFunction (name, i) → c.NeedsFunction (name, .layer i) (name, i) :=
    fun hfun => ⟨hfun, .refl⟩
  obtain ⟨ds', h'⟩ := concludeValue_starts (m := m.note (.enter (.define name i))) hk hfree
    hempty hself hvalue h
  exact ⟨ds', h'.congr rfl rfl rfl rfl⟩

/-- A value is computed with the functions that the definition reaches by reads. -/
theorem valueAt_calls (hc : c.PassesErrors) (stack : List Frame) (name : String) (s : Slot)
    (hstack : ∀ name' i', .define name' i' ∈ stack →
      Relation.TransGen c.Needs (name', .layer i') (name, s)) :
    c.Calls stack (c.NeedsFunction (name, s)) (c.valueAt stack name s) := by
  induction hfree : (c.freeCells stack).length using Nat.strong_induction_on
    generalizing stack name s with
  | _ free ih =>
  subst hfree
  intro m hm
  cases s with
  | base =>
      rw [valueAt]
      split
      · exact ⟨[], .refl c stack _ m _⟩
      · exact ⟨[], .refl c stack _ m _⟩
  | layer i =>
      have hcomputes := valueAt_computes hc stack name (.layer i) hstack
      cases hempty : m.values.lookup (name, i) with
      | some v =>
          rw [valueAt_of_kept hempty]
          exact ⟨[], .refl c stack _ m _⟩
      | none =>
          cases hk : c.contribution? i name with
          | none =>
              rw [valueAt_of_contribution?_none hempty hk]
              exact ⟨[], .refl c stack _ m _⟩
          | some x =>
              obtain ⟨l, k⟩ := x
              by_cases hs : .define name i ∈ stack
              · rw [valueAt_of_mem_stack hempty hk hs]
                exact ⟨[], .refl c stack _ m _⟩
              · refine valueAt_starts hk (hc.of_contribution? hk) hs hempty
                  (fun v => (hcomputes.eq_ok_iff hm v).2) hm fun o hask => ?_
                have hneeds : ∀ s, c.Shows i o s → c.Needs (name, .layer i) (o.name, s) :=
                  fun s hs => ⟨i, l, k, o, rfl, hk, hask, rfl, hs⟩
                refine ⟨answer_calls fun s hs' => ?_, answer_computes fun s hs' => ?_⟩
                · have hcalls := ih _ (length_freeCells_lt hk hs) _ o.name s
                    (fun name' i' => transGen_needs_of_mem_cons hstack (hneeds s hs')) rfl
                  exact hcalls.mono fun d => And.imp_right (.head (hneeds s hs'))
                · exact valueAt_computes hc _ o.name s
                    fun name' i' => transGen_needs_of_mem_cons hstack (hneeds s hs')

end Value

section Plan

variable {c : Composition} {stack : List Frame} {P : String × Nat → Prop}

theorem lookup_calls (hc : c.PassesErrors) (stack : List Frame) (name : String)
    (hstack : ∀ name' i', .define name' i' ∉ stack) :
    c.Calls stack (c.FinalNeeds name) (c.lookup stack name) := by
  intro m hm
  rw [lookup]
  split
  · exact ⟨[], .refl c stack _ m _⟩
  · next s hs =>
    obtain ⟨ds, h⟩ := valueAt_calls hc stack name s
      (fun name' i' hmem => absurd hmem (hstack name' i')) m hm
    exact ⟨ds, h.mono fun d hd => ⟨s, lastSlot?_eq_some_iff.1 hs, hd⟩⟩

theorem fill_calls {plan : String → Memo → Except ResolutionError Plan × Memo}
    (referencedBy : String) (inputs : List (String × InputRef))
    (hplan : ∀ slot target, (slot, .catalog target) ∈ inputs →
      c.Calls stack P (plan target) ∧ Computes (IsSound c) (plan target) (c.HasPlan target)) :
    c.Calls stack P (c.fill plan referencedBy inputs) := by
  induction inputs with
  | nil => exact Calls.of_silent fun m => ⟨rfl, rfl⟩
  | cons input inputs ih =>
      have hrest := ih fun slot target hmem => hplan slot target (List.mem_cons_of_mem _ hmem)
      obtain ⟨slot, ref⟩ := input
      cases ref with
      | external source => exact hrest.onSuccess ((slot, .external source) :: ·)
      | catalog target =>
          by_cases htarget : c.contains target
          · obtain ⟨hcalls, hfind⟩ := hplan slot target (List.mem_cons_self ..)
            refine hcalls.andThen hfind ?_ ?_
              (fun p _ => hrest.onSuccess ((slot, .component p) :: ·))
            · intro e m m' hrun
              rw [fill, if_pos htarget, hrun]
              exact ⟨rfl, rfl, rfl⟩
            · intro p m m' hrun
              rw [fill, if_pos htarget, hrun]
          · refine Calls.of_silent fun m => ?_
            rw [fill, if_neg htarget]
            exact ⟨rfl, rfl⟩

theorem concludePlan_calls {name : String} {v : Component}
    {fill : Memo → Except ResolutionError (List (String × PlanInput)) × Memo}
    (hfill : c.Calls stack P fill)
    (hfind : Computes (IsSound c) fill (c.Fills v.inputs.toList)) :
    c.Calls stack P fun m => concludePlan name v (fill m) := by
  refine hfill.andThen hfind (k := fun filled m => concludePlan name v (.ok filled, m)) ?_ ?_ ?_
  · intro e m m' hrun
    rw [hrun]
    exact ⟨rfl, rfl, rfl⟩
  · intro filled m m' hrun
    rw [hrun]
  · exact fun filled _ => Calls.of_silent fun m => ⟨rfl, rfl⟩

theorem makePlan_calls {name : String}
    {final : Memo → Except ResolutionError Component × Memo}
    {fill : Component → Memo → Except ResolutionError (List (String × PlanInput)) × Memo}
    (hfinal : c.Calls stack P final) (hfind : Computes (IsSound c) final (c.HasFinal name))
    (hfill : ∀ v, c.HasFinal name v → c.Calls stack P (fill v) ∧
      Computes (IsSound c) (fill v) (c.Fills v.inputs.toList)) :
    c.Calls stack P (makePlan name final fill) := by
  have hentered : c.Calls stack P fun m => final (m.note (.enter (.plan name))) := by
    intro m hm
    obtain ⟨ds, h⟩ := hfinal _ (hm.note (.enter (.plan name)))
    exact ⟨ds, h.congr rfl rfl rfl rfl⟩
  refine hentered.andThen (hfind.before fun m hm => hm.note (.enter (.plan name)))
    (k := fun v m => concludePlan name v (fill v m)) ?_ ?_ ?_
  · intro e m m' hrun
    rw [makePlan, hrun]
    exact ⟨rfl, rfl, rfl⟩
  · intro v m m' hrun
    rw [makePlan, hrun]
  · intro v hv
    exact concludePlan_calls (hfill v hv).1 (hfill v hv).2

/-- A plan is made with the functions that the last definitions reach of the names that it
is made of. -/
theorem planWith_calls (hc : c.PassesErrors) (names : List String) (name : String)
    (hnames : ∀ name' ∈ names, Relation.TransGen c.Uses name' name) :
    c.Calls (names.map .plan) (c.PlanNeeds name) (c.planWith (names.map .plan) name) := by
  induction hfree : (c.freeNames (names.map .plan)).length using Nat.strong_induction_on
    generalizing names name with
  | _ free ih =>
  subst hfree
  intro m hm
  by_cases hname : c.contains name
  · cases hkept : m.plans.lookup name with
    | some p =>
        rw [planWith_of_kept hname hkept]
        exact ⟨[], .refl c _ _ m _⟩
    | none =>
        by_cases hs : .plan name ∈ names.map Frame.plan
        · rw [planWith_of_mem_stack hname hkept hs]
          exact ⟨[], .refl c _ _ m _⟩
        · rw [planWith_of_not_mem_stack hname hkept hs, ← List.map_cons]
          have hlookup := lookup_calls hc ((name :: names).map .plan) name (by simp)
          have hfinal : c.Calls ((name :: names).map .plan) (c.PlanNeeds name)
              (c.lookup ((name :: names).map .plan) name) :=
            hlookup.mono fun d hd => ⟨name, .refl, hd⟩
          refine (makePlan_calls hfinal (lookup_computes hc _ name (by simp)) ?_).of_cons m hm
          intro v hv
          have hplan : ∀ slot target, (slot, .catalog target) ∈ v.inputs.toList →
              c.Calls ((name :: names).map .plan) (c.PlanNeeds name)
                (c.planWith ((name :: names).map .plan) target) ∧
              Computes (IsSound c) (c.planWith ((name :: names).map .plan) target)
                (c.HasPlan target) := by
            intro slot target hmem
            have huses : c.Uses name target := ⟨v, slot, hv, hmem⟩
            have hnames' : ∀ name' ∈ name :: names, Relation.TransGen c.Uses name' target :=
              List.forall_mem_cons.2 ⟨.single huses, fun name' h => (hnames name' h).tail huses⟩
            have hcalls := ih _ (length_freeNames_lt hname hs) (name :: names) target hnames' rfl
            refine ⟨hcalls.mono ?_, planWith_computes hc _ target (by simp) (by simpa using hnames')⟩
            rintro d ⟨b, hb, hd⟩
            exact ⟨b, .head huses hb, hd⟩
          exact ⟨fill_calls name _ hplan, fill_computes _ fun slot target h => (hplan slot target h).2⟩
  · rw [planWith_of_not_contains hname]
    exact ⟨[], .refl c _ _ m _⟩

theorem plans_calls (hc : c.PassesErrors) (names : List String)
    (hP : ∀ name d, c.PlanNeeds name d → P d) : c.Calls [] P (c.plans names) := by
  induction names with
  | nil => exact Calls.of_silent fun m => ⟨rfl, rfl⟩
  | cons name names ih =>
      have hcalls : c.Calls [] P (c.planWith [] name) :=
        (planWith_calls hc [] name (by simp)).mono (hP name)
      refine hcalls.andThen (planWith_computes hc [] name (by simp) (by simp)) ?_ ?_
        fun p _ => ih.onSuccess ((name, p) :: ·)
      · intro e m m' hrun
        rw [plans, hrun]
        exact ⟨rfl, rfl, rfl⟩
      · intro p m m' hrun
        rw [plans, hrun]

end Plan

theorem ask_starts {c : Composition} (hc : c.PassesErrors) (q : Query) {m : Memo}
    (hm : m.IsSound c) : ∃ ds, Starts c [] (c.MayStart q) ds m false (c.ask q m).2 := by
  cases q with
  | lookup name =>
      obtain ⟨ds, h⟩ := lookup_calls hc [] name (by simp) m hm
      exact ⟨ds, h.weaken (by simp)⟩
  | plan name =>
      obtain ⟨ds, h⟩ := planWith_calls hc [] name (by simp) m hm
      exact ⟨ds, h.weaken (by simp)⟩
  | resolve =>
      obtain ⟨ds, h⟩ := plans_calls (P := c.MayStart .resolve) hc c.names
        (fun name d hd => ⟨name, hd⟩) m hm
      exact ⟨ds, h.weaken (by simp)⟩
  | contains name => exact ⟨[], .refl c [] _ m false⟩
  | names => exact ⟨[], .refl c [] _ m false⟩

end Composition

/-- What was started and has a value has its value kept, and what has its value kept was
started once. -/
structure Memo.IsThrifty (c : Composition) (m : Memo) : Prop where
  kept : ∀ d ∈ started m.trace, ∀ v, c.HasValue d.1 (.layer d.2) v → m.values.lookup d = some v
  once : ∀ d v, m.values.lookup d = some v → c.HasFunction d → (started m.trace).count d = 1

/-- A function that is started while its cell is empty and has a value has not been
started before, or the value would be there. -/
theorem Memo.Starts.isThrifty {c : Composition} {P : String × Nat → Prop}
    {ds : List (String × Nat)} {m m' : Memo} {isOk : Bool} (h : Starts c [] P ds m isOk m')
    (hm : m.IsThrifty c) (hsound : m'.IsSound c) : m'.IsThrifty c := by
  constructor
  · intro d hd v hv
    rcases List.mem_append.1 (h.perm.mem_iff.1 hd) with hd | hd
    · rcases h.ended d hd with ⟨w, hw⟩ | ⟨-, hnone⟩
      · rw [hw, (hsound.value d.1 d.2 w hw).unique hv]
      · exact absurd hv (hnone v)
    · exact h.grows d v (hm.kept d hd v hv)
  · intro d v hv hfun
    rw [h.perm.count_eq, List.count_append]
    by_cases hd : d ∈ ds
    · obtain ⟨-, -, hempty⟩ := h.fresh d hd
      have hnew : d ∉ started m.trace := by
        intro hstarted
        cases hempty.symm.trans (hm.kept d hstarted v (hsound.value d.1 d.2 v hv))
      rw [List.count_eq_one_of_mem h.nodup hd, List.count_eq_zero.2 hnew]
    · have hkept := (h.filled d v hv hfun).resolve_right hd
      rw [List.count_eq_zero.2 hd, hm.once d v hkept hfun]

namespace Composition

open Memo

theorem isThrifty_memoAfter {c : Composition} (hc : c.PassesErrors) (qs : List Query) :
    (c.memoAfter qs).IsThrifty c := by
  induction qs using List.reverseRecOn with
  | nil =>
      constructor
      · intro d hd
        cases hd
      · intro d v hv
        cases hv
  | append_singleton qs q ih =>
      have hsound := isSound_memoAfter hc (qs ++ [q])
      rw [memoAfter_concat] at hsound ⊢
      obtain ⟨ds, h⟩ := ask_starts hc q (isSound_memoAfter hc qs)
      exact h.isThrifty ih hsound

/-- Whatever was asked before: a function that was started and has a value to bring has
brought it, and it stays at this one start whatever is asked from then on. The next
question starts no function twice, and none but those of definitions that are reached by
reads from what is asked for: from the last definition of the name that is looked up, or
of a name that the planned name reaches by catalog inputs. -/
theorem started_memoAfter {c : Composition} (hc : c.PassesErrors) (qs : List Query) :
    (∀ name i v, (name, i) ∈ started (c.memoAfter qs).trace → c.HasValue name (.layer i) v →
      (c.memoAfter qs).values.lookup (name, i) = some v) ∧
    (∀ name i v, (c.memoAfter qs).values.lookup (name, i) = some v → c.HasFunction (name, i) →
      ∀ qs', (started (c.memoAfter (qs ++ qs')).trace).count (name, i) = 1) ∧
    ∀ q, ∃ t, (c.memoAfter (qs ++ [q])).trace = t ++ (c.memoAfter qs).trace ∧
      (started t).Nodup ∧ ∀ d ∈ started t, c.MayStart q d := by
  refine ⟨?_, ?_, ?_⟩
  · intro name i v hstarted hv
    exact (isThrifty_memoAfter hc qs).kept (name, i) hstarted v hv
  · intro name i v hkept hfun qs'
    have hkept' := (memoAfter_append_steps c qs qs').values hkept
    exact (isThrifty_memoAfter hc (qs ++ qs')).once (name, i) v hkept' hfun
  · intro q
    obtain ⟨t, ht⟩ := (memoAfter_append_steps c qs [q]).trace
    refine ⟨t, ht.symm, ?_⟩
    obtain ⟨ds, h⟩ := ask_starts hc q (isSound_memoAfter hc qs)
    have hperm := h.perm
    rw [← memoAfter_concat, ← ht, started, List.filterMap_append] at hperm
    have hds : (started t).Perm ds := (List.perm_append_right_iff _).1 hperm
    refine ⟨hds.nodup_iff.2 h.nodup, fun d hd => ?_⟩
    exact (h.fresh d (hds.mem_iff.1 hd)).1

theorem started_memoAfter_refreshed :
    refreshed.PassesErrors ∧
      (refreshed.memoAfter [.lookup "perl", .lookup "wget"]).values.lookup ("curl", 1) = some
        { name := "curl", version := "8.6",
          inputs := .ofList [("ca", .external "certs"), ("tls", .catalog "zlib")] } ∧
      refreshed.HasFunction ("curl", 1) ∧
      (started (refreshed.memoAfter ([.lookup "perl", .lookup "wget"] ++
        [.plan "wget", .resolve])).trace).count ("curl", 1) = 1 := by
  have hfun : refreshed.HasFunction ("curl", 1) := ⟨_, _, rfl, trivial⟩
  have hkept : (refreshed.memoAfter [.lookup "perl", .lookup "wget"]).values.lookup
      ("curl", 1) = some
        { name := "curl", version := "8.6",
          inputs := .ofList [("ca", .external "certs"), ("tls", .catalog "zlib")] } := by
    decide +kernel
  have h := started_memoAfter passesErrors_refreshed [.lookup "perl", .lookup "wget"]
  exact ⟨passesErrors_refreshed, hkept, hfun,
    h.2.1 "curl" 1 _ hkept hfun [.plan "wget", .resolve]⟩

end Composition

end LayeredCatalog
