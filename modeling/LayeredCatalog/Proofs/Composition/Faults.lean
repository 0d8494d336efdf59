import LayeredCatalog.Proofs.Composition.CyclePath
import LayeredCatalog.Proofs.Composition.History
import LayeredCatalog.Proofs.Composition.Steps
import LayeredCatalog.Proofs.Transcript
import Mathlib.Data.String.Basic

/-!
# Where the faults of an evaluation come from

The functions of the layers may do anything here, also look at the failure of a read
and go on. What such a function is told can depend on what is in progress, so a
fault is traced back to what the memo holds afterwards and not to the values of
definitions: `m.Follows c i k ts r` says that the contribution `k` of the layer
`i` gets to `r` on the answers `ts`, each of which the memo `m` accounts for.

`m.Explains c e` lists what can be behind the fault `e`: a function or a patch that
fails, a read of a name that the view does not show, an input that dangles, a
closed walk of definitions that read each other, or a closed walk of catalog inputs.
An explanation stays one while the memo takes steps. Each fault of an evaluation
has an explanation (`valueAt_explains`, `planWith_explains`), hence each fault
that a query about assigned names answers with (`ask_explains`).
-/

namespace LayeredCatalog

namespace Memo

/-- What a layer can be told when it reads an origin, by what the memo holds. A fault
of the value that is read has come up in an evaluation of it, and the memo has grown
from the one that this evaluation left. -/
def Answers (c : Composition) (m : Memo) (i : Nat) (o : Origin) :
    Except LayerFailure Component → Prop
  | .ok v => ∃ s, c.Shows i o s ∧ m.HoldsAt c o.name s v
  | .error (.missing name view) => o = ⟨view, name⟩ ∧ ∀ s, ¬ c.Shows i o s
  | .error (.fault e) =>
      ∃ s stack m₀, c.Shows i o s ∧ (c.valueAt stack o.name s m₀).1 = .error e ∧
        Steps c [] (c.valueAt stack o.name s m₀).2 m
  | .error _ => False

/-- A contribution of the layer `i` gets to a computation on answers that the memo
accounts for. -/
structure Follows (c : Composition) (m : Memo) (i : Nat) (k : Contribution) (ts : Transcript)
    (r : Reading (Except LayerFailure Component)) : Prop where
  leadsTo : (k.toReading i).LeadsTo (fun n => (c.slotBelow? i n).isSome) ts r
  answers : ∀ t ∈ ts, m.Answers c i t.1 t.2

/-- The contribution of the layer `i` for the name reads an origin. -/
def Reads (c : Composition) (m : Memo) (name : String) (i : Nat) (o : Origin) : Prop :=
  ∃ l k ts next, c.contribution? i name = some (l, k) ∧ m.Follows c i k ts (.read o next)

/-- The definition `d`, a name in a layer, reads the definition `d'`. -/
def Needs (c : Composition) (m : Memo) (d d' : String × Nat) : Prop :=
  ∃ o, m.Reads c d.1 d.2 o ∧ o.name = d'.1 ∧ c.Shows d.2 o (.layer d'.2)

/-- The final component of `a` has a catalog input that asks for `b`. -/
def Uses (c : Composition) (m : Memo) (a b : String) : Prop :=
  ∃ v slot, m.Holds c a v ∧ (slot, .catalog b) ∈ v.inputs.toList

/-- What can be behind a fault. -/
inductive Explains (c : Composition) (m : Memo) : ResolutionError → Prop where
  /-- A contribution ended with a failure that no read was answered with. -/
  | raised {name : String} {i : Nat} {l : Layer} {k : Contribution} {ts : Transcript}
      {failure : LayerFailure} :
      c.contribution? i name = some (l, k) → m.Follows c i k ts (.done (.error failure)) →
      (∀ o, (o, .error failure) ∉ ts) → Explains c m (failure.blame name i l.name)
  /-- A contribution read what the view does not show. -/
  | missing {name : String} {i : Nat} {l : Layer} {k : Contribution} {o : Origin} :
      c.contribution? i name = some (l, k) → m.Reads c name i o → (∀ s, ¬ c.Shows i o s) →
      Explains c m (.danglingOrigin o.name o.view name i l.name)
  /-- An input asks for a name that nothing assigns, and no slot before it does so. -/
  | dangling {name slot target : String} {v : Component} :
      m.Holds c name v → v.inputs.get? slot = some (.catalog target) → ¬ c.contains target →
      (∀ slot' target', v.inputs.get? slot' = some (.catalog target') → ¬ c.contains target' →
        slot ≤ slot') →
      Explains c m (.danglingInput target name slot)
  /-- Definitions read each other in a circle. -/
  | definitions {d : String × Nat} {ds : List (String × Nat)} :
      (d :: ds ++ [d]).IsChain (m.Needs c) →
      Explains c m (.cycle d.1 (closedPath ((d :: ds ++ [d]).map Prod.fst)))
  /-- Components ask for each other in a circle. -/
  | plans {name : String} {names : List String} :
      (name :: names ++ [name]).IsChain (m.Uses c) → (name :: names).Nodup →
      Explains c m (.cycle name (closedPath (name :: names ++ [name])))

/-- The memo that an evaluation left explains the fault that it ended with, if any. -/
def IsExplained {α : Type} (c : Composition) (r : Except ResolutionError α × Memo) : Prop :=
  ∀ e, r.1 = .error e → r.2.Explains c e

theorem isExplained_ok {α : Type} (c : Composition) (v : α) (m : Memo) :
    IsExplained c (.ok v, m) := by
  intro e he
  cases he

theorem isExplained_error_iff {α : Type} {c : Composition} {e : ResolutionError} {m : Memo} :
    IsExplained c ((.error e, m) : Except ResolutionError α × Memo) ↔ m.Explains c e := by
  constructor
  · intro h
    exact h e rfl
  · intro h e' he
    rwa [← Except.error.inj he]

theorem IsExplained.onSuccess {α β : Type} {c : Composition}
    {r : Except ResolutionError α × Memo} (h : IsExplained c r) (f : α → β) :
    IsExplained c (onSuccess f r) := by
  obtain ⟨a, m⟩ := r
  cases a with
  | ok v => exact isExplained_ok c _ m
  | error e => exact isExplained_error_iff.2 (isExplained_error_iff.1 h)

section Steps

variable {c : Composition} {stack : List Frame} {m m' : Memo}

theorem Steps.holdsAt {name : String} {s : Slot} {v : Component} (h : Steps c stack m m')
    (hv : m.HoldsAt c name s v) : m'.HoldsAt c name s v := by
  cases s with
  | base => exact hv
  | layer i => exact h.values hv

theorem Steps.answers {i : Nat} {o : Origin} {answer : Except LayerFailure Component}
    (h : Steps c stack m m') (ha : m.Answers c i o answer) : m'.Answers c i o answer := by
  cases answer with
  | ok v =>
      obtain ⟨s, hs, hv⟩ := ha
      exact ⟨s, hs, h.holdsAt hv⟩
  | error failure =>
      cases failure with
      | fault e =>
          obtain ⟨s, stack', m₀, hs, he, hgrown⟩ := ha
          exact ⟨s, stack', m₀, hs, he, hgrown.trans h.forget⟩
      | missing name view => exact ha
      | ambiguous field => exact ha
      | failed reason => exact ha

theorem Steps.follows {i : Nat} {k : Contribution} {ts : Transcript}
    {r : Reading (Except LayerFailure Component)} (h : Steps c stack m m')
    (hr : m.Follows c i k ts r) : m'.Follows c i k ts r :=
  ⟨hr.leadsTo, fun t ht => h.answers (hr.answers t ht)⟩

theorem Steps.reads {name : String} {i : Nat} {o : Origin} (h : Steps c stack m m')
    (hr : m.Reads c name i o) : m'.Reads c name i o := by
  obtain ⟨l, k, ts, next, hk, hread⟩ := hr
  exact ⟨l, k, ts, next, hk, h.follows hread⟩

theorem Steps.needs {d d' : String × Nat} (h : Steps c stack m m') (hd : m.Needs c d d') :
    m'.Needs c d d' := by
  obtain ⟨o, hread, hname, hs⟩ := hd
  exact ⟨o, h.reads hread, hname, hs⟩

theorem Steps.uses {a b : String} (h : Steps c stack m m') (hab : m.Uses c a b) :
    m'.Uses c a b := by
  obtain ⟨v, slot, hv, hmem⟩ := hab
  exact ⟨v, slot, h.holds hv, hmem⟩

theorem Steps.explains {e : ResolutionError} (h : Steps c stack m m') (he : m.Explains c e) :
    m'.Explains c e := by
  cases he with
  | raised hk hdone hown => exact .raised hk (h.follows hdone) hown
  | missing hk hread hnone => exact .missing hk (h.reads hread) hnone
  | dangling hv hslot htarget hleast => exact .dangling (h.holds hv) hslot htarget hleast
  | definitions hwalk => exact .definitions (hwalk.imp fun _ _ => h.needs)
  | plans hwalk hnodup => exact .plans (hwalk.imp fun _ _ => h.uses) hnodup

end Steps

end Memo

/-- The failure of a result. -/
def error? {ε α : Type} : Except ε α → Option ε
  | .error e => some e
  | .ok _ => none

theorem error?_eq_some_iff {ε α : Type} {r : Except ε α} {e : ε} :
    error? r = some e ↔ r = .error e := by
  cases r with
  | error e' => simp [error?]
  | ok v => simp [error?]

/-- The fault that an answer reports. -/
def Answer.error? : Answer → Option ResolutionError
  | .component result => LayeredCatalog.error? result
  | .plan result => LayeredCatalog.error? result
  | .catalog result => LayeredCatalog.error? result
  | .flag _ => none
  | .names _ => none

/-- The name that a question asks the value or the plan of. -/
def Query.name? : Query → Option String
  | .lookup name => some name
  | .plan name => some name
  | _ => none

namespace Composition

open Memo

/-- The frames of definitions in progress above those of plans in progress. Of both
the innermost comes first. -/
def stackOf (defs : List (String × Nat)) (names : List String) : List Frame :=
  defs.map (fun d => .define d.1 d.2) ++ names.map .plan

section Stack

variable {defs : List (String × Nat)} {names : List String}

theorem define_mem_stackOf {name : String} {i : Nat} :
    .define name i ∈ stackOf defs names ↔ (name, i) ∈ defs := by
  simp [stackOf]

theorem plan_mem_stackOf {name : String} :
    .plan name ∈ stackOf defs names ↔ name ∈ names := by
  simp [stackOf]

theorem cycleError_define {name : String} {i : Nat} (h : (name, i) ∈ defs) :
    cycleError (stackOf defs names) (.define name i) =
      .cycle name (closedPath ((closedWalk defs (name, i)).map Prod.fst)) := by
  have hframe : Function.Injective fun d : String × Nat => Frame.define d.1 d.2 := by
    intro d d' hd
    exact Prod.ext (Frame.define.inj hd).1 (Frame.define.inj hd).2
  rw [cycleError, stackOf, cyclePath_map_append hframe h]
  rfl

theorem cycleError_plan {name : String} (h : name ∈ names) :
    cycleError (stackOf [] names) (.plan name) =
      .cycle name (closedPath (closedWalk names name)) := by
  have hpath := cyclePath_map_append (fun _ _ => Frame.plan.inj) h []
  rw [List.append_nil] at hpath
  rw [cycleError, stackOf, List.map_nil, List.nil_append, hpath]
  simp [Frame.name]

end Stack

section Run

variable {c : Composition} {stack : List Frame} {below : String → Bool} {m₀ : Memo}
  {answer : Origin → Memo → Except LayerFailure Component × Memo}
  (told : Memo → Origin → Except LayerFailure Component → Prop)
  {root : Reading (Except LayerFailure Component)}

/-- A run leads to its result on the answers that were given. What is known of an
answer (`told`) may rest on the answers before it, and stays while the memo takes
steps. -/
theorem run_reading_leadsTo
    (hmono : ∀ {m m' o a}, Steps c stack m m' → told m o a → told m' o a)
    (hanswer : ∀ {o next ts m}, Steps c stack m₀ m → root.LeadsTo below ts (.read o next) →
      (∀ t ∈ ts, told m t.1 t.2) →
      Steps c stack m (answer o m).2 ∧ told (answer o m).2 o (answer o m).1)
    (r : Reading (Except LayerFailure Component)) {ts : Transcript} {m : Memo}
    (hm : Steps c stack m₀ m) (hr : root.LeadsTo below ts r) (hts : ∀ t ∈ ts, told m t.1 t.2) :
    ∃ ts', root.LeadsTo below ts' (.done (r.run answer below m).1) ∧
      ∀ t ∈ ts', told (r.run answer below m).2 t.1 t.2 := by
  induction r generalizing ts m with
  | done result => exact ⟨ts, hr, hts⟩
  | read o next ih =>
      obtain ⟨hsteps, htold⟩ := hanswer hm hr hts
      refine ih (answer o m).1 (hm.trans hsteps) (hr.answered _) ?_
      intro t ht
      rcases List.mem_append.1 ht with ht | ht
      · exact hmono hsteps (hts t ht)
      · rw [List.mem_singleton.1 ht]
        exact htold
  | definedBelow name next ih => exact ih (below name) hm hr.told hts

theorem run_contribution_leadsTo (k : Contribution) (name : String) (i : Nat)
    (hmono : ∀ {m m' o a}, Steps c stack m m' → told m o a → told m' o a)
    (hanswer : ∀ {o next ts m}, Steps c stack m₀ m →
      (k.toReading i).LeadsTo below ts (.read o next) → (∀ t ∈ ts, told m t.1 t.2) →
      Steps c stack m (answer o m).2 ∧ told (answer o m).2 o (answer o m).1) :
    ∃ ts, (k.toReading i).LeadsTo below ts
        (.done (k.run answer below i (·.note (.start name i)) m₀).1) ∧
      ∀ t ∈ ts, told (k.run answer below i (·.note (.start name i)) m₀).2 t.1 t.2 := by
  cases k with
  | constant component => exact ⟨[], .refl _, by simp⟩
  | compute body =>
      have hstart : Steps c stack m₀ (m₀.note (.start name i)) := .single (.note m₀ _)
      have hbody {o next ts m} (hm : Steps c stack m₀ m)
          (hread : (body i).LeadsTo below ts (.read o next)) (hts : ∀ t ∈ ts, told m t.1 t.2) :
          Steps c stack m (answer o m).2 ∧ told (answer o m).2 o (answer o m).1 :=
        hanswer hm hread hts
      exact run_reading_leadsTo told hmono hbody (body i) hstart (.refl _) (by simp)
  | derive o t =>
      obtain ⟨-, htold⟩ := hanswer .refl (.refl _) (List.forall_mem_nil _)
      rw [Contribution.run]
      split
      · next failure m h =>
        rw [h] at htold
        refine ⟨[(o, .error failure)],
          Contribution.derive_leadsTo_done_iff.2 (.inl ⟨failure, rfl, rfl⟩), ?_⟩
        exact List.forall_mem_singleton.2 htold
      · next old m h =>
        rw [h] at htold
        refine ⟨[(o, .ok old)],
          Contribution.derive_leadsTo_done_iff.2 (.inr ⟨old, rfl, rfl⟩), ?_⟩
        refine List.forall_mem_singleton.2 ?_
        cases t with
        | replace f => exact hmono (.single (.note m _)) htold
        | merge patch => exact htold

end Run

/-- What is known of an answer in the proof below: the memo accounts for it, and for
the fault that it passes on there is an explanation. -/
def Accounts (c : Composition) (i : Nat) (m : Memo) (o : Origin)
    (answer : Except LayerFailure Component) : Prop :=
  m.Answers c i o answer ∧ ∀ e, answer = .error (.fault e) → m.Explains c e

theorem Accounts.of_steps {c : Composition} {stack : List Frame} {i : Nat} {m m' : Memo}
    {o : Origin} {answer : Except LayerFailure Component} (h : Steps c stack m m')
    (ha : c.Accounts i m o answer) : c.Accounts i m' o answer :=
  ⟨h.answers ha.1, fun e he => h.explains (ha.2 e he)⟩

theorem answer_accounts {c : Composition} {stack : List Frame} {i : Nat} {o : Origin} {m : Memo}
    (hvalue : ∀ s, c.Shows i o s → IsExplained c (c.valueAt stack o.name s m)) :
    Steps c stack m (c.answer i (c.valueAt stack) o m).2 ∧
      c.Accounts i (c.answer i (c.valueAt stack) o m).2 o
        (c.answer i (c.valueAt stack) o m).1 := by
  rw [answer]
  split
  · next hnone =>
    refine ⟨.refl, ⟨rfl, ?_⟩, ?_⟩
    · intro s hs
      cases hnone.symm.trans (slotIn?_eq_some_iff.2 hs)
    · intro e he
      cases he
  · next s hslot =>
    have hs := slotIn?_eq_some_iff.1 hslot
    have hreaches := valueAt_reaches c stack o.name s m
    refine ⟨hreaches.steps, ?_⟩
    rw [onFailure]
    cases ha : (c.valueAt stack o.name s m).1 with
    | ok v =>
        refine ⟨⟨s, hs, hreaches.returned v ha⟩, ?_⟩
        intro e he
        cases he
    | error e =>
        refine ⟨⟨s, stack, m, hs, ha, .refl⟩, ?_⟩
        intro e' he
        cases he
        exact hvalue s hs e ha

/-- A failure is explained where it is blamed on the contribution that ended with it. -/
theorem explains_blame {c : Composition} {m : Memo} {name : String} {i : Nat} {l : Layer}
    {k : Contribution} {ts : Transcript} {failure : LayerFailure}
    (hk : c.contribution? i name = some (l, k))
    (hdone : (k.toReading i).LeadsTo (fun n => (c.slotBelow? i n).isSome) ts
      (.done (.error failure)))
    (hts : ∀ t ∈ ts, c.Accounts i m t.1 t.2) : m.Explains c (failure.blame name i l.name) := by
  have hanswers : ∀ t ∈ ts, m.Answers c i t.1 t.2 := fun t ht => (hts t ht).1
  by_cases hpassed : ∃ o, (o, .error failure) ∈ ts
  · obtain ⟨o, hmem⟩ := hpassed
    obtain ⟨hanswer, hfault⟩ := hts _ hmem
    cases failure with
    | fault e => exact hfault e rfl
    | missing target view =>
        obtain ⟨rfl, hnone⟩ := hanswer
        obtain ⟨ts', next, hsub, hread⟩ := hdone.exists_read_of_mem hmem
        exact .missing hk ⟨l, k, ts', next, hk, hread, fun t ht => hanswers t (hsub ht)⟩ hnone
    | ambiguous field => exact hanswer.elim
    | failed reason => exact hanswer.elim
  · exact .raised hk ⟨hdone, hanswers⟩ (not_exists.1 hpassed)

theorem concludeValue_explains {c : Composition} {name : String} {i : Nat} {l : Layer}
    {k : Contribution} {ts : Transcript} {result : Except LayerFailure Component × Memo}
    (hk : c.contribution? i name = some (l, k))
    (hdone : (k.toReading i).LeadsTo (fun n => (c.slotBelow? i n).isSome) ts (.done result.1))
    (hts : ∀ t ∈ ts, c.Accounts i result.2 t.1 t.2) :
    IsExplained c (concludeValue name i l.name result) := by
  obtain ⟨a, m⟩ := result
  cases a with
  | ok v => exact isExplained_ok c _ _
  | error failure =>
      have hleave : Steps c [] m (m.note .leave) := .single (.note m _)
      exact isExplained_error_iff.2 (hleave.explains (explains_blame hk hdone hts))

/-- Each fault of a value has an explanation. The definitions on the stack read each
other up to the one that is evaluated, so one that comes back closes a walk. -/
theorem valueAt_explains (c : Composition) (defs : List (String × Nat)) (names : List String)
    {name : String} {s : Slot} {m : Memo} (hs : c.Defines name s)
    (hwalk : ∀ i, s = .layer i → ((name, i) :: defs).IsChain fun d d' => m.Needs c d' d) :
    IsExplained c (c.valueAt (stackOf defs names) name s m) := by
  induction hfree : (c.freeCells (stackOf defs names)).length using Nat.strong_induction_on
    generalizing defs name s m with
  | _ free ih =>
  subst hfree
  cases s with
  | base =>
      obtain ⟨v, hv⟩ := Option.isSome_iff_exists.1 hs
      rw [valueAt, hv]
      exact isExplained_ok c v m
  | layer i =>
      obtain ⟨l, k, hk⟩ := defines_layer_iff.1 hs
      cases hm : m.values.lookup (name, i) with
      | some v =>
          rw [valueAt_of_kept hm]
          exact isExplained_ok c v m
      | none =>
          by_cases hmem : (name, i) ∈ defs
          · rw [valueAt_of_mem_stack hm hk (define_mem_stackOf.2 hmem), cycleError_define hmem]
            exact isExplained_error_iff.2 (.definitions (isChain_closedWalk hmem (hwalk i rfl)))
          · have hframe : .define name i ∉ stackOf defs names := mt define_mem_stackOf.1 hmem
            have henter : Steps c (.define name i :: stackOf defs names) m
                (m.note (.enter (.define name i))) := .single (.note m _)
            rw [valueAt_of_contribution? hm hk hframe]
            have hanswer {o next ts m'} (hm' : Steps c (.define name i :: stackOf defs names)
                (m.note (.enter (.define name i))) m')
                (hread : (k.toReading i).LeadsTo (fun n => (c.slotBelow? i n).isSome) ts
                  (.read o next)) (hts : ∀ t ∈ ts, c.Accounts i m' t.1 t.2) :
                Steps c (.define name i :: stackOf defs names) m'
                    (c.answer i (c.valueAt (stackOf ((name, i) :: defs) names)) o m').2 ∧
                  c.Accounts i
                    (c.answer i (c.valueAt (stackOf ((name, i) :: defs) names)) o m').2 o
                    (c.answer i (c.valueAt (stackOf ((name, i) :: defs) names)) o m').1 := by
              refine answer_accounts fun s' hs' => ?_
              refine ih _ (length_freeCells_lt hk hframe) ((name, i) :: defs) hs'.1.1 ?_ rfl
              rintro j rfl
              have hsteps : Steps c (.define name i :: stackOf defs names) m m' :=
                henter.trans hm'
              refine List.isChain_cons_cons.2
                ⟨?_, (hwalk i rfl).imp fun _ _ => hsteps.needs⟩
              exact ⟨o, ⟨l, k, ts, next, hk, hread, fun t ht => (hts t ht).1⟩, rfl, hs'⟩
            obtain ⟨ts, hdone, hts⟩ := run_contribution_leadsTo (c.Accounts i) k name i
              Accounts.of_steps hanswer
            exact concludeValue_explains hk hdone hts

theorem lookup_explains (c : Composition) (names : List String) {name : String} {m : Memo}
    (hname : c.contains name) : IsExplained c (c.lookup (stackOf [] names) name m) := by
  obtain ⟨s, hs⟩ := contains_iff_exists_isLast.1 hname
  rw [lookup, lastSlot?_eq_some_iff.2 hs]
  refine valueAt_explains c [] names hs.1 ?_
  intro i _
  exact .singleton _

/-- Each fault met while inputs are filled has an explanation. The inputs before those
that are left ask for assigned names. -/
theorem fill_explains {c : Composition} {stack : List Frame} {name : String} {v : Component}
    {plan : String → Memo → Except ResolutionError Plan × Memo} {m₀ : Memo}
    (hv : m₀.Holds c name v) (hplan : ∀ target m, Steps c stack m (plan target m).2)
    (hexplains : ∀ slot target m, (slot, .catalog target) ∈ v.inputs.toList →
      c.contains target → Steps c stack m₀ m → IsExplained c (plan target m))
    (filled inputs : List (String × InputRef)) (hsplit : v.inputs.toList = filled ++ inputs)
    (hfilled : ∀ slot target, (slot, .catalog target) ∈ filled → c.contains target)
    {m : Memo} (hm : Steps c stack m₀ m) : IsExplained c (c.fill plan name inputs m) := by
  induction inputs generalizing filled m with
  | nil => exact isExplained_ok c [] m
  | cons input inputs ih =>
      obtain ⟨slot, ref⟩ := input
      have hnext : v.inputs.toList = (filled ++ [(slot, ref)]) ++ inputs := by
        rw [hsplit, List.append_assoc, List.singleton_append]
      have hmem : (slot, ref) ∈ v.inputs.toList := by
        rw [hsplit]
        simp
      cases ref with
      | external id =>
          rw [fill]
          refine (ih _ hnext ?_ hm).onSuccess _
          intro slot' target hslot
          exact hfilled slot' target (by simpa using hslot)
      | catalog target =>
          rw [fill]
          by_cases htarget : c.contains target
          · rw [if_pos htarget]
            have hfault := hexplains slot target m hmem htarget hm
            have hsteps := hplan target m
            split
            · next e m' hrun =>
              rw [hrun] at hfault
              exact isExplained_error_iff.2 (isExplained_error_iff.1 hfault)
            · next p m' hrun =>
              rw [hrun] at hsteps
              refine (ih _ hnext ?_ (hm.trans hsteps)).onSuccess _
              intro slot' target' hslot
              rcases List.mem_append.1 hslot with hslot | hslot
              · exact hfilled slot' target' hslot
              · cases List.mem_singleton.1 hslot
                exact htarget
          · rw [if_neg htarget]
            refine isExplained_error_iff.2 (.dangling (hm.holds hv)
              (Table.get?_eq_some_iff.2 hmem) htarget ?_)
            intro slot' target' hslot' htarget'
            have hsorted := v.inputs.sorted
            have hmem' := Table.get?_eq_some_iff.1 hslot'
            rw [hsplit, List.pairwise_append, List.pairwise_cons] at hsorted
            rw [hsplit] at hmem'
            rcases List.mem_append.1 hmem' with hbefore | hrest
            · exact absurd (hfilled slot' target' hbefore) htarget'
            · rcases List.mem_cons.1 hrest with he | hafter
              · exact (Prod.mk.inj he).1.ge
              · exact (compare_lt_iff_lt.1 (hsorted.2.1.1 _ hafter)).le

theorem concludePlan_explains {c : Composition} {name : String} {v : Component}
    {result : Except ResolutionError (List (String × PlanInput)) × Memo}
    (h : IsExplained c result) : IsExplained c (concludePlan name v result) := by
  obtain ⟨a, m⟩ := result
  cases a with
  | error e =>
      have hleave : Steps c [] m (m.note .leave) := .single (.note m _)
      exact isExplained_error_iff.2 (hleave.explains (isExplained_error_iff.1 h))
  | ok filled => exact isExplained_ok c _ _

theorem makePlan_explains {c : Composition} {name : String} {m : Memo}
    {final : Memo → Except ResolutionError Component × Memo}
    {fill : Component → Memo → Except ResolutionError (List (String × PlanInput)) × Memo}
    (hfinal : IsExplained c (final (m.note (.enter (.plan name)))))
    (hfill : ∀ v m', final (m.note (.enter (.plan name))) = (.ok v, m') →
      IsExplained c (fill v m')) :
    IsExplained c (makePlan name final fill m) := by
  rw [makePlan]
  split
  · next e m' hrun =>
    rw [hrun] at hfinal
    have hleave : Steps c [] m' (m'.note .leave) := .single (.note m' _)
    exact isExplained_error_iff.2 (hleave.explains (isExplained_error_iff.1 hfinal))
  · next v m' hrun => exact concludePlan_explains (hfill v m' hrun)

/-- Each fault of a plan has an explanation. The names on the stack are different, and
each has an input that asks for the one above it, so one that comes back closes a
walk of inputs. -/
theorem planWith_explains (c : Composition) (names : List String) {name : String} {m : Memo}
    (hname : c.contains name) (hnodup : names.Nodup)
    (hwalk : (name :: names).IsChain fun a b => m.Uses c b a) :
    IsExplained c (c.planWith (stackOf [] names) name m) := by
  induction hfree : (c.freeNames (stackOf [] names)).length using Nat.strong_induction_on
    generalizing names name m with
  | _ free ih =>
  subst hfree
  cases hm : m.plans.lookup name with
  | some p =>
      rw [planWith_of_kept hname hm]
      exact isExplained_ok c p m
  | none =>
      by_cases hmem : name ∈ names
      · rw [planWith_of_mem_stack hname hm (plan_mem_stackOf.2 hmem), cycleError_plan hmem]
        refine isExplained_error_iff.2 (.plans (isChain_closedWalk hmem hwalk) ?_)
        exact nodup_closedWalk hnodup
      · have hframe : .plan name ∉ stackOf [] names := mt plan_mem_stackOf.1 hmem
        have henter : Steps c (.plan name :: stackOf [] names) m
            (m.note (.enter (.plan name))) := .single (.note m _)
        rw [planWith_of_not_mem_stack hname hm hframe]
        refine makePlan_explains (lookup_explains c (name :: names) hname) ?_
        intro v m' hrun
        have hlookup := lookup_reaches c (.plan name :: stackOf [] names) name
          (m.note (.enter (.plan name)))
        rw [hrun] at hlookup
        have hv : m'.Holds c name v := hlookup.returned v rfl
        refine fill_explains hv (fun target m'' => (planWith_reaches c _ target m'').steps)
          ?_ [] v.inputs.toList rfl (by simp) .refl
        intro slot target m'' hslot htarget hm''
        have hsteps : Steps c (.plan name :: stackOf [] names) m m'' :=
          (henter.trans hlookup.steps).trans hm''
        refine ih _ (length_freeNames_lt hname hframe) (name :: names) htarget
          (List.nodup_cons.2 ⟨hmem, hnodup⟩) ?_ rfl
        refine List.isChain_cons_cons.2 ⟨?_, hwalk.imp fun _ _ => hsteps.uses⟩
        exact ⟨v, slot, hm''.holds hv, hslot⟩

theorem plans_explains (c : Composition) (names : List String)
    (hnames : ∀ name ∈ names, c.contains name) (m : Memo) : IsExplained c (c.plans names m) := by
  induction names generalizing m with
  | nil => exact isExplained_ok c [] m
  | cons name names ih =>
      obtain ⟨hname, hnames⟩ := List.forall_mem_cons.1 hnames
      have hplan := planWith_explains c [] (m := m) hname .nil (.singleton _)
      rw [plans]
      split
      · next e m' hrun =>
        have hfault : IsExplained c (c.planWith [] name m) := hplan
        rw [hrun] at hfault
        exact isExplained_error_iff.2 (isExplained_error_iff.1 hfault)
      · next p m' hrun => exact (ih hnames m').onSuccess _

/-- Each fault that a question ends with has an explanation, unless it is about a name
that nothing assigns. -/
theorem ask_explains (c : Composition) (q : Query) (m : Memo) {e : ResolutionError}
    (he : (c.ask q m).1.error? = some e) :
    (c.ask q m).2.Explains c e ∨
      ∃ name, q.name? = some name ∧ ¬ c.contains name ∧ e = .unknownComponent name .final := by
  cases q with
  | lookup name =>
      rw [ask, Answer.error?, error?_eq_some_iff] at he
      by_cases hname : c.contains name
      · exact .inl (lookup_explains c [] hname e he)
      · have hnone : c.lastSlot? name = none := by
          rw [Option.eq_none_iff_forall_ne_some]
          intro s hs
          exact hname (contains_iff_exists_isLast.2 ⟨s, lastSlot?_eq_some_iff.1 hs⟩)
        rw [lookup, hnone] at he
        exact .inr ⟨name, rfl, hname, (Except.error.inj he).symm⟩
  | plan name =>
      rw [ask, Answer.error?, error?_eq_some_iff] at he
      by_cases hname : c.contains name
      · exact .inl (planWith_explains c [] hname .nil (.singleton _) e he)
      · rw [planWith_of_not_contains hname] at he
        exact .inr ⟨name, rfl, hname, (Except.error.inj he).symm⟩
  | resolve =>
      rw [ask, Answer.error?, error?_eq_some_iff] at he
      have hplans := plans_explains c c.names (fun name => contains_iff_mem_names.2) m
      exact .inl (hplans.onSuccess Table.ofList e he)
  | contains name => cases he
  | names => cases he

end Composition

end LayeredCatalog
