import LayeredCatalog.Proofs.Reading

/-!
# What a computation was told

`r.LeadsTo below ts r'` says that the computation `r` gets to `r'` when its reads
are answered as in the transcript `ts`; who gives these answers is left open. A
computation that passes on failures gets past a read only if the read succeeded
(`LeadsTo.eq_ok_of_mem`).

A computation that looks at the failure of a read may still go on, hand the
failure on or fail in a way of its own. `Reading.RaisesOnly P` says that whatever
failure it ends with was an answer to a read, unless it is in `P`. For a contribution the
same is asked of its function, if it has one; what a patch fails with is not the
doing of a function (`Contribution.RaisesOnly.cases`).
-/

namespace LayeredCatalog

namespace LayerFailure

/-- Whether a failure is no more than a reason. -/
def IsPlain (failure : LayerFailure) : Prop := ∃ reason, failure = .failed reason

/-- Whether a failure reports a cycle. -/
def IsCycle (failure : LayerFailure) : Prop :=
  ∃ name path, failure = .fault (.cycle name path)

/-- A layer is never blamed for a cycle: what is reported as one came as one. -/
theorem eq_fault_of_blame_eq_cycle {failure : LayerFailure} {name : String} {i : Nat}
    {layerName target : String} {path : List String}
    (h : failure.blame name i layerName = .cycle target path) :
    failure = .fault (.cycle target path) := by
  cases failure with
  | fault e => exact congrArg fault h
  | missing target view => cases h
  | ambiguous field => cases h
  | failed reason => cases h

end LayerFailure

/-- The reads of a computation and their answers, the first one first. -/
abbrev Transcript := List (Origin × Except LayerFailure Component)

namespace Reading

/-- A computation gets to another one on the answers of a transcript. -/
inductive LeadsTo {α : Type} (below : String → Bool) :
    Reading α → Transcript → Reading α → Prop where
  | refl (r : Reading α) : LeadsTo below r [] r
  | read {o : Origin} {next : Except LayerFailure Component → Reading α}
      {answer : Except LayerFailure Component} {ts : Transcript} {r : Reading α} :
      LeadsTo below (next answer) ts r → LeadsTo below (.read o next) ((o, answer) :: ts) r
  | definedBelow {name : String} {next : Bool → Reading α} {ts : Transcript} {r : Reading α} :
      LeadsTo below (next (below name)) ts r → LeadsTo below (.definedBelow name next) ts r

/-- Every failure that a computation ends with was the answer to a read or is in `P`. -/
def RaisesOnly {α : Type} (P : LayerFailure → Prop) (r : Reading (Except LayerFailure α)) :
    Prop :=
  ∀ below ts failure, r.LeadsTo below ts (.done (.error failure)) →
    (∃ o, (o, .error failure) ∈ ts) ∨ P failure

namespace LeadsTo

variable {α : Type} {below : String → Bool} {r r' r'' : Reading α} {ts ts' : Transcript}

theorem trans (h : r.LeadsTo below ts r') (h' : r'.LeadsTo below ts' r'') :
    r.LeadsTo below (ts ++ ts') r'' := by
  induction h with
  | refl r => exact h'
  | read _ ih => exact .read (ih h')
  | definedBelow _ ih => exact .definedBelow (ih h')

theorem answered {o : Origin} {next : Except LayerFailure Component → Reading α}
    (h : r.LeadsTo below ts (.read o next)) (answer : Except LayerFailure Component) :
    r.LeadsTo below (ts ++ [(o, answer)]) (next answer) :=
  h.trans (.read (.refl _))

theorem told {name : String} {next : Bool → Reading α}
    (h : r.LeadsTo below ts (.definedBelow name next)) :
    r.LeadsTo below ts (next (below name)) := by
  have hnext := h.trans (.definedBelow (.refl _))
  rwa [List.append_nil] at hnext

/-- Each entry of a transcript was asked for by what the entries before it lead to. -/
theorem exists_read_of_mem {o : Origin} {answer : Except LayerFailure Component}
    (h : r.LeadsTo below ts r') (hmem : (o, answer) ∈ ts) :
    ∃ ts' next, ts' ⊆ ts ∧ r.LeadsTo below ts' (.read o next) := by
  induction h with
  | refl r => cases hmem
  | @read o' next a ts r' _ ih =>
      rcases List.mem_cons.1 hmem with he | hmem
      · cases he
        exact ⟨[], next, List.nil_subset _, .refl _⟩
      · obtain ⟨ts', next', hsub, hread⟩ := ih hmem
        exact ⟨(o', a) :: ts', next', List.cons_subset_cons _ hsub, .read hread⟩
  | definedBelow _ ih =>
      obtain ⟨ts', next', hsub, hread⟩ := ih hmem
      exact ⟨ts', next', hsub, .definedBelow hread⟩

theorem eq_of_done {result : α} (h : (Reading.done result).LeadsTo below ts r) :
    ts = [] ∧ r = .done result := by
  cases h with
  | refl => exact ⟨rfl, rfl⟩

/-- Whoever passes on failures asks again only after successes. -/
theorem eq_ok_of_mem {β : Type} {r : Reading (Except LayerFailure β)} {o : Origin}
    {next : Except LayerFailure Component → Reading (Except LayerFailure β)}
    (h : r.LeadsTo below ts (.read o next)) (hr : r.PassesErrors) :
    ∀ t ∈ ts, ∃ v, t.2 = .ok v := by
  generalize hend : Reading.read o next = r' at h
  induction h with
  | refl r => simp
  | @read o' next' a ts r' h ih =>
      cases a with
      | ok v => exact List.forall_mem_cons.2 ⟨⟨v, rfl⟩, ih (hr.2 v) hend⟩
      | error failure =>
          rw [hr.1 failure] at h
          cases hend.trans h.eq_of_done.2
  | definedBelow _ ih => exact ih (hr _) hend

end LeadsTo

end Reading

namespace Contribution

/-- Every failure that the function of a contribution ends with was the answer to a
read or is in `P`. -/
def RaisesOnly (P : LayerFailure → Prop) : Contribution → Prop
  | .constant _ => True
  | .compute body => ∀ i, (body i).RaisesOnly P
  | .derive _ (.replace f) => ∀ old failure, f old = .error failure → P failure
  | .derive _ (.merge _) => True

/-- A function that takes every component as it is raises nothing. -/
theorem raisesOnly_derive_ok (P : LayerFailure → Prop) (o : Origin) :
    (derive o (.replace .ok)).RaisesOnly P := by
  intro old failure h
  cases h

/-- A derived contribution reads its origin and ends: with the failure of the read,
or with what the transform makes of the component that was read. -/
theorem derive_leadsTo_done_iff {o : Origin} {t : Transform} {i : Nat} {below : String → Bool}
    {ts : Transcript} {result : Except LayerFailure Component} :
    ((derive o t).toReading i).LeadsTo below ts (.done result) ↔
      (∃ failure, ts = [(o, .error failure)] ∧ result = .error failure) ∨
        ∃ old, ts = [(o, .ok old)] ∧ result = t.apply old := by
  constructor
  · intro h
    cases h with
    | @read _ _ a ts _ h =>
        cases a with
        | error failure =>
            obtain ⟨rfl, hr⟩ := h.eq_of_done
            exact .inl ⟨failure, rfl, Reading.done.inj hr⟩
        | ok old =>
            obtain ⟨rfl, hr⟩ := h.eq_of_done
            exact .inr ⟨old, rfl, Reading.done.inj hr⟩
  · rintro (⟨failure, rfl, rfl⟩ | ⟨old, rfl, rfl⟩)
    · exact .read (.refl _)
    · exact .read (.refl _)

theorem merge_apply_eq_error_iff {patch : Patch} {old : Component} {failure : LayerFailure} :
    (Transform.merge patch).apply old = .error failure ↔
      ∃ field, patch.apply old = .error field ∧ failure = .ambiguous field := by
  rw [Transform.apply]
  cases patch.apply old with
  | error field =>
      constructor
      · intro h
        exact ⟨field, rfl, (Except.error.inj h).symm⟩
      · rintro ⟨field', hfield, rfl⟩
        rw [← Except.error.inj hfield]
        rfl
  | ok v =>
      constructor
      · intro h
        cases h
      · rintro ⟨field, hfield, -⟩
        cases hfield

/-- What a contribution fails with was the answer to a read, was raised by its
function, or is the fault of a patch. -/
theorem RaisesOnly.cases {P : LayerFailure → Prop} {k : Contribution} (hk : k.RaisesOnly P)
    {i : Nat} {below : String → Bool} {ts : Transcript} {failure : LayerFailure}
    (h : (k.toReading i).LeadsTo below ts (.done (.error failure))) :
    (∃ o, (o, .error failure) ∈ ts) ∨ P failure ∨
      ∃ o patch old field, k = .derive o (.merge patch) ∧
        patch.apply old = .error field ∧ failure = .ambiguous field := by
  cases k with
  | constant component => cases h.eq_of_done.2
  | compute body =>
      rcases hk i below ts failure h with hread | hown
      · exact .inl hread
      · exact .inr (.inl hown)
  | derive o t =>
      rcases derive_leadsTo_done_iff.1 h with ⟨failure', rfl, hf⟩ | ⟨old, rfl, hresult⟩
      · obtain rfl := Except.error.inj hf
        exact .inl ⟨o, List.mem_singleton.2 rfl⟩
      · cases t with
        | replace f => exact .inr (.inl (hk old failure hresult.symm))
        | merge patch =>
            obtain ⟨field, hpatch, hf⟩ := merge_apply_eq_error_iff.1 hresult.symm
            exact .inr (.inr ⟨o, patch, old, field, rfl, hpatch, hf⟩)

end Contribution

namespace Layer

/-- Every failure that a function of a layer ends with was the answer to a read or
is in `P`. -/
def RaisesOnly (P : LayerFailure → Prop) (l : Layer) : Prop :=
  ∀ name k, l.overlay.get? name = some k → k.RaisesOnly P

theorem raisesOnly_iff_forall_mem {P : LayerFailure → Prop} {l : Layer} :
    l.RaisesOnly P ↔ ∀ e ∈ l.overlay.toList, e.2.RaisesOnly P :=
  Table.forall_get?_iff

end Layer

end LayeredCatalog
