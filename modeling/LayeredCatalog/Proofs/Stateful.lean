import Mathlib.Tactic.Common

/-!
# Answers that do not depend on the state

A stateful computation settles on an answer if it gives that answer from every
state with a property and keeps the property. `Computes P f Q` adds what the
answer is: a success with `v` exactly if `Q v`. Both are closed under sequencing,
so the body of a recursive function is taken apart along its own structure, and
under looking a result up in the state first (`Computes.of_kept`). Two computations
`Coincide` on the states with a property if they do the same there and keep it.
-/

namespace LayeredCatalog

/-- From every state with `P`, the computation gives the answer `a` and ends in a
state with `P`. -/
def Settles {σ α : Type*} (P : σ → Prop) (f : σ → α × σ) (a : α) : Prop :=
  ∀ s, P s → (f s).1 = a ∧ P (f s).2

theorem Settles.bind {σ α β : Type*} {P : σ → Prop} {f : σ → α × σ} {g : α → σ → β × σ}
    {a : α} {b : β} (hf : Settles P f a) (hg : Settles P (g a) b) :
    Settles P (fun s => g (f s).1 (f s).2) b := by
  intro s hs
  obtain ⟨ha, hs'⟩ := hf s hs
  show (g (f s).1 (f s).2).1 = b ∧ P (g (f s).1 (f s).2).2
  rw [ha]
  exact hg _ hs'

theorem Settles.before {σ α : Type*} {P : σ → Prop} {f : σ → α × σ} {step : σ → σ} {a : α}
    (hstep : ∀ s, P s → P (step s)) (hf : Settles P f a) :
    Settles P (fun s => f (step s)) a :=
  fun s hs => hf _ (hstep s hs)

theorem Settles.map {σ α β : Type*} {P : σ → Prop} {f : σ → α × σ} {a : α} (g : α → β)
    (hf : Settles P f a) : Settles P (fun s => (g (f s).1, (f s).2)) (g a) := by
  intro s hs
  obtain ⟨ha, hs'⟩ := hf s hs
  exact ⟨congrArg g ha, hs'⟩

/-- From every state with `P`, the computations `f` and `g` do the same, and end in a
state with `P`. -/
def Coincide {σ α : Type*} (P : σ → Prop) (f g : σ → α × σ) : Prop :=
  ∀ s, P s → f s = g s ∧ P (g s).2

/-- From every state with `P`, the computation gives one and the same answer, which
is a success with `v` exactly if `Q v`, and ends in a state with `P`. -/
def Computes {σ ε α : Type*} (P : σ → Prop) (f : σ → Except ε α × σ) (Q : α → Prop) : Prop :=
  ∃ a, Settles P f a ∧ ∀ v, a = .ok v ↔ Q v

namespace Computes

theorem congr {σ ε α : Type*} {P : σ → Prop} {f : σ → Except ε α × σ} {Q R : α → Prop}
    (hf : Computes P f Q) (h : ∀ v, Q v ↔ R v) : Computes P f R := by
  obtain ⟨a, ha, hQ⟩ := hf
  exact ⟨a, ha, fun v => (hQ v).trans (h v)⟩

theorem eq_ok_iff {σ ε α : Type*} {P : σ → Prop} {f : σ → Except ε α × σ} {Q : α → Prop} {s : σ}
    (hf : Computes P f Q) (hs : P s) (v : α) : (f s).1 = .ok v ↔ Q v := by
  obtain ⟨a, ha, hQ⟩ := hf
  rw [(ha s hs).1]
  exact hQ v

theorem coincide {σ ε α : Type*} {P : σ → Prop} {f g : σ → Except ε α × σ} {Q : α → Prop}
    (hg : Computes P g Q) (h : ∀ s, P s → f s = g s) : Coincide P f g := by
  obtain ⟨a, ha, -⟩ := hg
  exact fun s hs => ⟨h s hs, (ha s hs).2⟩

theorem const {σ ε α : Type*} {P : σ → Prop} (a : Except ε α) :
    Computes P (fun s => (a, s)) fun v => a = .ok v :=
  ⟨a, fun _ hs => ⟨rfl, hs⟩, fun _ => Iff.rfl⟩

theorem ok {σ ε α : Type*} {P : σ → Prop} (v : α) :
    Computes P (fun s => ((.ok v : Except ε α), s)) fun w => w = v := by
  refine (const (.ok v)).congr ?_
  intro w
  rw [Except.ok.injEq]
  exact eq_comm

theorem error {σ ε α : Type*} {P : σ → Prop} {Q : α → Prop} (e : ε) (h : ∀ v, ¬ Q v) :
    Computes P (fun s => (.error e, s)) Q := by
  refine (const (.error e)).congr ?_
  intro v
  simp [h v]

/-- What follows a failure fails as well; what follows a success with `v` computes
`R v`. -/
theorem bind {σ ε ε' α β : Type*} {P : σ → Prop} {f : σ → Except ε α × σ}
    {g : Except ε α → σ → Except ε' β × σ} {Q : α → Prop} {R : α → β → Prop}
    (hf : Computes P f Q) (herror : ∀ e, Computes P (g (.error e)) fun _ => False)
    (hok : ∀ v, Q v → Computes P (g (.ok v)) (R v)) :
    Computes P (fun s => g (f s).1 (f s).2) fun w => ∃ v, Q v ∧ R v w := by
  obtain ⟨a, ha, hQ⟩ := hf
  cases a with
  | error e =>
      obtain ⟨b, hb, hfalse⟩ := herror e
      refine ⟨b, ha.bind hb, ?_⟩
      intro w
      rw [hfalse]
      simp [← hQ]
  | ok v =>
      obtain ⟨b, hb, hR⟩ := hok v ((hQ v).1 rfl)
      refine ⟨b, ha.bind hb, ?_⟩
      intro w
      rw [hR]
      simp [← hQ]

/-- The rule for a computation that takes the answer of `f` apart. -/
theorem andThen {σ ε ε' α β : Type*} {P : σ → Prop} {f : σ → Except ε α × σ}
    {g : σ → Except ε' β × σ} {e : ε → σ → Except ε' β × σ} {k : α → σ → Except ε' β × σ}
    {Q : α → Prop} {R : α → β → Prop} (hf : Computes P f Q)
    (he : ∀ failure s s', f s = (.error failure, s') → g s = e failure s')
    (hk : ∀ v s s', f s = (.ok v, s') → g s = k v s')
    (herror : ∀ failure, Computes P (e failure) fun _ => False)
    (hok : ∀ v, Q v → Computes P (k v) (R v)) :
    Computes P g fun w => ∃ v, Q v ∧ R v w := by
  have hg : g = fun s => (fun a s => match a with
      | .error failure => e failure s
      | .ok v => k v s) (f s).1 (f s).2 := by
    funext s
    cases hs : f s with
    | mk a s' =>
        cases a with
        | error failure => exact he failure s s' hs
        | ok v => exact hk v s s' hs
  rw [hg]
  exact hf.bind (g := fun a s => match a with
    | .error failure => e failure s
    | .ok v => k v s) herror hok

theorem map {σ ε α β : Type*} {P : σ → Prop} {f : σ → Except ε α × σ} {Q : α → Prop}
    (h : α → β) (hf : Computes P f Q) :
    Computes P (fun s => ((f s).1.map h, (f s).2)) fun w => ∃ v, Q v ∧ w = h v := by
  refine hf.bind (g := fun a s => (a.map h, s)) ?_ ?_
  · intro e
    exact Computes.error e fun _ => id
  · intro v _
    exact Computes.ok (h v)

theorem mapError {σ ε ε' α : Type*} {P : σ → Prop} {f : σ → Except ε α × σ} {Q : α → Prop}
    (h : ε → ε') (hf : Computes P f Q) :
    Computes P (fun s => ((f s).1.mapError h, (f s).2)) Q := by
  obtain ⟨a, ha, hQ⟩ := hf
  refine ⟨a.mapError h, ha.map (Except.mapError h), ?_⟩
  intro v
  rw [← hQ]
  cases a with
  | error e => simp [Except.mapError]
  | ok w => simp [Except.mapError]

theorem before {σ ε α : Type*} {P : σ → Prop} {f : σ → Except ε α × σ} {Q : α → Prop}
    {step : σ → σ} (hstep : ∀ s, P s → P (step s)) (hf : Computes P f Q) :
    Computes P (fun s => f (step s)) Q := by
  obtain ⟨a, ha, hQ⟩ := hf
  exact ⟨a, ha.before hstep, hQ⟩

/-- A computation may look its result up in the state as long as only right results
are found there: the state is then never seen from outside. -/
theorem of_kept {σ ε α : Type*} {P : σ → Prop} {f g : σ → Except ε α × σ} {Q : α → Prop}
    {kept : σ → Option α} (hhit : ∀ s v, kept s = some v → g s = (.ok v, s))
    (hmiss : ∀ s, kept s = none → g s = f s) (hkept : ∀ s v, P s → kept s = some v → Q v)
    (hf : Computes P f Q) : Computes P g Q := by
  obtain ⟨a, ha, hQ⟩ := hf
  refine ⟨a, ?_, hQ⟩
  intro s hs
  cases h : kept s with
  | none =>
      rw [hmiss s h]
      exact ha s hs
  | some v =>
      rw [hhit s v h]
      exact ⟨((hQ v).2 (hkept s v hs h)).symm, hs⟩

end Computes

end LayeredCatalog
