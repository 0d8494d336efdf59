import LayeredCatalog.Proofs.Layer

/-!
# Computations that pass on the failure of a read

A computed contribution is free to look at the failure of a read and to go on.
`Reading.PassesErrors` singles out the computations that do not: a failed read
ends them with the very failure. They are closed under `Reading.andThen`, the
sequencing that stops at the first failure, so a computation put together from
reads, results and failures in this way is one of them. The two kinds of
contribution without a computation read as such a computation as well
(`Contribution.toReading`), and layers read from documents have no other kinds
(`Layer.passesErrors_of_ofDocument`).
-/

namespace LayeredCatalog

namespace Reading

/-- Goes on with `f` after a success, and ends with the failure otherwise. -/
def andThen {α β : Type} (r : Reading (Except LayerFailure α))
    (f : α → Reading (Except LayerFailure β)) : Reading (Except LayerFailure β) :=
  r.bind fun
    | .error failure => .done (.error failure)
    | .ok a => f a

/-- Whether a computation ends with the failure of a read whenever a read fails. -/
def PassesErrors {α : Type} : Reading (Except LayerFailure α) → Prop
  | .done _ => True
  | .read _ next => (∀ failure, next (.error failure) = .done (.error failure)) ∧
      ∀ component, (next (.ok component)).PassesErrors
  | .definedBelow _ next => ∀ b, (next b).PassesErrors

theorem PassesErrors.andThen {α β : Type} {r : Reading (Except LayerFailure α)}
    {f : α → Reading (Except LayerFailure β)} (hr : r.PassesErrors)
    (hf : ∀ a, (f a).PassesErrors) : (r.andThen f).PassesErrors := by
  induction r with
  | done result =>
      cases result with
      | error failure => exact trivial
      | ok a => exact hf a
  | read o next ih =>
      refine ⟨?_, fun component => ih _ (hr.2 component)⟩
      intro failure
      show (next (.error failure)).andThen f = .done (.error failure)
      rw [hr.1 failure]
      rfl
  | definedBelow name next ih => exact fun b => ih b (hr b)

end Reading

namespace Contribution

/-- A contribution of the layer `i` as a computation. -/
def toReading (i : Nat) : Contribution → Reading (Except LayerFailure Component)
  | .constant component => .done (.ok component)
  | .compute body => body i
  | .derive origin transform =>
      (Reading.read origin .done).andThen fun old => .done (transform.apply old)

/-- Whether a contribution passes on the failure of whatever it reads. -/
def PassesErrors (k : Contribution) : Prop := ∀ i, (k.toReading i).PassesErrors

theorem passesErrors_constant (component : Component) :
    (constant component).PassesErrors := fun _ => trivial

theorem passesErrors_derive (o : Origin) (t : Transform) : (derive o t).PassesErrors :=
  fun _ => ⟨fun _ => rfl, fun _ => trivial⟩

/-- Whether what a contribution reads is known without running it. -/
def IsStatic : Contribution → Prop
  | .compute _ => False
  | _ => True

theorem IsStatic.passesErrors {k : Contribution} (h : k.IsStatic) : k.PassesErrors := by
  cases k with
  | constant component => exact passesErrors_constant component
  | compute body => exact h.elim
  | derive o t => exact passesErrors_derive o t

end Contribution

namespace Layer

/-- Whether all contributions of a layer pass on the failure of what they read. -/
def PassesErrors (l : Layer) : Prop :=
  ∀ name k, l.overlay.get? name = some k → k.PassesErrors

theorem passesErrors_iff_forall_mem {l : Layer} :
    l.PassesErrors ↔ ∀ e ∈ l.overlay.toList, e.2.PassesErrors :=
  Table.forall_get?_iff

/-- Whether all contributions of a layer are constant or derived. -/
def IsStatic (l : Layer) : Prop := ∀ name k, l.overlay.get? name = some k → k.IsStatic

theorem isStatic_iff_forall_mem {l : Layer} :
    l.IsStatic ↔ ∀ e ∈ l.overlay.toList, e.2.IsStatic :=
  Table.forall_get?_iff

theorem IsStatic.passesErrors {l : Layer} (h : l.IsStatic) : l.PassesErrors :=
  fun name k hk => (h name k hk).passesErrors

theorem isStatic_of_contribution {e : LayerEntry} {layer key : String} {k : Contribution}
    (h : e.contribution layer key = .ok k) : k.IsStatic := by
  rcases LayerEntry.contribution_eq_ok_iff.1 h with
    ⟨v, -, rfl⟩ | ⟨p, -, rfl⟩ | ⟨source, p, o, -, -, rfl⟩
  · trivial
  · trivial
  · trivial

/-- A layer that a document describes has no functions of its own, so it passes on the
failure of what it reads. -/
theorem passesErrors_of_ofDocument {d : LayerDocument} {fallback : String} {l : Layer}
    (h : ofDocument d fallback = .ok l) : l.PassesErrors := by
  refine IsStatic.passesErrors fun name k hk => ?_
  obtain ⟨-, e, -, he⟩ := exists_entry_of_ofDocument h hk
  exact isStatic_of_contribution he

end Layer

end LayeredCatalog
