import LayeredCatalog.Proofs.Composition.Slots
import LayeredCatalog.Proofs.Cycle
import LayeredCatalog.Proofs.Reading

/-!
# The values of a composition

`HasValue c name s v` says that the definition of `name` in the slot `s` has the
value `v`, and `Returns c i r v` that a computation of the layer `i` returns `v`.
Both are the least relations closed under the rules that say what a definition
means. There is no order of evaluation, no memo and no stack in them, so a
definition that needs itself has no value.

A definition has one value at most (`HasValue.unique`). `Needs c` relates a
definition to those it reads on the way to its value; below a definition with a
value this relation is well-founded (`HasValue.acc`), so such a definition never
needs itself (`HasValue.not_needs_self`).
-/

namespace LayeredCatalog

namespace Composition

mutual

/-- The definition of a name in a slot has a value. Whatever name a layer gives to
its component, the value bears the name that is defined. -/
inductive HasValue (c : Composition) : String → Slot → Component → Prop where
  | base {name : String} {v : Component} :
      c.base.get? name = some v → HasValue c name .base v
  | constant {name : String} {i : Nat} {l : Layer} {v : Component} :
      c.contribution? i name = some (l, .constant v) →
      HasValue c name (.layer i) { v with name }
  | derive {name : String} {i : Nat} {l : Layer} {o : Origin} {t : Transform} {s : Slot}
      {old v : Component} :
      c.contribution? i name = some (l, .derive o t) →
      c.Shows i o s → HasValue c o.name s old → t.apply old = .ok v →
      HasValue c name (.layer i) { v with name }
  | compute {name : String} {i : Nat} {l : Layer}
      {body : Nat → Reading (Except LayerFailure Component)} {v : Component} :
      c.contribution? i name = some (l, .compute body) →
      Returns c i (body i) v →
      HasValue c name (.layer i) { v with name }

/-- A computation of a layer returns a component, each of its reads being answered
by the value of the slot that the view shows. -/
inductive Returns (c : Composition) :
    Nat → Reading (Except LayerFailure Component) → Component → Prop where
  | done {i : Nat} {v : Component} : Returns c i (.done (.ok v)) v
  | read {i : Nat} {o : Origin}
      {next : Except LayerFailure Component → Reading (Except LayerFailure Component)}
      {s : Slot} {old v : Component} :
      c.Shows i o s → HasValue c o.name s old → Returns c i (next (.ok old)) v →
      Returns c i (.read o next) v
  | definedBelow {i : Nat} {name : String}
      {next : Bool → Reading (Except LayerFailure Component)} {b : Bool} {v : Component} :
      (b = true ↔ ∃ s, c.Defines name s ∧ s.isBelow i) → Returns c i (next b) v →
      Returns c i (.definedBelow name next) v

end

/-- The value of a name in the final view. -/
def HasFinal (c : Composition) (name : String) (v : Component) : Prop :=
  ∃ s, c.IsLast name s ∧ c.HasValue name s v

theorem returns_done_iff {c : Composition} {i : Nat} {result : Except LayerFailure Component}
    {v : Component} : c.Returns i (.done result) v ↔ result = .ok v := by
  constructor
  · intro h
    cases h
    rfl
  · rintro rfl
    exact .done

theorem returns_read_iff {c : Composition} {i : Nat} {o : Origin}
    {next : Except LayerFailure Component → Reading (Except LayerFailure Component)}
    {v : Component} :
    c.Returns i (.read o next) v ↔
      ∃ s old, c.Shows i o s ∧ c.HasValue o.name s old ∧ c.Returns i (next (.ok old)) v := by
  constructor
  · intro h
    cases h with
    | read hs hold hr => exact ⟨_, _, hs, hold, hr⟩
  · rintro ⟨s, old, hs, hold, hr⟩
    exact .read hs hold hr

theorem returns_definedBelow_iff {c : Composition} {i : Nat} {name : String}
    {next : Bool → Reading (Except LayerFailure Component)} {v : Component} :
    c.Returns i (.definedBelow name next) v ↔
      c.Returns i (next (c.slotBelow? i name).isSome) v := by
  constructor
  · intro h
    cases h with
    | definedBelow hb hr =>
        rw [← slotBelow?_isSome_iff, ← Bool.eq_iff_iff] at hb
        exact hb ▸ hr
  · exact .definedBelow slotBelow?_isSome_iff

theorem returns_derive_iff {c : Composition} {i : Nat} {o : Origin} {t : Transform}
    {v : Component} :
    c.Returns i ((Contribution.derive o t).toReading i) v ↔
      ∃ s old, c.Shows i o s ∧ c.HasValue o.name s old ∧ t.apply old = .ok v := by
  rw [Contribution.toReading, Reading.andThen, Reading.bind, returns_read_iff]
  simp only [Reading.bind, returns_done_iff]

/-- All three kinds of contribution have their value by one rule. -/
theorem hasValue_layer_iff {c : Composition} {name : String} {i : Nat} {v : Component} :
    c.HasValue name (.layer i) v ↔
      ∃ l k w, c.contribution? i name = some (l, k) ∧
        c.Returns i (k.toReading i) w ∧ v = { w with name } := by
  constructor
  · intro h
    cases h with
    | constant hk => exact ⟨_, _, _, hk, .done, rfl⟩
    | derive hk hs hold ht =>
        exact ⟨_, _, _, hk, returns_derive_iff.2 ⟨_, _, hs, hold, ht⟩, rfl⟩
    | compute hk hr => exact ⟨_, _, _, hk, hr, rfl⟩
  · rintro ⟨l, k, w, hk, hr, rfl⟩
    cases k with
    | constant component =>
        obtain rfl := Except.ok.inj (returns_done_iff.1 hr)
        exact .constant hk
    | compute body => exact .compute hk hr
    | derive o t =>
        obtain ⟨s, old, hs, hold, ht⟩ := returns_derive_iff.1 hr
        exact .derive hk hs hold ht

theorem hasValue_base_iff {c : Composition} {name : String} {v : Component} :
    c.HasValue name .base v ↔ c.base.get? name = some v := by
  constructor
  · intro h
    cases h with
    | base hv => exact hv
  · exact .base

theorem HasValue.defines {c : Composition} {name : String} {s : Slot} {v : Component}
    (h : c.HasValue name s v) : c.Defines name s := by
  cases s with
  | base => exact Option.isSome_of_eq_some (hasValue_base_iff.1 h)
  | layer i =>
      obtain ⟨l, k, -, hk, -⟩ := hasValue_layer_iff.1 h
      exact defines_layer_iff.2 ⟨l, k, hk⟩

theorem Shows.unique {c : Composition} {i : Nat} {o : Origin} {s s' : Slot}
    (h : c.Shows i o s) (h' : c.Shows i o s') : s = s' := by
  rw [← slotIn?_eq_some_iff] at h h'
  exact Option.some.inj (h.symm.trans h')

theorem IsLast.unique {c : Composition} {name : String} {s s' : Slot}
    (h : c.IsLast name s) (h' : c.IsLast name s') : s = s' := by
  rw [← lastSlot?_eq_some_iff] at h h'
  exact Option.some.inj (h.symm.trans h')

mutual

/-- A definition has one value at most. -/
theorem HasValue.unique {c : Composition} {name : String} {s : Slot} {v v' : Component} :
    c.HasValue name s v → c.HasValue name s v' → v = v'
  | .base hv, h' => Option.some.inj (hv.symm.trans (hasValue_base_iff.1 h'))
  | .constant hk, h' => by
      obtain ⟨l, k, w, hk', hr, rfl⟩ := hasValue_layer_iff.1 h'
      obtain ⟨rfl, rfl⟩ := Prod.mk.inj (Option.some.inj (hk.symm.trans hk'))
      obtain rfl := Except.ok.inj (returns_done_iff.1 hr)
      rfl
  | .derive hk hs hold ht, h' => by
      obtain ⟨l, k, w, hk', hr, rfl⟩ := hasValue_layer_iff.1 h'
      obtain ⟨rfl, rfl⟩ := Prod.mk.inj (Option.some.inj (hk.symm.trans hk'))
      obtain ⟨s', old', hs', hold', ht'⟩ := returns_derive_iff.1 hr
      rw [← hs.unique hs'] at hold'
      rw [← hold.unique hold', ht] at ht'
      rw [Except.ok.inj ht']
  | .compute hk hr, h' => by
      obtain ⟨l, k, w, hk', hr', rfl⟩ := hasValue_layer_iff.1 h'
      obtain ⟨rfl, rfl⟩ := Prod.mk.inj (Option.some.inj (hk.symm.trans hk'))
      rw [hr.unique hr']

theorem Returns.unique {c : Composition} {i : Nat}
    {r : Reading (Except LayerFailure Component)} {v v' : Component} :
    c.Returns i r v → c.Returns i r v' → v = v'
  | .done, h' => Except.ok.inj (returns_done_iff.1 h')
  | .read hs hold hr, h' => by
      obtain ⟨s', old', hs', hold', hr'⟩ := returns_read_iff.1 h'
      rw [← hs.unique hs'] at hold'
      rw [← hold.unique hold'] at hr'
      exact hr.unique hr'
  | .definedBelow hb hr, h' => by
      have hr' := returns_definedBelow_iff.1 h'
      rw [← slotBelow?_isSome_iff, ← Bool.eq_iff_iff] at hb
      rw [← hb] at hr'
      exact hr.unique hr'

end

theorem HasFinal.unique {c : Composition} {name : String} {v v' : Component}
    (h : c.HasFinal name v) (h' : c.HasFinal name v') : v = v' := by
  obtain ⟨s, hs, hv⟩ := h
  obtain ⟨s', hs', hv'⟩ := h'
  obtain rfl := hs.unique hs'
  exact hv.unique hv'

/-- What a computation of a layer reads while its earlier reads are answered by
values. -/
def Asks (c : Composition) (i : Nat) :
    Reading (Except LayerFailure Component) → Origin → Prop
  | .done _, _ => False
  | .read o next, o' => o' = o ∨
      ∃ s old, c.Shows i o s ∧ c.HasValue o.name s old ∧ c.Asks i (next (.ok old)) o'
  | .definedBelow name next, o' => c.Asks i (next (c.slotBelow? i name).isSome) o'

/-- The definition `a`, a name in a slot, reads the definition `b`. -/
def Needs (c : Composition) (a b : String × Slot) : Prop :=
  ∃ i l k o, a.2 = .layer i ∧ c.contribution? i a.1 = some (l, k) ∧
    c.Asks i (k.toReading i) o ∧ b.1 = o.name ∧ c.Shows i o b.2

theorem acc_of_asks {c : Composition} {name : String} {i : Nat} {l : Layer} {k : Contribution}
    (hk : c.contribution? i name = some (l, k))
    (h : ∀ o s, c.Asks i (k.toReading i) o → c.Shows i o s →
      Acc (fun b a => c.Needs a b) (o.name, s)) :
    Acc (fun b a => c.Needs a b) (name, .layer i) := by
  refine Acc.intro _ ?_
  rintro ⟨name', s⟩ ⟨i', l', k', o, hi, hk', hask, rfl, hs⟩
  cases hi
  obtain ⟨rfl, rfl⟩ := Prod.mk.inj (Option.some.inj (hk.symm.trans hk'))
  exact h o s hask hs

mutual

/-- What a definition with a value needs, directly or not, is well-founded. The
proof follows the derivation of the value. -/
theorem HasValue.acc {c : Composition} {name : String} {s : Slot} {v : Component} :
    c.HasValue name s v → Acc (fun b a => c.Needs a b) (name, s)
  | .base _ => by
      refine Acc.intro _ ?_
      rintro b ⟨i, l, k, o, hi, -⟩
      cases hi
  | .constant hk => acc_of_asks hk fun _ _ hask _ => hask.elim
  | .derive hk hs hold _ => by
      refine acc_of_asks hk ?_
      rintro o' s' (ho | ⟨_, _, _, _, hask⟩) hs'
      · rw [ho] at hs' ⊢
        rw [← hs.unique hs']
        exact hold.acc
      · exact hask.elim
  | .compute hk hr => acc_of_asks hk fun _ _ hask hs' => hr.acc hask hs'

theorem Returns.acc {c : Composition} {i : Nat}
    {r : Reading (Except LayerFailure Component)} {v : Component} {o : Origin} {s : Slot} :
    c.Returns i r v → c.Asks i r o → c.Shows i o s →
      Acc (fun b a => c.Needs a b) (o.name, s)
  | .done, hask, _ => hask.elim
  | .read hs hold hr, hask, hs' => by
      rcases hask with ho | ⟨s'', old', hs'', hold', hask⟩
      · rw [ho] at hs' ⊢
        rw [← hs.unique hs']
        exact hold.acc
      · rw [← hs.unique hs''] at hold'
        rw [← hold.unique hold'] at hask
        exact hr.acc hask hs'
  | .definedBelow hb hr, hask, hs' => by
      rw [← slotBelow?_isSome_iff, ← Bool.eq_iff_iff] at hb
      rw [Asks, ← hb] at hask
      exact hr.acc hask hs'

end

/-- A definition with a value does not need itself. -/
theorem HasValue.not_needs_self {c : Composition} {name : String} {s : Slot} {v : Component}
    (h : c.HasValue name s v) : ¬ Relation.TransGen c.Needs (name, s) (name, s) := by
  intro hcycle
  exact not_transGen_self_of_acc h.acc (Relation.transGen_swap.2 hcycle)

end Composition

end LayeredCatalog
