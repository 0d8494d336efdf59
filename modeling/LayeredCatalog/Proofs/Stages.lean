import Mathlib.Data.List.Forall2
import Mathlib.Data.List.Induction

/-!
# Computations in stages

A computation that can fail gives a result exactly if each of its stages does. For a
list of checks this says that all of them pass, for a fold that every step succeeds;
the state of a fold is then what the steps so far have made of it
(`foldlM_eq_ok_iff`). A failure is the failure of one of the stages.
-/

namespace LayeredCatalog

universe u v

variable {ε : Type v} {α β : Type u}

theorem bind_eq_ok_iff {x : Except ε α} {f : α → Except ε β} {b : β} :
    (x >>= f) = .ok b ↔ ∃ a, x = .ok a ∧ f a = .ok b := by
  constructor
  · intro h
    cases x with
    | error e => cases h
    | ok a => exact ⟨a, rfl, h⟩
  · rintro ⟨a, rfl, h⟩
    exact h

theorem bind_eq_error_iff {x : Except ε α} {f : α → Except ε β} {e : ε} :
    (x >>= f) = .error e ↔ x = .error e ∨ ∃ a, x = .ok a ∧ f a = .error e := by
  cases x with
  | error e' =>
      constructor
      · intro h
        cases h
        exact .inl rfl
      · rintro (h | ⟨a, ha, -⟩)
        · cases h
          rfl
        · cases ha
  | ok a =>
      constructor
      · exact fun h => .inr ⟨a, rfl, h⟩
      · rintro (h | ⟨b, hb, h⟩)
        · cases h
        · cases hb
          exact h

theorem bind_congr_of_ok {x : Except ε α} {f g : α → Except ε β}
    (h : ∀ a, x = .ok a → f a = g a) : x >>= f = x >>= g := by
  cases x with
  | error e => rfl
  | ok a => exact h a rfl

theorem exists_eq_ok_of_isOk {x : Except ε α} (h : x.isOk) : ∃ a, x = .ok a := by
  cases x with
  | error e => cases h
  | ok a => exact ⟨a, rfl⟩

theorem pure_eq_ok_iff {a b : α} : (pure a : Except ε α) = .ok b ↔ a = b := by
  constructor
  · intro h
    cases h
    rfl
  · rintro rfl
    rfl

theorem mapError_eq_ok_iff {ε' : Type*} {x : Except ε α} {f : ε → ε'} {a : α} :
    x.mapError f = .ok a ↔ x = .ok a := by
  cases x with
  | error e => simp [Except.mapError]
  | ok b => simp [Except.mapError]

theorem mapError_eq_error_iff {ε' : Type*} {x : Except ε α} {f : ε → ε'} {e' : ε'} :
    x.mapError f = .error e' ↔ ∃ e, x = .error e ∧ f e = e' := by
  cases x with
  | error e => simp [Except.mapError]
  | ok a => simp [Except.mapError]

theorem map_eq_error_iff {x : Except ε α} {f : α → β} {e : ε} :
    x.map f = .error e ↔ x = .error e := by
  cases x with
  | error e' => simp [Except.map]
  | ok a => simp [Except.map]

theorem map_eq_ok_iff {x : Except ε α} {f : α → β} {b : β} :
    x.map f = .ok b ↔ ∃ a, x = .ok a ∧ f a = b := by
  cases x with
  | error e => simp [Except.map]
  | ok a => simp [Except.map]

theorem toOption_eq_some_iff {x : Except ε α} {a : α} : x.toOption = some a ↔ x = .ok a := by
  cases x with
  | error e => simp [Except.toOption]
  | ok b => simp [Except.toOption]

theorem forM_eq_ok_iff {f : α → Except ε PUnit} {l : List α} {u : PUnit} :
    l.forM f = .ok u ↔ ∀ a ∈ l, f a = .ok u := by
  induction l with
  | nil => simp [pure, Except.pure]
  | cons a l ih =>
      rw [List.forM_eq_forM] at ih ⊢
      rw [List.forM_cons, bind_eq_ok_iff, List.forall_mem_cons, ← ih]
      constructor
      · rintro ⟨⟨⟩, ha, hl⟩
        exact ⟨ha, hl⟩
      · rintro ⟨ha, hl⟩
        exact ⟨⟨⟩, ha, hl⟩

/-- A list of computations fails as the first of them that fails. -/
theorem mapM_eq_error_iff {f : α → Except ε β} {l : List α} {e : ε} :
    l.mapM f = .error e ↔ ∃ before a rest, l = before ++ a :: rest ∧
      (∀ b ∈ before, ∃ v, f b = .ok v) ∧ f a = .error e := by
  induction l with
  | nil => simp [pure, Except.pure]
  | cons a l ih =>
      rw [List.mapM_cons, bind_eq_error_iff]
      constructor
      · rintro (ha | ⟨v, hv, hrest⟩)
        · exact ⟨[], a, l, rfl, by simp, ha⟩
        · have hl : l.mapM f = .error e := by
            rcases bind_eq_error_iff.1 hrest with hl | ⟨vs, -, hpure⟩
            · exact hl
            · cases hpure
          obtain ⟨before, b, rest, rfl, hbefore, hb⟩ := ih.1 hl
          exact ⟨a :: before, b, rest, rfl, List.forall_mem_cons.2 ⟨⟨v, hv⟩, hbefore⟩, hb⟩
      · rintro ⟨before, b, rest, hsplit, hbefore, hb⟩
        cases before with
        | nil =>
            obtain ⟨rfl, -⟩ := List.cons.inj hsplit
            exact .inl hb
        | cons a' before =>
            obtain ⟨rfl, rfl⟩ := List.cons.inj hsplit
            obtain ⟨⟨v, hv⟩, hbefore⟩ := List.forall_mem_cons.1 hbefore
            have hl := ih.2 ⟨before, b, rest, rfl, hbefore, hb⟩
            exact .inr ⟨v, hv, bind_eq_error_iff.2 (.inl hl)⟩

/-- A failure of a list of checks is the failure of one of them. -/
theorem forM_eq_error {f : α → Except ε PUnit} {l : List α} {e : ε} (h : l.forM f = .error e) :
    ∃ a ∈ l, f a = .error e := by
  induction l with
  | nil => cases h
  | cons a l ih =>
      rw [List.forM_eq_forM] at h ih
      rw [List.forM_cons, bind_eq_error_iff] at h
      rcases h with h | ⟨-, -, h⟩
      · exact ⟨a, List.mem_cons_self, h⟩
      · obtain ⟨b, hb, h⟩ := ih h
        exact ⟨b, List.mem_cons_of_mem a hb, h⟩

/-- A failure of a fold is the failure of one of its steps, the ones before having
succeeded. -/
theorem foldlM_eq_error {f : β → α → Except ε β} {as : List α} {b : β} {e : ε}
    (h : as.foldlM f b = .error e) :
    ∃ before a rest b', as = before ++ a :: rest ∧ before.foldlM f b = .ok b' ∧
      f b' a = .error e := by
  induction as generalizing b with
  | nil => cases h
  | cons a as ih =>
      rw [List.foldlM_cons, bind_eq_error_iff] at h
      rcases h with h | ⟨b', hb', h⟩
      · exact ⟨[], a, as, b, rfl, rfl, h⟩
      · obtain ⟨before, a', rest, b'', rfl, hbefore, h⟩ := ih h
        exact ⟨a :: before, a', rest, b'', rfl, bind_eq_ok_iff.2 ⟨b', hb', hbefore⟩, h⟩

/-- If `g` takes each step of a fold to a step of another one, it takes the fold to the
other fold. -/
theorem foldlM_map_state {β' : Type u} {f : β → α → Except ε β} {f' : β' → α → Except ε β'}
    (g : β → β') {as : List α} (h : ∀ a ∈ as, ∀ b, f' (g b) a = g <$> f b a) (b : β) :
    as.foldlM f' (g b) = g <$> as.foldlM f b := by
  induction as generalizing b with
  | nil => rfl
  | cons a as ih =>
      obtain ⟨ha, has⟩ := List.forall_mem_cons.1 h
      rw [List.foldlM_cons, List.foldlM_cons, ha, bind_map_left, map_bind]
      exact bind_congr fun b' => ih has b'

/-- The state of a fold is known after each list of steps that keeps to `P`, and the
next step succeeds exactly if the list still does with it. -/
theorem foldlM_eq_ok_iff {f : β → α → Except ε β} (P : List α → Prop) (state : List α → β)
    (hP : ∀ l a, P (l ++ [a]) → P l)
    (hf : ∀ l a b, P l → (f (state l) a = .ok b ↔ P (l ++ [a]) ∧ b = state (l ++ [a])))
    {l : List α} (hl : P l) {as : List α} {b : β} :
    as.foldlM f (state l) = .ok b ↔ P (l ++ as) ∧ b = state (l ++ as) := by
  -- A fold that fails early cannot recover, so `P` has to hold of every initial part.
  have hinit : ∀ as l, P (l ++ as) → P l := by
    intro as
    induction as using List.reverseRecOn with
    | nil => simp
    | append_singleton as a ih =>
        intro l h
        rw [← List.append_assoc] at h
        exact ih l (hP _ a h)
  induction as generalizing l with
  | nil =>
      rw [List.foldlM_nil, List.append_nil, pure_eq_ok_iff, eq_comm]
      simp [hl]
  | cons a as ih =>
      rw [List.foldlM_cons, bind_eq_ok_iff, ← List.singleton_append, ← List.append_assoc]
      constructor
      · rintro ⟨b', hb', h⟩
        obtain ⟨hstep, rfl⟩ := (hf l a b' hl).1 hb'
        exact (ih hstep).1 h
      · intro h
        have hstep : P (l ++ [a]) := hinit as _ h.1
        exact ⟨_, (hf l a _ hl).2 ⟨hstep, rfl⟩, (ih hstep).2 h⟩

theorem exists_forall₂_iff {R : α → β → Prop} {l : List α} :
    (∃ l', List.Forall₂ R l l') ↔ ∀ a ∈ l, ∃ b, R a b := by
  induction l with
  | nil => simp
  | cons a l ih =>
      rw [List.forall_mem_cons, ← ih]
      constructor
      · rintro ⟨l', h⟩
        cases h with
        | cons hab h => exact ⟨⟨_, hab⟩, _, h⟩
      · rintro ⟨⟨b, hab⟩, l', h⟩
        exact ⟨b :: l', .cons hab h⟩

/-- Lists that are related item by item are the same to functions that are the same for related
items. -/
theorem map_eq_map_of_forall₂ {γ : Type*} {R : α → β → Prop} {f : α → γ} {g : β → γ} {l : List α}
    {l' : List β} (h : List.Forall₂ R l l') (hR : ∀ a b, R a b → f a = g b) :
    l.map f = l'.map g := by
  induction h with
  | nil => rfl
  | cons hab _ ih => rw [List.map_cons, List.map_cons, hR _ _ hab, ih]

theorem exists_mem_of_forall₂ {R : α → β → Prop} {l : List α} {l' : List β}
    (h : List.Forall₂ R l l') {a : α} (ha : a ∈ l) : ∃ b ∈ l', R a b := by
  induction h with
  | nil => cases ha
  | cons hab _ ih =>
      rcases List.mem_cons.1 ha with rfl | ha
      · exact ⟨_, List.mem_cons_self, hab⟩
      · obtain ⟨b, hb, h⟩ := ih ha
        exact ⟨b, List.mem_cons_of_mem _ hb, h⟩

end LayeredCatalog
