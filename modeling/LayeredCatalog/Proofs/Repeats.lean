import LayeredCatalog.Proofs.Stages

/-!
# Repeated items of a list

`Repeats l l'` says that `l'` is `l` with one item mentioned again, somewhere behind an
earlier mention. A fold over the list does not see the repetition if each of its steps
leaves a mark that no later step takes away, and a step that finds its mark makes no
difference (`LeavesMarks`, `Repeats.foldlM_eq`). For a list of checks the mark is that the
check passes.
-/

namespace LayeredCatalog

universe u v w

variable {ε : Type v} {α : Type u} {β : Type w}

/-- A list with an item mentioned again, or as it is. -/
inductive Repeats : List α → List α → Prop
  | refl (l : List α) : Repeats l l
  | again {before rest : List α} {x : α} (hx : x ∈ before) :
      Repeats (before ++ rest) (before ++ x :: rest)

/-- The steps of a fold leave marks. -/
structure LeavesMarks (f : β → α → Except ε β) (Marked : β → α → Prop) : Prop where
  mark : ∀ b a b', f b a = .ok b' → Marked b' a
  lasts : ∀ b a a' b', Marked b a → f b a' = .ok b' → Marked b' a
  same : ∀ b a, Marked b a → f b a = .ok b

namespace LeavesMarks

variable {f : β → α → Except ε β} {Marked : β → α → Prop} {as : List α} {a : α} {b b' : β}

theorem marked_of_marked (h : LeavesMarks f Marked) (ha : Marked b a)
    (hfold : as.foldlM f b = .ok b') : Marked b' a := by
  induction as generalizing b with
  | nil =>
      obtain rfl := pure_eq_ok_iff.1 hfold
      exact ha
  | cons a' as ih =>
      rw [List.foldlM_cons, bind_eq_ok_iff] at hfold
      obtain ⟨b₁, hb₁, hfold⟩ := hfold
      exact ih (h.lasts b a a' b₁ ha hb₁) hfold

theorem marked_of_mem (h : LeavesMarks f Marked) (ha : a ∈ as)
    (hfold : as.foldlM f b = .ok b') : Marked b' a := by
  induction as generalizing b with
  | nil => cases ha
  | cons a' as ih =>
      rw [List.foldlM_cons, bind_eq_ok_iff] at hfold
      obtain ⟨b₁, hb₁, hfold⟩ := hfold
      rcases List.mem_cons.1 ha with rfl | ha
      · exact h.marked_of_marked (h.mark b a b₁ hb₁) hfold
      · exact ih ha hfold

end LeavesMarks

namespace Repeats

variable {l l' : List α}

theorem append_right (h : Repeats l l') (m : List α) : Repeats (l ++ m) (l' ++ m) := by
  cases h with
  | refl => exact .refl _
  | again hx =>
      rw [List.append_assoc, List.append_assoc, List.cons_append]
      exact .again hx

theorem append_left (h : Repeats l l') (m : List α) : Repeats (m ++ l) (m ++ l') := by
  cases h with
  | refl => exact .refl _
  | again hx =>
      rw [← List.append_assoc, ← List.append_assoc]
      exact .again (List.mem_append_right m hx)

theorem mem_iff (h : Repeats l l') {x : α} : x ∈ l' ↔ x ∈ l := by
  cases h with
  | refl => rfl
  | again hx =>
      simp only [List.mem_append, List.mem_cons]
      constructor
      · rintro (hbefore | rfl | hrest)
        · exact .inl hbefore
        · exact .inl hx
        · exact .inr hrest
      · rintro (hbefore | hrest)
        · exact .inl hbefore
        · exact .inr (.inr hrest)

/-- A fold whose steps leave marks does not see a repetition, whether it fails or not. -/
theorem foldlM_eq {f : β → α → Except ε β} {Marked : β → α → Prop} (h : Repeats l l')
    (hf : LeavesMarks f Marked) (b : β) : l'.foldlM f b = l.foldlM f b := by
  cases h with
  | refl => rfl
  | again hx =>
      rw [List.foldlM_append, List.foldlM_append]
      refine bind_congr_of_ok fun b' hb' => ?_
      rw [List.foldlM_cons, hf.same b' _ (hf.marked_of_mem hx hb')]
      rfl

theorem forM_eq_foldlM (f : α → Except ε PUnit) (l : List α) :
    l.forM f = l.foldlM (fun _ a => f a) ⟨⟩ := by
  induction l with
  | nil => rfl
  | cons a l ih =>
      rw [List.forM_eq_forM] at ih ⊢
      rw [List.forM_cons, List.foldlM_cons, ih]

theorem forM_eq {f : α → Except ε PUnit} (h : Repeats l l') : l'.forM f = l.forM f := by
  have hf : LeavesMarks (fun _ a => f a) fun u a => f a = .ok u :=
    ⟨fun _ _ _ ha => ha, fun _ _ _ _ ha _ => ha, fun _ _ ha => ha⟩
  rw [forM_eq_foldlM, forM_eq_foldlM]
  exact h.foldlM_eq hf ⟨⟩

/-- The fold of a function that cannot fail. -/
theorem foldl_eq {f : β → α → β} {Marked : β → α → Prop} (h : Repeats l l')
    (hf : LeavesMarks (fun b a => (.ok (f b a) : Except Unit β)) Marked) (b : β) :
    l'.foldl f b = l.foldl f b := by
  have hfold := h.foldlM_eq hf b
  have hpure : ∀ l : List α, l.foldlM (fun b a => (.ok (f b a) : Except Unit β)) b =
      .ok (l.foldl f b) := fun l => List.foldlM_pure
  rw [hpure, hpure] at hfold
  exact Except.ok.inj hfold

end Repeats

end LayeredCatalog
