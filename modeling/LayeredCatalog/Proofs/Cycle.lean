import Mathlib.Data.Fintype.Card
import Mathlib.Data.List.Chain
import Mathlib.Logic.Relation

/-!
# Cycles of a relation

A cycle of `r` is a proof of `Relation.TransGen r a a`. An accessible element
lies on no cycle, nor does any element if a number grows along `r`; and a relation
without cycles on a finite type is well-founded. A list whose neighbours are related
and that starts and ends with `a` is a cycle (`transGen_of_isChain`).
-/

namespace LayeredCatalog

theorem not_transGen_self_of_acc {α : Type*} {r : α → α → Prop} {a : α} (h : Acc r a) :
    ¬ Relation.TransGen r a a := by
  intro hcycle
  have hacc := h.transGen
  clear h
  induction hacc with
  | intro a _ ih => exact ih a hcycle hcycle

theorem not_transGen_self_of_lt {α : Type*} {r : α → α → Prop} (f : α → Nat)
    (h : ∀ a b, r a b → f a < f b) (a : α) : ¬ Relation.TransGen r a a := by
  have hwf : WellFounded r := Subrelation.wf (h _ _) (measure f).wf
  exact not_transGen_self_of_acc (hwf.apply a)

theorem transGen_of_isChain {α : Type*} {r : α → α → Prop} {a b : α} {l : List α}
    (h : (a :: l ++ [b]).IsChain r) : Relation.TransGen r a b := by
  induction l generalizing a with
  | nil => exact .single (List.isChain_pair.1 h)
  | cons c l ih =>
      obtain ⟨hac, hcb⟩ := List.isChain_cons_cons.1 h
      exact .head hac (ih hcb)

theorem wellFounded_of_not_transGen_self {α : Type*} [Finite α] {r : α → α → Prop}
    (h : ∀ a, ¬ Relation.TransGen r a a) : WellFounded r := by
  have hirrefl : Std.Irrefl (Relation.TransGen r) := ⟨h⟩
  exact Subrelation.wf Relation.TransGen.single
    (Finite.wellFounded_of_trans_of_irrefl (Relation.TransGen r))

end LayeredCatalog
