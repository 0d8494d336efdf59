import LayeredCatalog.Proofs.Cycle
import LayeredCatalog.Proofs.Dependencies.Additions

/-!
# The order of a dependency graph

Of the list that the walk leaves, `misplaced?` finds a dependency that does not stand
before its dependent, if there is one. Such a dependency lies on a cycle, since the
walk has a path back to it. So the order of a graph is a list of all its names with
every dependency before its dependents, and where the order fails it names a
dependency on a cycle (`order_eq_ok`, `order_eq_error`). A graph with a cycle has no
such list, which leaves exactly the graphs without cycles (`order_ok_iff`).
-/

namespace LayeredCatalog

open scoped List

theorem idxOf_lt_of_pair_sublist {l : List String} {a b : String} (h : [a, b] <+ l)
    (hl : l.Nodup) : l.idxOf a < l.idxOf b := by
  induction l with
  | nil => simp at h
  | cons x l ih =>
      obtain ⟨hx, hl⟩ := List.nodup_cons.1 hl
      rw [List.sublist_cons_iff] at h
      rcases h with h | ⟨r, heq, h⟩
      · have hne : ∀ y ∈ [a, b], x ≠ y := by
          rintro y hy rfl
          exact hx (h.subset hy)
        rw [List.idxOf_cons_ne _ (hne a (by simp)), List.idxOf_cons_ne _ (hne b (by simp))]
        exact Nat.succ_lt_succ (ih h hl)
      · obtain ⟨rfl, rfl⟩ := List.cons.inj heq
        have hne : a ≠ b := by
          rintro rfl
          exact hx (by simpa using h)
        rw [List.idxOf_cons_self, List.idxOf_cons_ne _ hne]
        exact Nat.succ_pos _

namespace Dependencies

variable {g : Dependencies}

theorem misplaced?_eq_none {before rest : List String} (h : g.misplaced? before rest = none)
    {d n : String} (hn : n ∈ rest) (hd : g.Precedes d n) : d ∈ before ∨ [d, n] <+ rest := by
  induction rest generalizing before with
  | nil => cases hn
  | cons m rest ih =>
      rw [misplaced?] at h
      split at h
      · cases h
      · next hfound =>
        rcases List.mem_cons.1 hn with rfl | hrest
        · have := List.find?_eq_none.1 hfound d (mem_dependencies.2 hd)
          exact .inl (by simpa using this)
        · rcases ih h hrest with hbefore | hsub
          · rcases List.mem_cons.1 hbefore with rfl | hbefore
            · exact .inr ((List.singleton_sublist.2 hrest).cons_cons d)
            · exact .inl hbefore
          · exact .inr (hsub.cons m)

theorem misplaced?_eq_some {before rest : List String} {d : String}
    (h : g.misplaced? before rest = some d) (hrest : rest.Nodup) :
    ∃ n ∈ rest, g.Precedes d n ∧ d ∉ before ∧ ¬ [d, n] <+ rest := by
  induction rest generalizing before with
  | nil => cases h
  | cons m rest ih =>
      obtain ⟨hm, hrest⟩ := List.nodup_cons.1 hrest
      rw [misplaced?] at h
      split at h
      · next hfound =>
        cases h
        have hbefore : d ∉ before := by simpa using List.find?_some hfound
        refine ⟨m, List.mem_cons_self .., mem_dependencies.1 (List.mem_of_find?_eq_some hfound),
          hbefore, ?_⟩
        intro hsub
        rw [List.sublist_cons_iff] at hsub
        rcases hsub with hsub | ⟨r, heq, hsub⟩
        · exact hm (hsub.subset (by simp))
        · obtain ⟨-, rfl⟩ := List.cons.inj heq
          exact hm (by simpa using hsub)
      · obtain ⟨n, hn, hd, hbefore, hsub⟩ := ih h hrest
        rw [List.mem_cons, not_or] at hbefore
        refine ⟨n, List.mem_cons_of_mem _ hn, hd, hbefore.2, ?_⟩
        simpa [List.sublist_cons_iff, hbefore.1] using hsub

/-- An order has every name once, and every dependency before its dependents. -/
theorem order_eq_ok (hg : g.IsSimple) {l : List String} (h : g.order = .ok l) :
    l.Perm g.nodes ∧ ∀ a b, g.Precedes a b → [a, b] <+ l := by
  rw [order] at h
  split at h
  · cases h
  · next left hleft =>
    split at h
    · cases h
    · next hplaced =>
      cases h
      have hperm := (walk_eq_ok hg hleft).1
      refine ⟨hperm, fun a b hab => ?_⟩
      have hb : b ∈ l := hperm.mem_iff.2 (hg.target_mem a b hab)
      simpa using misplaced?_eq_none hplaced hb hab

/-- Where there is no order, a name of the graph is found that depends on itself. -/
theorem order_eq_error (hg : g.IsSimple) {n : String} (h : g.order = .error n) :
    n ∈ g.nodes ∧ Relation.TransGen g.Precedes n n := by
  rw [order] at h
  split at h
  · next m hwalk =>
    cases h
    obtain ⟨hn, hself⟩ := walk_eq_error hwalk
    exact ⟨hn, .single hself⟩
  · next left hleft =>
    split at h
    · next m hfound =>
      cases h
      obtain ⟨hperm, hwalked⟩ := walk_eq_ok hg hleft
      obtain ⟨m, -, hedge, -, hsub⟩ :=
        misplaced?_eq_some hfound (hperm.nodup_iff.2 hg.nodup)
      refine ⟨hg.source_mem n m hedge, ?_⟩
      rcases hwalked n m hedge with hbefore | hback
      · exact absurd hbefore hsub
      · exact .head' hedge hback
    · cases h

theorem order_ok_iff (hg : g.IsSimple) :
    (∃ l, g.order = .ok l) ↔ ∀ n, ¬ Relation.TransGen g.Precedes n n := by
  constructor
  · -- Along an edge the place in the list grows.
    rintro ⟨l, hl⟩
    obtain ⟨hperm, hsub⟩ := order_eq_ok hg hl
    have hl' : l.Nodup := hperm.nodup_iff.2 hg.nodup
    exact not_transGen_self_of_lt l.idxOf fun a b hab => idxOf_lt_of_pair_sublist (hsub a b hab) hl'
  · intro h
    cases hl : g.order with
    | error n => exact absurd (order_eq_error hg hl).2 (h n)
    | ok l => exact ⟨l, rfl⟩

section Additions

variable {additions : List Addition}

theorem transGen_precedes_ofAdditions {n : String} :
    Relation.TransGen (ofAdditions additions).Precedes n n ↔
      Relation.TransGen (Requires additions) n n := by
  have hswap : (ofAdditions additions).Precedes = Function.swap (Requires additions) := by
    ext a b
    exact precedes_ofAdditions
  rw [hswap, Relation.transGen_swap]

theorem order_ofAdditions_ok_iff :
    (∃ l, (ofAdditions additions).order = .ok l) ↔
      ∀ n, ¬ Relation.TransGen (Requires additions) n n := by
  rw [order_ok_iff (isSimple_ofAdditions additions)]
  simp only [transGen_precedes_ofAdditions]

/-- The order lists the names mentioned, each once and behind what it depends on. -/
theorem order_ofAdditions_eq_ok {l : List String} (h : (ofAdditions additions).order = .ok l) :
    l.Nodup ∧ (∀ n, n ∈ l ↔ n ∈ mentions additions) ∧
      ∀ n d, Requires additions n d → [d, n] <+ l := by
  obtain ⟨hperm, hsub⟩ := order_eq_ok (isSimple_ofAdditions additions) h
  refine ⟨hperm.nodup_iff.2 (isSimple_ofAdditions additions).nodup, ?_, ?_⟩
  · intro n
    rw [hperm.mem_iff, mem_nodes_ofAdditions]
  · intro n d hd
    exact hsub d n (precedes_ofAdditions.2 hd)

theorem order_ofAdditions_eq_error {n : String}
    (h : (ofAdditions additions).order = .error n) :
    n ∈ mentions additions ∧ Relation.TransGen (Requires additions) n n := by
  obtain ⟨hn, hcycle⟩ := order_eq_error (isSimple_ofAdditions additions) h
  exact ⟨mem_nodes_ofAdditions.1 hn, transGen_precedes_ofAdditions.1 hcycle⟩

end Additions

/-- A graph numbers its names in the order of first mention, by how many names are
mentioned before; no two names share a number, and later additions change none. It has
as many nodes as there are names. It has an order exactly if no name depends on itself;
the order has every name once, behind whatever the name depends on. Where there is no
order, the name found is one that depends on itself. -/
theorem ofAdditions_numbered_and_ordered (additions : List Addition) :
    (∀ n i, (ofAdditions additions).index? n = some i ↔
      ∃ before after, mentions additions = before ++ n :: after ∧ n ∉ before ∧
        i = before.toFinset.card) ∧
    (∀ m n i, (ofAdditions additions).index? m = some i →
      (ofAdditions additions).index? n = some i → m = n) ∧
    (∀ later n i, (ofAdditions additions).index? n = some i →
      (ofAdditions (additions ++ later)).index? n = some i) ∧
    (ofAdditions additions).nodes.length = (mentions additions).toFinset.card ∧
    ((∃ l, (ofAdditions additions).order = .ok l) ↔
      ∀ n, ¬ Relation.TransGen (Requires additions) n n) ∧
    (∀ l, (ofAdditions additions).order = .ok l →
      l.Nodup ∧ (∀ n, n ∈ l ↔ n ∈ mentions additions) ∧
        ∀ n d, Requires additions n d → [d, n] <+ l) ∧
    ∀ n, (ofAdditions additions).order = .error n →
      n ∈ mentions additions ∧ Relation.TransGen (Requires additions) n n := by
  have hsimple := isSimple_ofAdditions additions
  refine ⟨fun n i => index?_ofAdditions_eq_some_iff, ?_, ?_,
    length_nodes_ofAdditions additions, order_ofAdditions_ok_iff, ?_, ?_⟩
  · intro m n i hm hn
    rw [index?_eq_some_iff hsimple] at hm hn
    exact Option.some.inj (hm.symm.trans hn)
  · intro later n i h
    exact index?_ofAdditions_append h later
  · intro l hl
    exact order_ofAdditions_eq_ok hl
  · intro n hn
    exact order_ofAdditions_eq_error hn

end Dependencies

end LayeredCatalog
