import LayeredCatalog.Proofs.Stages
import LayeredCatalog.Table
import Mathlib.Data.List.Nodup
import Mathlib.Data.String.Basic

/-!
# What tables hold

A table is known by what is found under each key. So it does not matter in which order a list
of entries with different keys is written (`Table.ofList_perm`), nor whether a table is laid
over another one before or after one of its entries is changed (`Table.insertMany_insert`).
What goes through the entries in their order and may fail, fails at the least key at which it
can (`Table.mapM_toList_eq_error_iff`).
-/

namespace LayeredCatalog

namespace Table

variable {α β : Type*}

/-- A list in which no key occurs twice has the entries of its table. -/
theorem mem_toList_ofList {l : List (String × α)} (h : (l.map Prod.fst).Nodup) {e : String × α} :
    e ∈ (ofList l).toList ↔ e ∈ l := by
  constructor
  · intro he
    exact mem_of_get?_ofList (get?_eq_some_iff.2 he)
  · intro he
    have hcontains : (Table.ofList l).contains e.1 := by
      rw [contains_ofList, List.any_eq_true]
      exact ⟨e, he, by simp⟩
    obtain ⟨v, hv⟩ := Option.isSome_iff_exists.1 hcontains
    have heq : e = (e.1, v) := List.inj_on_of_nodup_map h he (mem_of_get?_ofList hv) rfl
    rw [heq]
    exact get?_eq_some_iff.1 hv

/-- The order of a list in which no key occurs twice does not matter to its table. -/
theorem ofList_perm {l l' : List (String × α)} (hperm : l.Perm l') (h : (l.map Prod.fst).Nodup) :
    ofList l = ofList l' := by
  have h' : (l'.map Prod.fst).Nodup := (hperm.map Prod.fst).nodup_iff.1 h
  refine ext_get? fun k => Option.ext fun v => ?_
  rw [get?_eq_some_iff, get?_eq_some_iff, mem_toList_ofList h, mem_toList_ofList h',
    hperm.mem_iff]

/-- The table of a list has the last value that the list has for a key. -/
theorem get?_ofList (l : List (String × α)) (k : String) :
    (ofList l).get? k = (l.reverse.find? (·.1 = k)).map Prod.snd := by
  induction l using List.reverseRecOn with
  | nil => rfl
  | append_singleton l e ih =>
      rw [ofList, insertMany_append, ← ofList, insertMany, List.foldl_cons, List.foldl_nil,
        get?_insert, ih, List.reverse_append, List.reverse_singleton, List.singleton_append,
        List.find?_cons]
      by_cases hk : k = e.1
      · simp [hk]
      · simp [hk, Ne.symm hk]

theorem insert_of_get? {t : Table String α} {k : String} {v : α} (h : t.get? k = some v) :
    t.insert k v = t := by
  refine ext_get? fun k' => ?_
  rw [get?_insert]
  split
  · next hk => rw [hk, h]
  · rfl

/-- To write an entry that is there is to change its value. -/
theorem insert_eq_map {t : Table String α} {k : String} {v : α} (w : α) (h : t.get? k = some v) :
    t.insert k w = t.map fun k' v' => if k' = k then w else v' := by
  refine ext_get? fun k' => ?_
  rw [get?_insert, get?_map]
  split
  · next hk =>
    rw [hk, h]
    simp
  · simp

theorem map_insert (f : String → α → β) (t : Table String α) (k : String) (v : α) :
    (t.insert k v).map f = (t.map f).insert k (f k v) := by
  refine ext_get? fun k' => ?_
  rw [get?_map, get?_insert, get?_insert, get?_map]
  split
  · next hk => rw [hk, Option.map_some]
  · rfl

/-- A table laid over another one: it has all entries of the upper one, the entries of the
lower one under other keys, and nothing else. -/
structure IsOver (upper lower t : Table String α) : Prop where
  above : ∀ k v, upper.get? k = some v → t.get? k = some v
  below : ∀ k, ¬ upper.contains k → t.get? k = lower.get? k
  keys : ∀ k, t.contains k ↔ upper.contains k ∨ lower.contains k

theorem isOver_insertMany (lower upper : Table String α) :
    IsOver upper lower (lower.insertMany upper.toList) where
  above k v h := by rw [get?_insertMany_toList, h, Option.some_or]
  below k h := by
    rw [contains, Bool.not_eq_true, Option.isSome_eq_false_iff, Option.isNone_iff_eq_none] at h
    rw [get?_insertMany_toList, h, Option.none_or]
  keys k := by
    rw [contains, get?_insertMany_toList, Option.isSome_or, Bool.or_eq_true, contains, contains]

/-- To lay a table over another one twice is to do it once. -/
theorem insertMany_toList_twice (lower upper : Table String α) :
    (lower.insertMany upper.toList).insertMany upper.toList = lower.insertMany upper.toList := by
  refine ext_get? fun k => ?_
  rw [get?_insertMany_toList, get?_insertMany_toList, ← Option.or_assoc, Option.or_self]

/-- To write an entry into a table before it is laid over another one is to write the entry
last. -/
theorem insertMany_insert (lower upper : Table String α) (k : String) (v : α) :
    lower.insertMany (upper.insert k v).toList = (lower.insertMany upper.toList).insert k v := by
  refine ext_get? fun k' => ?_
  rw [get?_insertMany_toList, get?_insert, get?_insert, get?_insertMany_toList]
  split
  · rfl
  · rfl

/-- What fails for some entries of a table fails for the one with the least key first. -/
theorem mapM_toList_eq_error_iff {ε : Type*} {α β : Type} {f : String × α → Except ε β}
    {t : Table String α} {e : ε} :
    t.toList.mapM f = .error e ↔ ∃ key v, t.get? key = some v ∧ f (key, v) = .error e ∧
      ∀ key' v' e', t.get? key' = some v' → f (key', v') = .error e' → key ≤ key' := by
  have hsorted := t.sorted
  constructor
  · intro h
    obtain ⟨before, ⟨key, v⟩, rest, hlist, hbefore, he⟩ := mapM_eq_error_iff.1 h
    refine ⟨key, v, get?_eq_some_iff.2 (by simp [hlist]), he, fun key' v' e' hv' he' => ?_⟩
    rw [hlist, List.pairwise_append, List.pairwise_cons] at hsorted
    rw [get?_eq_some_iff, hlist, List.mem_append, List.mem_cons] at hv'
    rcases hv' with hv' | hv' | hv'
    · obtain ⟨b, hb⟩ := hbefore _ hv'
      cases hb.symm.trans he'
    · exact (congrArg Prod.fst hv').ge
    · exact (compare_lt_iff_lt.1 (hsorted.2.1.1 _ hv')).le
  · rintro ⟨key, v, hv, he, hleast⟩
    obtain ⟨before, rest, hlist⟩ := List.append_of_mem (get?_eq_some_iff.1 hv)
    refine mapM_eq_error_iff.2 ⟨before, (key, v), rest, hlist, fun b hb => ?_, he⟩
    cases hfb : f b with
    | ok w => exact ⟨w, rfl⟩
    | error e' =>
        have hle := hleast b.1 b.2 e' (get?_eq_some_iff.2 (by simp [hlist, hb])) hfb
        rw [hlist, List.pairwise_append] at hsorted
        have hlt := compare_lt_iff_lt.1 (hsorted.2.2 b hb (key, v) List.mem_cons_self)
        exact absurd hle hlt.not_ge

end Table

end LayeredCatalog
