/-!
# Tables

A `Table κ α` is a finite map kept as the list of its entries in strictly
increasing order of their keys. Each table has exactly one such list, so two
tables with the same lookups are equal (`ext_get?`), and everything that walks
a table walks it in the order of its keys. For text keys this is the order of
the code points, which is also the order of the UTF-8 bytes.

The main statements are `get?_insert`, which says what a table holds after one
entry is written, and `ext_get?`.
-/

namespace LayeredCatalog

/-- A finite map, held as its entries in strictly increasing order of keys. -/
structure Table (κ : Type u) (α : Type v) [Ord κ] where
  /-- The entries, smallest key first. -/
  toList : List (κ × α)
  /-- Keys increase strictly, so no key occurs twice. -/
  sorted : toList.Pairwise fun a b => compare a.1 b.1 = .lt := by simp

namespace Table

section Basic

variable {κ : Type u} {α : Type v} {β : Type w} [Ord κ]

instance [DecidableEq κ] [DecidableEq α] : DecidableEq (Table κ α) := fun s t =>
  decidable_of_iff (s.toList = t.toList) ⟨fun h => by cases s; cases t; cases h; rfl, congrArg _⟩

/-- The table without entries. -/
def empty : Table κ α := ⟨[], .nil⟩

instance : Inhabited (Table κ α) := ⟨empty⟩

instance : EmptyCollection (Table κ α) := ⟨empty⟩

/-- The value that the first entry for `k` holds. -/
def find? [DecidableEq κ] (k : κ) : List (κ × α) → Option α
  | [] => none
  | (k', v) :: r => if k = k' then some v else find? k r

/-- The value stored under `k`, if any. -/
def get? [DecidableEq κ] (t : Table κ α) (k : κ) : Option α := find? k t.toList

/-- Whether some value is stored under `k`. -/
def contains [DecidableEq κ] (t : Table κ α) (k : κ) : Bool := (t.get? k).isSome

/-- The keys, smallest first. -/
def keys (t : Table κ α) : List κ := t.toList.map (·.1)

/-- The stored values, in the order of their keys. -/
def values (t : Table κ α) : List α := t.toList.map (·.2)

/-- The number of entries. -/
def size (t : Table κ α) : Nat := t.toList.length

/-- Whether the table has no entry. -/
def isEmpty (t : Table κ α) : Bool := t.toList.isEmpty

/-- Writes `v` under `k` in a list of entries, replacing an entry that `k`
already has. -/
def place (k : κ) (v : α) : List (κ × α) → List (κ × α)
  | [] => [(k, v)]
  | (k', v') :: r =>
    match compare k k' with
    | .lt => (k, v) :: (k', v') :: r
    | .eq => (k, v) :: r
    | .gt => (k', v') :: place k v r

theorem mem_place {k : κ} {v : α} {e : κ × α} {l : List (κ × α)} (h : e ∈ place k v l) :
    e = (k, v) ∨ e ∈ l := by
  induction l with
  | nil => exact .inl (by simpa [place] using h)
  | cons p r ih =>
    obtain ⟨k', v'⟩ := p
    rw [place] at h
    split at h <;> grind

theorem map_sorted (f : κ → α → β) {l : List (κ × α)}
    (h : l.Pairwise fun a b => compare a.1 b.1 = .lt) :
    (l.map fun e => (e.1, f e.1 e.2)).Pairwise fun a b => compare a.1 b.1 = .lt :=
  h.map _ fun _ _ h => h

/-- Applies `f` to every value, which may depend on its key. -/
def map (f : κ → α → β) (t : Table κ α) : Table κ β :=
  ⟨t.toList.map fun e => (e.1, f e.1 e.2), map_sorted f t.sorted⟩

@[simp] theorem keys_map (f : κ → α → β) (t : Table κ α) : (t.map f).keys = t.keys := by
  simp [keys, map]

/-- Keeps the entries that satisfy `p`. -/
def filter (p : κ → α → Bool) (t : Table κ α) : Table κ α :=
  ⟨t.toList.filter fun e => p e.1 e.2, t.sorted.sublist List.filter_sublist⟩

theorem toList_inj {s t : Table κ α} : s.toList = t.toList ↔ s = t := by
  constructor
  · intro h
    cases s
    cases t
    cases h
    rfl
  · rintro rfl
    rfl

@[simp] theorem toList_empty : (empty : Table κ α).toList = [] := rfl

@[simp] theorem get?_empty [DecidableEq κ] (k : κ) : (empty : Table κ α).get? k = none := rfl

end Basic

section Lawful

variable {κ : Type u} {α : Type v} {β : Type w} [Ord κ] [Std.TransOrd κ] [Std.LawfulEqOrd κ]

theorem place_sorted (k : κ) (v : α) {l : List (κ × α)}
    (h : l.Pairwise fun a b => compare a.1 b.1 = .lt) :
    (place k v l).Pairwise fun a b => compare a.1 b.1 = .lt := by
  induction l with
  | nil => simp [place]
  | cons p r ih =>
    obtain ⟨k', v'⟩ := p
    rw [List.pairwise_cons] at h
    rw [place]
    split
    · rename_i hk
      refine List.pairwise_cons.2 ⟨fun e he => ?_, List.pairwise_cons.2 h⟩
      rcases List.mem_cons.1 he with rfl | he
      · exact hk
      · exact Std.TransCmp.lt_trans hk (h.1 e he)
    · rename_i hk
      have : k = k' := Std.LawfulEqCmp.eq_of_compare hk
      subst this
      exact List.pairwise_cons.2 ⟨h.1, h.2⟩
    · rename_i hk
      refine List.pairwise_cons.2 ⟨fun e he => ?_, ih h.2⟩
      rcases mem_place he with rfl | he
      · exact Std.OrientedCmp.lt_of_gt hk
      · exact h.1 e he

/-- Stores `v` under `k`, replacing the value that `k` had. -/
def insert (t : Table κ α) (k : κ) (v : α) : Table κ α :=
  ⟨place k v t.toList, place_sorted k v t.sorted⟩

/-- Writes the entries of a list one after another; of two entries with one key
the later one stays. -/
def insertMany (t : Table κ α) (l : List (κ × α)) : Table κ α :=
  l.foldl (fun t e => t.insert e.1 e.2) t

/-- The table of a list of entries; of two entries with one key the later one
stays. -/
def ofList (l : List (κ × α)) : Table κ α := empty.insertMany l

theorem insertMany_append (t : Table κ α) (l l' : List (κ × α)) :
    t.insertMany (l ++ l') = (t.insertMany l).insertMany l' :=
  List.foldl_append

variable [DecidableEq κ]

omit [Std.TransOrd κ] in
theorem find?_place (k k' : κ) (v : α) (l : List (κ × α)) :
    find? k' (place k v l) = if k' = k then some v else find? k' l := by
  induction l with
  | nil => simp [place, find?]
  | cons p r ih =>
    obtain ⟨j, w⟩ := p
    rw [place]
    split
    · simp [find?]
    · rename_i hk
      have : k = j := Std.LawfulEqCmp.eq_of_compare hk
      subst this
      simp only [find?]
      split <;> rfl
    · rename_i hk
      simp only [find?, ih]
      have hne : k ≠ j := fun h => by simp [h] at hk
      split
      · rename_i h
        subst h
        simp [hne.symm]
      · rfl

/-- A written entry is found under its key, and no other lookup changes. -/
@[simp] theorem get?_insert (t : Table κ α) (k k' : κ) (v : α) :
    (t.insert k v).get? k' = if k' = k then some v else t.get? k' :=
  find?_place k k' v t.toList

omit [Std.TransOrd κ] in
theorem find?_eq_some_iff {k : κ} {v : α} {l : List (κ × α)}
    (h : l.Pairwise fun a b => compare a.1 b.1 = .lt) :
    find? k l = some v ↔ (k, v) ∈ l := by
  induction l with
  | nil => simp [find?]
  | cons p r ih =>
    obtain ⟨j, w⟩ := p
    rw [List.pairwise_cons] at h
    simp only [find?]
    split
    · rename_i hk
      subst hk
      constructor
      · rintro ⟨rfl⟩; exact List.mem_cons_self ..
      · intro hm
        rcases List.mem_cons.1 hm with he | hm
        · cases he; rfl
        · have := h.1 _ hm
          simp at this
    · rename_i hk
      rw [ih h.2, List.mem_cons]
      constructor
      · exact .inr
      · rintro (he | hm)
        · cases he; exact absurd rfl hk
        · exact hm

omit [Std.TransOrd κ] in
/-- Lookups are the entries of the list. -/
theorem get?_eq_some_iff {t : Table κ α} {k : κ} {v : α} :
    t.get? k = some v ↔ (k, v) ∈ t.toList :=
  find?_eq_some_iff t.sorted

omit [Std.TransOrd κ] in
theorem forall_get?_iff {t : Table κ α} {P : κ → α → Prop} :
    (∀ k v, t.get? k = some v → P k v) ↔ ∀ e ∈ t.toList, P e.1 e.2 := by
  constructor
  · intro h e he
    exact h e.1 e.2 (get?_eq_some_iff.2 he)
  · intro h k v hv
    exact h (k, v) (get?_eq_some_iff.1 hv)

omit [Std.TransOrd κ] in
theorem contains_iff_mem_keys {t : Table κ α} {k : κ} : t.contains k ↔ k ∈ t.keys := by
  rw [contains, Option.isSome_iff_exists, keys, List.mem_map]
  constructor
  · rintro ⟨v, hv⟩
    exact ⟨(k, v), get?_eq_some_iff.1 hv, rfl⟩
  · rintro ⟨⟨_, v⟩, he, rfl⟩
    exact ⟨v, get?_eq_some_iff.2 he⟩

omit [Std.TransOrd κ] [DecidableEq κ] in
theorem nodup_keys (t : Table κ α) : t.keys.Nodup := by
  rw [keys, List.Nodup, List.pairwise_map]
  exact t.sorted.imp fun h heq => by simp [heq] at h

omit [Std.TransOrd κ] [Std.LawfulEqOrd κ] in
@[simp] theorem get?_map (f : κ → α → β) (t : Table κ α) (k : κ) :
    (t.map f).get? k = (t.get? k).map (f k) := by
  obtain ⟨l, hl⟩ := t
  induction l with
  | nil => rfl
  | cons e l ih =>
    have hrest := ih (List.pairwise_cons.1 hl).2
    simp only [get?, map, List.map_cons, find?] at hrest ⊢
    split
    · next h => rw [h]; rfl
    · exact hrest

theorem contains_insert (t : Table κ α) (k k' : κ) (v : α) :
    (t.insert k v).contains k' = (k' = k || t.contains k') := by
  rw [contains, get?_insert, contains]
  split <;> simp_all

/-- After a list of entries is written, a key is there if it was or if the list
has it. -/
theorem contains_insertMany (t : Table κ α) (l : List (κ × α)) (k : κ) :
    (t.insertMany l).contains k = (t.contains k || l.any (·.1 = k)) := by
  induction l generalizing t with
  | nil => simp [insertMany]
  | cons e l ih =>
    have := ih (t.insert e.1 e.2)
    rw [insertMany, List.foldl_cons] at *
    rw [this, contains_insert, List.any_cons]
    by_cases h : k = e.1 <;> simp [h, Bool.or_comm, eq_comm]

/-- What a table holds after a list of entries is written is one of them, or was
there before. -/
theorem mem_of_get?_insertMany {t : Table κ α} {l : List (κ × α)} {k : κ} {v : α}
    (h : (t.insertMany l).get? k = some v) : (k, v) ∈ l ∨ t.get? k = some v := by
  induction l generalizing t with
  | nil => exact .inr h
  | cons e l ih =>
    rw [insertMany, List.foldl_cons] at h
    rcases ih h with hl | ht
    · exact .inl (List.mem_cons_of_mem e hl)
    · rw [get?_insert] at ht
      split at ht
      · next hk =>
        cases ht
        exact .inl (hk ▸ List.mem_cons_self ..)
      · exact .inr ht

/-- What is written from another table is found there; the rest stays. -/
theorem get?_insertMany_toList (t u : Table κ α) (k : κ) :
    (t.insertMany u.toList).get? k = (u.get? k).or (t.get? k) := by
  obtain ⟨l, hl⟩ := u
  induction l generalizing t with
  | nil => rfl
  | cons e l ih =>
    obtain ⟨j, v⟩ := e
    obtain ⟨hj, hl⟩ := List.pairwise_cons.1 hl
    have hrest := ih (t.insert j v) hl
    rw [insertMany, List.foldl_cons]
    refine hrest.trans ?_
    rw [get?_insert]
    show (find? k l).or (if k = j then some v else t.get? k) =
      (if k = j then some v else find? k l).or (t.get? k)
    by_cases hk : k = j
    · have hnone : find? j l = none := by
        rw [Option.eq_none_iff_forall_ne_some]
        intro w hw
        have hlt := hj _ ((find?_eq_some_iff hl).1 hw)
        simp at hlt
      rw [if_pos hk, if_pos hk, hk, hnone]
      rfl
    · rw [if_neg hk, if_neg hk]

theorem mem_of_get?_ofList {l : List (κ × α)} {k : κ} {v : α}
    (h : (ofList l).get? k = some v) : (k, v) ∈ l := by
  rcases mem_of_get?_insertMany h with hl | he
  · exact hl
  · exact absurd he (by simp)

theorem contains_ofList (l : List (κ × α)) (k : κ) :
    (ofList l).contains k = l.any (·.1 = k) := by
  rw [ofList, contains_insertMany]
  simp [contains]

theorem eq_of_find? {l m : List (κ × α)}
    (hl : l.Pairwise fun a b => compare a.1 b.1 = .lt)
    (hm : m.Pairwise fun a b => compare a.1 b.1 = .lt)
    (h : ∀ k, find? k l = find? k m) : l = m := by
  have hmem : ∀ e, e ∈ l ↔ e ∈ m := fun e => by
    rw [← find?_eq_some_iff (k := e.1) (v := e.2) hl, h, find?_eq_some_iff hm]
  induction l generalizing m with
  | nil =>
    cases m with
    | nil => rfl
    | cons q _ => exact absurd ((hmem q).2 (List.mem_cons_self ..)) (by simp)
  | cons p r ih =>
    cases m with
    | nil => exact absurd ((hmem p).1 (List.mem_cons_self ..)) (by simp)
    | cons q s =>
      have hl' := List.pairwise_cons.1 hl
      have hm' := List.pairwise_cons.1 hm
      have hpq : p = q := by
        rcases List.mem_cons.1 ((hmem p).1 (List.mem_cons_self ..)) with he | hp
        · exact he
        · rcases List.mem_cons.1 ((hmem q).2 (List.mem_cons_self ..)) with he | hq
          · exact he.symm
          · have h₁ := hm'.1 p hp
            have h₂ := hl'.1 q hq
            have := Std.TransCmp.lt_trans h₁ h₂
            simp at this
      subst hpq
      have hmem' : ∀ e, e ∈ r ↔ e ∈ s := fun e => by
        constructor
        · intro he
          rcases List.mem_cons.1 ((hmem e).1 (List.mem_cons_of_mem _ he)) with rfl | h
          · have := hl'.1 _ he
            simp at this
          · exact h
        · intro he
          rcases List.mem_cons.1 ((hmem e).2 (List.mem_cons_of_mem _ he)) with rfl | h
          · have := hm'.1 _ he
            simp at this
          · exact h
      rw [ih hl'.2 hm'.2 (fun k => ?_) hmem']
      apply Option.ext
      intro v
      rw [find?_eq_some_iff hl'.2, find?_eq_some_iff hm'.2, hmem']

/-- Two tables with the same lookups are equal. -/
theorem ext_get? {s t : Table κ α} (h : ∀ k, s.get? k = t.get? k) : s = t := by
  cases s with | mk l hl =>
  cases t with | mk m hm =>
  cases eq_of_find? hl hm h
  rfl

/-- Two tables that hold values under the same keys list the keys alike. -/
theorem keys_eq_of_contains_iff {s : Table κ α} {t : Table κ β}
    (h : ∀ k, s.contains k ↔ t.contains k) : s.keys = t.keys := by
  have hunit : (s.map fun _ _ => ()) = t.map fun _ _ => () := by
    refine ext_get? fun k => ?_
    have hk := h k
    rw [get?_map, get?_map]
    rw [contains, contains] at hk
    cases hs : s.get? k <;> cases ht : t.get? k <;> simp_all
  rw [← keys_map (fun _ _ => ()) s, hunit, keys_map]

/-- A table is the table of its entries. -/
theorem ofList_toList (t : Table κ α) : ofList t.toList = t := by
  refine ext_get? fun k => ?_
  have hcontains : (ofList t.toList).contains k = t.contains k := by
    rw [Bool.eq_iff_iff, contains_ofList, contains_iff_mem_keys, keys]
    simp
  cases h : (ofList t.toList).get? k with
  | some v => exact (get?_eq_some_iff.2 (mem_of_get?_ofList h)).symm
  | none =>
    rw [contains, contains, h, eq_comm, Option.isSome_eq_isSome] at hcontains
    exact (by simpa using hcontains : t.get? k = none).symm

end Lawful

end Table

end LayeredCatalog
