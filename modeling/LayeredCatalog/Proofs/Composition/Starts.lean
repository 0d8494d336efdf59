import LayeredCatalog.Proofs.Composition.History

/-!
# Which functions an evaluation starts

The trace of a memo says which functions of layers were started (`Memo.started`).
`Memo.Starts` is the account of an evaluation: which functions it started, that each of
them was started once and in an empty cell, and what became of the cells. Accounts of
evaluations one after another make one account (`Memo.Starts.trans`), because whatever
the first one started has its value kept when the second one begins. The account of a
definition is that of its contribution and the start of its own function
(`Memo.Starts.own`).

`Composition.Calls` says that a computation gives such an account from every sound memo.
It is closed under sequencing as `Computes` is.
-/

namespace LayeredCatalog

/-- Whether a contribution is or has a function of its layer, as opposed to data. -/
def Contribution.HasFunction : Contribution → Prop
  | .constant _ => False
  | .compute _ => True
  | .derive _ (.replace _) => True
  | .derive _ (.merge _) => False

/-- The definition whose function an event starts. -/
def Event.started? : Event → Option (String × Nat)
  | .start name i => some (name, i)
  | _ => none

/-- The definitions whose functions were started, the latest first. -/
def Memo.started (trace : List Event) : List (String × Nat) := trace.filterMap Event.started?

/-- Whether a layer defines a name by a function. -/
def Composition.HasFunction (c : Composition) (d : String × Nat) : Prop :=
  ∃ l k, c.contribution? d.2 d.1 = some (l, k) ∧ k.HasFunction

namespace Memo

/-- Between the memos `m` and `m'` the functions of the definitions `ds` were started,
each of them once, with the property `P`, in a cell that was empty and not in progress.
Unless the evaluation failed their values are kept in the end; if it did, those are that
have any. Other definitions with a function have got no values. -/
structure Starts (c : Composition) (stack : List Frame) (P : String × Nat → Prop)
    (ds : List (String × Nat)) (m : Memo) (isOk : Bool) (m' : Memo) : Prop where
  -- Not in the order of the trace: a function that replaces a component is started after
  -- what the component needs, one that computes it before.
  perm : (started m'.trace).Perm (ds ++ started m.trace)
  nodup : ds.Nodup
  fresh : ∀ d ∈ ds, P d ∧ .define d.1 d.2 ∉ stack ∧ m.values.lookup d = none
  ended : ∀ d ∈ ds, (∃ v, m'.values.lookup d = some v) ∨
    isOk = false ∧ ∀ v, ¬ c.HasValue d.1 (.layer d.2) v
  grows : ∀ d v, m.values.lookup d = some v → m'.values.lookup d = some v
  filled : ∀ d v, m'.values.lookup d = some v → c.HasFunction d →
    m.values.lookup d = some v ∨ d ∈ ds

namespace Starts

variable {c : Composition} {stack : List Frame} {P : String × Nat → Prop}
  {ds : List (String × Nat)} {m m' : Memo} {isOk : Bool}

theorem refl (c : Composition) (stack : List Frame) (P : String × Nat → Prop) (m : Memo)
    (isOk : Bool) : Starts c stack P [] m isOk m where
  perm := .refl _
  nodup := .nil
  fresh := List.forall_mem_nil _
  ended := List.forall_mem_nil _
  grows _ _ hv := hv
  filled _ _ hv _ := .inl hv

/-- The account of an evaluation that succeeded and of one after it. -/
theorem trans {ds' : List (String × Nat)} {m'' : Memo} (h : Starts c stack P ds m true m')
    (h' : Starts c stack P ds' m' isOk m'') : Starts c stack P (ds' ++ ds) m isOk m'' := by
  -- Nothing is started in both: the second one starts functions in empty cells only.
  have hkept : ∀ d ∈ ds, ∃ v, m'.values.lookup d = some v := by
    intro d hd
    rcases h.ended d hd with hv | ⟨hfailed, -⟩
    · exact hv
    · cases hfailed
  constructor
  · rw [List.append_assoc]
    exact h'.perm.trans (h.perm.append_left ds')
  · refine List.nodup_append'.2 ⟨h'.nodup, h.nodup, ?_⟩
    intro d hd' hd
    obtain ⟨v, hv⟩ := hkept d hd
    obtain ⟨-, -, hempty⟩ := h'.fresh d hd'
    cases hempty.symm.trans hv
  · intro d hd
    rcases List.mem_append.1 hd with hd | hd
    · obtain ⟨hP, hfree, hempty⟩ := h'.fresh d hd
      refine ⟨hP, hfree, Option.eq_none_iff_forall_ne_some.2 fun v hv => ?_⟩
      cases hempty.symm.trans (h.grows d v hv)
    · exact h.fresh d hd
  · intro d hd
    rcases List.mem_append.1 hd with hd | hd
    · exact h'.ended d hd
    · obtain ⟨v, hv⟩ := hkept d hd
      exact .inl ⟨v, h'.grows d v hv⟩
  · intro d v hv
    exact h'.grows d v (h.grows d v hv)
  · intro d v hv hfun
    rcases h'.filled d v hv hfun with hv | hd
    · exact (h.filled d v hv hfun).imp_right fun hd => List.mem_append_right _ hd
    · exact .inr (List.mem_append_left _ hd)

/-- Only values and starts count. -/
theorem congr {m₁ m₁' : Memo} (h : Starts c stack P ds m isOk m')
    (hv : m₁.values = m.values) (ht : started m₁.trace = started m.trace)
    (hv' : m₁'.values = m'.values) (ht' : started m₁'.trace = started m'.trace) :
    Starts c stack P ds m₁ isOk m₁' where
  perm := by
    rw [ht, ht']
    exact h.perm
  nodup := h.nodup
  fresh := by
    rw [hv]
    exact h.fresh
  ended := by
    rw [hv']
    exact h.ended
  grows := by
    rw [hv, hv']
    exact h.grows
  filled := by
    rw [hv, hv']
    exact h.filled

theorem mono {P' : String × Nat → Prop} (h : Starts c stack P ds m isOk m')
    (hP : ∀ d, P d → P' d) : Starts c stack P' ds m isOk m' :=
  ⟨h.perm, h.nodup, fun d hd => (h.fresh d hd).imp_left (hP d), h.ended, h.grows, h.filled⟩

theorem of_cons {frame : Frame} (h : Starts c (frame :: stack) P ds m isOk m') :
    Starts c stack P ds m isOk m' := by
  refine ⟨h.perm, h.nodup, ?_, h.ended, h.grows, h.filled⟩
  intro d hd
  obtain ⟨hP, hfree, hempty⟩ := h.fresh d hd
  exact ⟨hP, fun hmem => hfree (List.mem_cons_of_mem _ hmem), hempty⟩

/-- An account says less of a failure. -/
theorem weaken {isOk' : Bool} (h : Starts c stack P ds m isOk m') (hok : isOk' → isOk) :
    Starts c stack P ds m isOk' m' := by
  refine ⟨h.perm, h.nodup, h.fresh, ?_, h.grows, h.filled⟩
  intro d hd
  refine (h.ended d hd).imp_right (And.imp_left fun hfailed => ?_)
  cases isOk' with
  | false => rfl
  | true => exact absurd (hok rfl) (by simp [hfailed])

/-- It makes no difference whether a start is noted before or after the rest. -/
theorem note_start (h : Starts c stack P ds m isOk m') (name : String) (i : Nat) :
    Starts c stack P ds (m.note (.start name i)) isOk (m'.note (.start name i)) :=
  ⟨(h.perm.cons (name, i)).trans List.perm_middle.symm, h.nodup, h.fresh, h.ended, h.grows,
    h.filled⟩

/-- A value is kept for a definition without a function. -/
theorem keepValue {name : String} {i : Nat} (h : Starts c stack P ds m isOk m')
    (hempty : m.values.lookup (name, i) = none) (hfun : ¬ c.HasFunction (name, i))
    (v : Component) : Starts c stack P ds m isOk (m'.keepValue name i v) := by
  refine ⟨h.perm, h.nodup, h.fresh, ?_, ?_, ?_⟩
  · intro d hd
    refine (h.ended d hd).imp_left ?_
    rintro ⟨w, hw⟩
    rw [lookup_keepValue, hw]
    split
    · exact ⟨v, rfl⟩
    · exact ⟨w, rfl⟩
  · intro d w hw
    rw [lookup_keepValue, if_neg]
    · exact h.grows d w hw
    · rintro rfl
      cases hempty.symm.trans hw
  · intro d w hw hd
    rw [lookup_keepValue, if_neg] at hw
    · exact h.filled d w hw hd
    · rintro rfl
      exact hfun hd

/-- The account of a definition with the start of its own function, from the account of
what else happened. -/
theorem own {name : String} {i : Nat} {m'' : Memo}
    (h : Starts c (.define name i :: stack) P ds (m.note (.start name i)) isOk m')
    (hP : P (name, i)) (hfree : .define name i ∉ stack)
    (hempty : m.values.lookup (name, i) = none)
    (hvalues : ∀ d, d ≠ (name, i) → m''.values.lookup d = m'.values.lookup d)
    (htrace : started m''.trace = started m'.trace)
    (hended : (∃ v, m''.values.lookup (name, i) = some v) ∨
      isOk = false ∧ ∀ v, ¬ c.HasValue name (.layer i) v) :
    Starts c stack P ((name, i) :: ds) m isOk m'' := by
  have hne : ∀ d ∈ ds, d ≠ (name, i) := by
    rintro d hd rfl
    exact (h.fresh _ hd).2.1 (List.mem_cons_self ..)
  constructor
  · rw [htrace]
    exact h.perm.trans List.perm_middle
  · exact List.nodup_cons.2 ⟨fun hd => hne _ hd rfl, h.nodup⟩
  · exact List.forall_mem_cons.2 ⟨⟨hP, hfree, hempty⟩, h.of_cons.fresh⟩
  · refine List.forall_mem_cons.2 ⟨hended, fun d hd => ?_⟩
    rw [hvalues d (hne d hd)]
    exact h.ended d hd
  · intro d v hv
    rw [hvalues]
    · exact h.grows d v hv
    · rintro rfl
      cases hempty.symm.trans hv
  · intro d v hv hfun
    by_cases hd : d = (name, i)
    · exact .inr (hd ▸ List.mem_cons_self ..)
    · rw [hvalues d hd] at hv
      exact (h.filled d v hv hfun).imp_right (List.mem_cons_of_mem _)

end Starts

/-- The account of a contribution for the definition of a name. If it has a function which
is started, it is as if that had been noted first of all; if it has one which is not, it
failed before. -/
def StartsFor (c : Composition) (stack : List Frame) (P : String × Nat → Prop)
    (ds : List (String × Nat)) (k : Contribution) (name : String) (i : Nat) (m : Memo)
    (isOk : Bool) (m' : Memo) : Prop :=
  k.HasFunction ∧ Starts c stack P ds (m.note (.start name i)) isOk m' ∨
    (k.HasFunction → isOk = false) ∧ Starts c stack P ds m isOk m'

end Memo

namespace Composition

open Memo

/-- From a sound memo the computation starts no functions but those with the property,
and accounts for them. -/
def Calls {ε α : Type} (c : Composition) (stack : List Frame) (P : String × Nat → Prop)
    (f : Memo → Except ε α × Memo) : Prop :=
  ∀ m, m.IsSound c → ∃ ds, Starts c stack P ds m (f m).1.isOk (f m).2

namespace Calls

variable {ε ε' α β : Type} {c : Composition} {stack : List Frame} {P : String × Nat → Prop}
  {f : Memo → Except ε α × Memo}

/-- A computation that neither keeps values nor starts anything. -/
theorem of_silent (h : ∀ m, (f m).2.values = m.values ∧ started (f m).2.trace = started m.trace) :
    c.Calls stack P f := by
  intro m _
  obtain ⟨hvalues, htrace⟩ := h m
  exact ⟨[], (Starts.refl c stack P m _).congr rfl rfl hvalues htrace⟩

theorem mono {P' : String × Nat → Prop} (hf : c.Calls stack P f) (hP : ∀ d, P d → P' d) :
    c.Calls stack P' f := by
  intro m hm
  obtain ⟨ds, h⟩ := hf m hm
  exact ⟨ds, h.mono hP⟩

theorem of_cons {frame : Frame} (hf : c.Calls (frame :: stack) P f) : c.Calls stack P f := by
  intro m hm
  obtain ⟨ds, h⟩ := hf m hm
  exact ⟨ds, h.of_cons⟩

/-- Only the memo that is left and whether there was a failure count. -/
theorem congr {g : Memo → Except ε' β × Memo} (hf : c.Calls stack P f)
    (hleft : ∀ m, (g m).2 = (f m).2) (hok : ∀ m, (g m).1.isOk = (f m).1.isOk) :
    c.Calls stack P g := by
  intro m hm
  rw [hleft, hok]
  exact hf m hm

theorem onSuccess (k : α → β) (hf : c.Calls stack P f) :
    c.Calls stack P fun m => onSuccess k (f m) := by
  refine hf.congr (fun _ => rfl) fun m => ?_
  show ((f m).1.map k).isOk = (f m).1.isOk
  cases (f m).1 with
  | error e => rfl
  | ok v => rfl

theorem onFailure (k : ε → ε') (hf : c.Calls stack P f) :
    c.Calls stack P fun m => onFailure k (f m) := by
  refine hf.congr (fun _ => rfl) fun m => ?_
  show ((f m).1.mapError k).isOk = (f m).1.isOk
  cases (f m).1 with
  | error e => rfl
  | ok v => rfl

/-- The rule for a computation that goes on after a success of `f` and, after a failure,
at most notes that it ends. -/
theorem andThen {g : Memo → Except ε' β × Memo} {k : α → Memo → Except ε' β × Memo}
    {Q : α → Prop} (hf : c.Calls stack P f) (hfind : Computes (IsSound c) f Q)
    (herror : ∀ e m m', f m = (.error e, m') → (g m).1.isOk = false ∧
      (g m).2.values = m'.values ∧ started (g m).2.trace = started m'.trace)
    (hk : ∀ v m m', f m = (.ok v, m') → g m = k v m') (hok : ∀ v, Q v → c.Calls stack P (k v)) :
    c.Calls stack P g := by
  intro m hm
  obtain ⟨ds, h⟩ := hf m hm
  obtain ⟨a, ha, hQ⟩ := hfind
  obtain ⟨hanswer, hsound⟩ := ha m hm
  cases hrun : f m with
  | mk a' m' =>
      rw [hrun] at h hanswer hsound
      obtain rfl : a' = a := hanswer
      cases a' with
      | error e =>
          obtain ⟨hfailed, hvalues, htrace⟩ := herror e m m' hrun
          refine ⟨ds, (h.weaken fun hok => ?_).congr rfl rfl hvalues htrace⟩
          rw [hfailed] at hok
          exact hok
      | ok v =>
          obtain ⟨ds', h'⟩ := hok v ((hQ v).1 rfl) m' hsound
          rw [hk v m m' hrun]
          exact ⟨ds' ++ ds, h.trans h'⟩

end Calls

end Composition

end LayeredCatalog
