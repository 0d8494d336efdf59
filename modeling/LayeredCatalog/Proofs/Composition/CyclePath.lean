import LayeredCatalog.Composition.Evaluation
import LayeredCatalog.Proofs.Cycle
import Mathlib.Data.List.Destutter
import Mathlib.Data.List.TakeWhile

/-!
# The path of a cycle

The path that a cycle is reported with is read off the stack: the frames from the
one that came back, outermost first, and that frame once more, each by its name
alone and equal neighbours only once. Here the frames are what a function `frame`
makes of the elements of some type, definitions or names. If each element on the
stack is related to the one above it, the path is that of a closed walk of this
relation (`cyclePath_map_append` and `isChain_closedWalk`).

`closedPath` is the last part of that reading, from the walk to the path. It keeps
the ends of the walk, leaves no equal neighbours but in `[name, name]`, and each
of its steps comes from a step of the walk.
-/

namespace LayeredCatalog

theorem collapse_eq_destutter (l : List String) : collapse l = l.destutter (· ≠ ·) := by
  induction l with
  | nil => rfl
  | cons a l ih =>
      cases l with
      | nil => rfl
      | cons b r =>
          rw [collapse, List.destutter_cons_cons]
          by_cases h : a = b
          · rw [if_pos h, if_neg (not_not.2 h), h, ih, List.destutter_cons']
          · rw [if_neg h, if_pos h, ih, List.destutter_cons']

theorem isChain_ne_collapse (l : List String) : (collapse l).IsChain (· ≠ ·) := by
  rw [collapse_eq_destutter]
  exact List.isChain_destutter _ _

theorem head?_collapse (l : List String) : (collapse l).head? = l.head? := by
  induction l with
  | nil => rfl
  | cons a l ih =>
      cases l with
      | nil => rfl
      | cons b r =>
          rw [collapse]
          split
          · next h => rw [ih, h]; rfl
          · rfl

theorem getLast?_collapse (l : List String) : (collapse l).getLast? = l.getLast? := by
  induction l with
  | nil => rfl
  | cons a l ih =>
      cases l with
      | nil => rfl
      | cons b r =>
          have hlast : (a :: b :: r).getLast? = (b :: r).getLast? := List.getLast?_cons_cons
          rw [collapse, hlast]
          split
          · exact ih
          · rw [List.getLast?_cons, ih, List.getLast?_cons]
            rfl

/-- Neighbours in a collapsed walk are the names of neighbours in the walk. -/
theorem isChain_collapse_map {α : Type*} {R : α → α → Prop} {f : α → String} {l : List α}
    (h : l.IsChain R) :
    (collapse (l.map f)).IsChain fun x y => ∃ a b, R a b ∧ f a = x ∧ f b = y := by
  induction l with
  | nil => exact .nil
  | cons a l ih =>
      cases l with
      | nil => exact .singleton _
      | cons b r =>
          obtain ⟨hab, hr⟩ := List.isChain_cons_cons.1 h
          rw [List.map_cons, List.map_cons, collapse]
          split
          · exact ih hr
          · refine List.isChain_cons.2 ⟨?_, ih hr⟩
            intro y hy
            rw [← List.map_cons, head?_collapse] at hy
            exact ⟨a, b, hab, rfl, Option.some.inj hy⟩

theorem eq_of_collapse_eq_singleton {l : List String} {name : String}
    (h : collapse l = [name]) : ∀ x ∈ l, x = name := by
  induction l with
  | nil => simp
  | cons a l ih =>
      cases l with
      | nil => simpa [collapse] using h
      | cons b r =>
          rw [collapse] at h
          split at h
          · next hab =>
            have hr := ih h
            refine List.forall_mem_cons.2 ⟨?_, hr⟩
            exact hab.trans (hr b (List.mem_cons_self ..))
          · have hhead := head?_collapse (b :: r)
            rw [(List.cons.inj h).2] at hhead
            cases hhead

/-- The path that a closed walk is reported with, from the names on it. -/
def closedPath (names : List String) : List String :=
  match collapse names with
  | [name] => [name, name]
  | path => path

section ClosedPath

variable {name : String}

theorem closedPath_cases {names : List String} (hhead : names.head? = some name) :
    (collapse names = [name] ∧ closedPath names = [name, name]) ∨
      (2 ≤ (collapse names).length ∧ closedPath names = collapse names) := by
  have hhead' := (head?_collapse names).trans hhead
  rw [closedPath]
  cases h : collapse names with
  | nil => rw [h] at hhead'; cases hhead'
  | cons a r =>
      rw [h] at hhead'
      obtain rfl := Option.some.inj hhead'
      cases r with
      | nil => exact .inl ⟨rfl, rfl⟩
      | cons b r => exact .inr ⟨by simp, rfl⟩

/-- A path that is reported leads from a name back to it, through neighbours that
differ unless the name is its own neighbour. -/
theorem closedPath_isClosed {names : List String} (hhead : names.head? = some name)
    (hlast : names.getLast? = some name) :
    2 ≤ (closedPath names).length ∧ (closedPath names).head? = some name ∧
      (closedPath names).getLast? = some name ∧
      (closedPath names = [name, name] ∨ (closedPath names).IsChain (· ≠ ·)) := by
  rcases closedPath_cases hhead with ⟨-, hpath⟩ | ⟨hlength, hpath⟩
  · rw [hpath]
    exact ⟨le_rfl, rfl, rfl, .inl rfl⟩
  · rw [hpath]
    exact ⟨hlength, (head?_collapse names).trans hhead, (getLast?_collapse names).trans hlast,
      .inr (isChain_ne_collapse names)⟩

/-- A walk of different names that returns to the first one is its own path. -/
theorem closedPath_of_nodup {names : List String} (h : (name :: names).Nodup) :
    closedPath (name :: names ++ [name]) = name :: names ++ [name] := by
  cases names with
  | nil => simp [closedPath, collapse]
  | cons next rest =>
      have hne : (name :: next :: rest ++ [name]).IsChain (· ≠ ·) := by
        refine List.isChain_append.2 ⟨h.isChain, .singleton _, ?_⟩
        intro x hx y hy
        obtain rfl := Option.some.inj hy
        rintro rfl
        rw [List.getLast?_cons_cons] at hx
        exact (List.nodup_cons.1 h).1 (List.mem_of_getLast? hx)
      rw [closedPath, collapse_eq_destutter, List.destutter_of_isChain _ _ hne]
      rfl

/-- A walk back to the first element, as a path of names: each step between different
names comes from a step of the walk, and if one name is all there is to see then the
whole walk is of that name. -/
theorem closedPath_of_isChain {α : Type*} {R : α → α → Prop} {f : α → String} {a : α}
    {l : List α} (h : (a :: l ++ [a]).IsChain R) :
    (closedPath ((a :: l ++ [a]).map f)).IsChain
        (fun x y => x ≠ y → ∃ b d, R b d ∧ f b = x ∧ f d = y) ∧
      (closedPath ((a :: l ++ [a]).map f) = [f a, f a] →
        Relation.TransGen (fun b d => R b d ∧ f d = f a) a a) := by
  have hhead : ((a :: l ++ [a]).map f).head? = some (f a) := rfl
  rcases closedPath_cases hhead with ⟨hone, hpath⟩ | ⟨-, hpath⟩
  · rw [hpath]
    refine ⟨List.isChain_pair.2 fun hne => absurd rfl hne, fun _ => ?_⟩
    refine transGen_of_isChain (l := l) (h.imp_of_mem_imp ?_)
    intro b d _ hd hstep
    exact ⟨hstep, eq_of_collapse_eq_singleton hone (f d) (List.mem_map_of_mem hd)⟩
  · rw [hpath]
    constructor
    · refine (isChain_collapse_map h).imp ?_
      intro x y hstep _
      exact hstep
    · intro hpair
      have hne := isChain_ne_collapse ((a :: l ++ [a]).map f)
      rw [hpair, List.isChain_pair] at hne
      exact absurd rfl hne

end ClosedPath

/-- A frame that is met again has the part of the stack above it before it. -/
theorem takeWhile_ne_append_prefix {α : Type*} [DecidableEq α] {a : α} {l : List α}
    (h : a ∈ l) : l.takeWhile (· ≠ a) ++ [a] <+: l := by
  induction l with
  | nil => cases h
  | cons b l ih =>
      by_cases hb : b = a
      · subst hb
        simp
      · have hmem : a ∈ l := (List.mem_cons.1 h).resolve_left (Ne.symm hb)
        rw [List.takeWhile_cons_of_pos (by simpa using hb), List.cons_append]
        exact List.cons_prefix_cons.2 ⟨rfl, ih hmem⟩

/-- The walk from an element of the stack back to it, outermost first. -/
def closedWalk {α : Type*} [DecidableEq α] (l : List α) (a : α) : List α :=
  a :: (l.takeWhile (· ≠ a)).reverse ++ [a]

theorem isChain_closedWalk {α : Type*} [DecidableEq α] {R : α → α → Prop} {a : α} {l : List α}
    (ha : a ∈ l) (h : (a :: l).IsChain fun x y => R y x) : (closedWalk l a).IsChain R := by
  have hprefix : (a :: l.takeWhile (· ≠ a) ++ [a]).IsChain fun x y => R y x :=
    h.prefix (List.cons_prefix_cons.2 ⟨rfl, takeWhile_ne_append_prefix ha⟩)
  have hwalk : (closedWalk l a).reverse = a :: l.takeWhile (· ≠ a) ++ [a] := by
    simp [closedWalk]
  rw [← hwalk, List.isChain_reverse] at hprefix
  exact hprefix

/-- The walk meets only its ends twice. -/
theorem nodup_closedWalk {α : Type*} [DecidableEq α] {a : α} {l : List α} (h : l.Nodup) :
    (a :: (l.takeWhile (· ≠ a)).reverse).Nodup := by
  refine List.nodup_cons.2 ⟨?_, List.nodup_reverse.2 (h.sublist (List.takeWhile_sublist _))⟩
  intro hmem
  simpa using List.mem_takeWhile_imp (List.mem_reverse.1 hmem)

/-- The path of a cycle is that of the walk from the frame back to it. -/
theorem cyclePath_map_append {α : Type*} [DecidableEq α] {frame : α → Frame}
    (hframe : Function.Injective frame) {l : List α} {a : α} (ha : a ∈ l)
    (rest : List Frame) :
    cyclePath (l.map frame ++ rest) (frame a) =
      closedPath ((closedWalk l a).map fun x => (frame x).name) := by
  have hinner : (l.map frame ++ rest).takeWhile (· ≠ frame a) =
      (l.takeWhile (· ≠ a)).map frame := by
    induction l with
    | nil => cases ha
    | cons b l ih =>
        by_cases hb : b = a
        · simp [hb]
        · have hmem : a ∈ l := (List.mem_cons.1 ha).resolve_left (Ne.symm hb)
          have hne : frame b ≠ frame a := fun h => hb (hframe h)
          rw [List.map_cons, List.cons_append, List.takeWhile_cons_of_pos (by simpa using hne),
            List.takeWhile_cons_of_pos (by simpa using hb), ih hmem, List.map_cons]
  have hnames : (frame a :: ((l.takeWhile (· ≠ a)).map frame).reverse ++ [frame a]).map
      Frame.name = (closedWalk l a).map fun x => (frame x).name := by
    simp [closedWalk, Function.comp_def]
  rw [cyclePath, hinner, hnames]
  rfl

end LayeredCatalog
