import LayeredCatalog.Dependencies
import Mathlib.Data.List.Basic
import Mathlib.Logic.Relation

/-!
# What the walk of a dependency graph leaves

`g.Precedes a b` says that `b` depends on `a` by an edge of the graph. The walk goes
along these edges. The names it has entered and not yet left lie on one path, so a
name that is left while a dependent of it is still open closes a cycle with it. That
is what `Walked` keeps through the walk, besides the bookkeeping: where an edge does
not lead from an earlier name of the list to a later one, a path leads back
(`walk_eq_ok`).
-/

namespace LayeredCatalog

namespace Dependencies

open scoped List

/-- `b` depends on `a`. -/
def Precedes (g : Dependencies) (a b : String) : Prop := (a, b) ∈ g.edges

theorem mem_dependents {g : Dependencies} {a b : String} :
    b ∈ g.dependents a ↔ g.Precedes a b := by
  simp [dependents, Precedes]

theorem mem_dependencies {g : Dependencies} {a b : String} :
    a ∈ g.dependencies b ↔ g.Precedes a b := by
  simp [dependencies, Precedes]

/-- Every name stands once, and every edge joins two names of the graph. -/
structure IsSimple (g : Dependencies) : Prop where
  nodup : g.nodes.Nodup
  source_mem : ∀ a b, g.Precedes a b → a ∈ g.nodes
  target_mem : ∀ a b, g.Precedes a b → b ∈ g.nodes

def Step.name : Step → String
  | .enter n => n
  | .leave n => n

/-- The names that were entered and are still to be left, the innermost first. -/
def opened : List Step → List String
  | [] => []
  | .enter _ :: agenda => opened agenda
  | .leave n :: agenda => n :: opened agenda

theorem mem_opened {agenda : List Step} {n : String} :
    n ∈ opened agenda ↔ .leave n ∈ agenda := by
  induction agenda with
  | nil => simp [opened]
  | cons step agenda ih =>
      cases step with
      | enter m => simp [opened, ih]
      | leave m => simp [opened, ih]

theorem opened_enters_append (names : List String) (agenda : List Step) :
    opened (names.map .enter ++ agenda) = opened agenda := by
  induction names with
  | nil => rfl
  | cons n names ih => simpa [opened] using ih

/-- A state of the walk as it can arise. -/
structure Walked (g : Dependencies) (agenda : List Step) (seen left : List String) : Prop where
  nodup : (opened agenda ++ left).Nodup
  mem_nodes : ∀ n ∈ opened agenda ++ left, n ∈ g.nodes
  mem_seen : ∀ n, n ∈ seen ↔ n ∈ opened agenda ++ left
  /-- No name is forgotten. -/
  scheduled : ∀ n ∈ g.nodes, n ∈ seen ∨ .enter n ∈ agenda
  /-- Whatever is to be done before an open name is left can be reached from it. -/
  reached : agenda.Pairwise fun step later =>
    ∀ n, later = .leave n → Relation.ReflTransGen g.Precedes n step.name
  /-- The dependents of an open name are entered before it is left. -/
  pending : ∀ n d, .leave n ∈ agenda → g.Precedes n d →
    d ∈ seen ∨ [.enter d, .leave n] <+ agenda
  /-- A dependent of a name in the list stands behind it or leads back to it. -/
  placed : ∀ n d, n ∈ left → g.Precedes n d →
    [n, d] <+ left ∨ Relation.ReflTransGen g.Precedes d n

namespace Walked

variable {g : Dependencies} {agenda : List Step} {seen left : List String} {n : String}

theorem start (g : Dependencies) : Walked g (g.nodes.map .enter) [] [] := by
  have hopened : opened (g.nodes.map .enter) = [] := by
    simpa [opened] using opened_enters_append g.nodes []
  refine ⟨?_, ?_, ?_, ?_, ?_, ?_, ?_⟩
  · simp [hopened]
  · simp [hopened]
  · simp [hopened]
  · simp
  · rw [List.pairwise_map]
    exact List.pairwise_of_forall (by simp)
  · simp
  · simp

/-- Leaving a name. Its dependents were all entered. Those already left stand behind
it, and from each of those still open a path leads to it. -/
theorem leave (h : Walked g (.leave n :: agenda) seen left) :
    Walked g agenda seen (n :: left) := by
  have hnodup := h.nodup
  simp only [opened, List.cons_append, List.nodup_cons] at hnodup
  have hn : .leave n ∉ agenda := fun hmem =>
    hnodup.1 (List.mem_append_left _ (mem_opened.2 hmem))
  have hperm : (opened (.leave n :: agenda) ++ left).Perm (opened agenda ++ n :: left) :=
    List.perm_middle.symm
  have hreached := List.pairwise_cons.1 h.reached
  refine ⟨hperm.nodup_iff.1 h.nodup, ?_, ?_, ?_, hreached.2, ?_, ?_⟩
  · intro m hm
    exact h.mem_nodes m (hperm.mem_iff.2 hm)
  · intro m
    rw [h.mem_seen, hperm.mem_iff]
  · intro m hm
    simpa using h.scheduled m hm
  · intro m d hm hd
    have := h.pending m d (List.mem_cons_of_mem _ hm) hd
    simpa [List.sublist_cons_iff] using this
  · intro m d hm hd
    rcases List.mem_cons.1 hm with rfl | hm
    · -- Nothing stands before this step, so the dependent is not still to be entered.
      have hseen : d ∈ seen := by
        have := h.pending m d (List.mem_cons_self ..) hd
        rcases this with hseen | hsub
        · exact hseen
        · have hsub : [.enter d, .leave m] <+ agenda := by
            simpa [List.sublist_cons_iff] using hsub
          exact absurd (hsub.subset (by simp)) hn
      rw [h.mem_seen, hperm.mem_iff, List.mem_append, List.mem_cons] at hseen
      rcases hseen with hopen | rfl | hleft
      · exact .inr (hreached.1 _ (mem_opened.1 hopen) d rfl)
      · exact .inr .refl
      · exact .inl (by simpa using hleft)
    · rcases h.placed m d hm hd with hsub | hback
      · exact .inl (hsub.cons _)
      · exact .inr hback

/-- Passing over a name that was entered before, or that is not in the graph. -/
theorem skip (hg : g.IsSimple) (h : Walked g (.enter n :: agenda) seen left)
    (hn : n ∈ g.nodes → n ∈ seen) : Walked g agenda seen left := by
  refine ⟨h.nodup, h.mem_nodes, h.mem_seen, ?_, (List.pairwise_cons.1 h.reached).2, ?_,
    h.placed⟩
  · intro m hm
    rcases h.scheduled m hm with hseen | hmem
    · exact .inl hseen
    · rcases List.mem_cons.1 hmem with heq | hmem
      · cases heq
        exact .inl (hn hm)
      · exact .inr hmem
  · intro m d hm hd
    rcases h.pending m d (List.mem_cons_of_mem _ hm) hd with hseen | hsub
    · exact .inl hseen
    · rw [List.sublist_cons_iff] at hsub
      rcases hsub with hsub | ⟨_, heq, -⟩
      · exact .inr hsub
      · cases heq
        exact .inl (hn (hg.target_mem m n hd))

/-- Entering a name: its dependents are to be entered before it is left. -/
theorem enter (h : Walked g (.enter n :: agenda) seen left) (hn : n ∈ g.nodes)
    (hseen : n ∉ seen) :
    Walked g ((g.dependents n).map .enter ++ .leave n :: agenda) (n :: seen) left := by
  have hopened : opened ((g.dependents n).map .enter ++ .leave n :: agenda) =
      n :: opened (.enter n :: agenda) := by
    rw [opened_enters_append]
    rfl
  have hreached := List.pairwise_cons.1 h.reached
  refine ⟨?_, ?_, ?_, ?_, ?_, ?_, h.placed⟩
  · rw [hopened]
    exact List.nodup_cons.2 ⟨fun hmem => hseen ((h.mem_seen n).2 hmem), h.nodup⟩
  · rw [hopened]
    exact List.forall_mem_cons.2 ⟨hn, h.mem_nodes⟩
  · intro m
    rw [hopened, List.cons_append, List.mem_cons, List.mem_cons, h.mem_seen]
  · intro m hm
    have := h.scheduled m hm
    simp only [List.mem_cons, Step.enter.injEq] at this
    simp only [List.mem_cons, List.mem_append]
    tauto
  · have hfrom : ∀ later ∈ agenda, ∀ m, later = .leave m →
        Relation.ReflTransGen g.Precedes m n := fun later hmem m heq =>
      hreached.1 later hmem m heq
    refine List.pairwise_append.2 ⟨?_, List.pairwise_cons.2 ⟨hfrom, hreached.2⟩, ?_⟩
    · rw [List.pairwise_map]
      exact List.pairwise_of_forall (by simp)
    · -- A path to the entered name goes on to its dependents.
      intro step hstep later hlater m heq
      obtain ⟨d, hd, rfl⟩ := List.mem_map.1 hstep
      have hedge : g.Precedes n d := mem_dependents.1 hd
      rcases List.mem_cons.1 hlater with rfl | hlater
      · cases heq
        exact .single hedge
      · exact (hfrom later hlater m heq).tail hedge
  · intro m d hm hd
    have hm' : m = n ∨ .leave m ∈ agenda := by simpa using hm
    rcases hm' with rfl | hm'
    · have hfirst : [Step.enter d] <+ (g.dependents m).map .enter := by
        simpa using mem_dependents.2 hd
      exact .inr (hfirst.append (by simp : [Step.leave m] <+ .leave m :: agenda))
    · rcases h.pending m d (List.mem_cons_of_mem _ hm') hd with hmem | hsub
      · exact .inl (List.mem_cons_of_mem _ hmem)
      · rw [List.sublist_cons_iff] at hsub
        rcases hsub with hsub | ⟨_, heq, -⟩
        · exact .inr ((hsub.cons _).trans (List.sublist_append_right ..))
        · cases heq
          exact .inl (List.mem_cons_self ..)

/-- A walk that ends leaves a state with nothing to be done. -/
theorem walk (hg : g.IsSimple) {l : List String} (h : Walked g agenda seen left)
    (hl : g.walk agenda seen left = .ok l) : ∃ seen, Walked g [] seen l := by
  induction agenda, seen, left using walk.induct g with
  | case1 seen left =>
      rw [Dependencies.walk] at hl
      cases hl
      exact ⟨seen, h⟩
  | case2 n agenda seen left ih =>
      rw [Dependencies.walk] at hl
      exact ih h.leave hl
  | case3 n agenda seen left hn hself =>
      rw [Dependencies.walk, dif_pos hn, if_pos hself] at hl
      cases hl
  | case4 n agenda seen left hn hself ih =>
      rw [Dependencies.walk, dif_pos hn, if_neg hself] at hl
      exact ih (h.enter hn.1 hn.2) hl
  | case5 n agenda seen left hn ih =>
      rw [Dependencies.walk, dif_neg hn] at hl
      exact ih (h.skip hg (by tauto)) hl

end Walked

/-- A walk that does not end stops at a name that depends on itself. -/
theorem walk_eq_error {g : Dependencies} {agenda : List Step} {seen left : List String}
    {n : String} (h : g.walk agenda seen left = .error n) : n ∈ g.nodes ∧ g.Precedes n n := by
  induction agenda, seen, left using walk.induct g with
  | case1 seen left =>
      rw [walk] at h
      cases h
  | case2 m agenda seen left ih =>
      rw [walk] at h
      exact ih h
  | case3 m agenda seen left hm hself =>
      rw [walk, dif_pos hm, if_pos hself] at h
      cases h
      exact ⟨hm.1, mem_dependents.1 hself⟩
  | case4 m agenda seen left hm hself ih =>
      rw [walk, dif_pos hm, if_neg hself] at h
      exact ih h
  | case5 m agenda seen left hm ih =>
      rw [walk, dif_neg hm] at h
      exact ih h

/-- The walk over all names lists each of them once. An edge leads from an earlier name
to a later one, or a path leads back along it. -/
theorem walk_eq_ok {g : Dependencies} (hg : g.IsSimple) {l : List String}
    (h : g.walk (g.nodes.map .enter) [] [] = .ok l) :
    l.Perm g.nodes ∧ ∀ a b, g.Precedes a b →
      [a, b] <+ l ∨ Relation.ReflTransGen g.Precedes b a := by
  obtain ⟨seen, hend⟩ := (Walked.start g).walk hg h
  have hmem : ∀ n, n ∈ l ↔ n ∈ g.nodes := by
    intro n
    constructor
    · exact hend.mem_nodes n
    · intro hn
      have := hend.scheduled n hn
      simpa [hend.mem_seen, opened] using this
  refine ⟨(List.perm_ext_iff_of_nodup hend.nodup hg.nodup).2 hmem, ?_⟩
  intro a b hab
  exact hend.placed a b ((hmem a).2 (hg.source_mem a b hab)) hab

end Dependencies

end LayeredCatalog
