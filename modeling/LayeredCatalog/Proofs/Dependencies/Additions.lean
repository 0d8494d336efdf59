import LayeredCatalog.Component
import LayeredCatalog.Proofs.Dependencies.Walk
import Mathlib.Data.Finset.Card

/-!
# Dependency graphs as additions build them

A graph is built from nothing by a list of additions, each of which mentions a name
or a dependency between two names. The nodes of the graph are the names mentioned,
in the order of their first mention (`nodes_ofAdditions`), so a name keeps the place
that its first mention gave it; the edges are the dependencies mentioned
(`precedes_ofAdditions`).
-/

namespace LayeredCatalog

namespace Dependencies

/-- What is added to a graph at once. -/
inductive Addition where
  | node (name : String)
  | dependency (dependent dependency : String)
deriving DecidableEq, Repr

namespace Addition

def apply (g : Dependencies) : Addition → Dependencies
  | .node n => g.addNode n
  | .dependency n d => g.add n d

/-- The names that an addition mentions, in the order in which they are added. -/
def mentions : Addition → List String
  | .node n => [n]
  | .dependency n d => [d, n]

end Addition

/-- The graph that a list of additions builds. -/
def ofAdditions (additions : List Addition) : Dependencies := additions.foldl Addition.apply {}

/-- The mentions of names in a list of additions. -/
def mentions (additions : List Addition) : List String := additions.flatMap Addition.mentions

/-- A list of additions says that `n` depends on `d`. -/
def Requires (additions : List Addition) (n d : String) : Prop := .dependency n d ∈ additions

theorem nodes_addNode (g : Dependencies) (n : String) :
    (g.addNode n).nodes = addNew g.nodes n := by
  rw [addNode, addNew]
  split
  · rfl
  · rfl

theorem edges_addNode (g : Dependencies) (n : String) : (g.addNode n).edges = g.edges := by
  rw [addNode]
  split
  · rfl
  · rfl

theorem nodes_add (g : Dependencies) (n d : String) :
    (g.add n d).nodes = addAllNew g.nodes [d, n] := by
  rw [addAllNew_cons, addAllNew_cons, addAllNew_nil, ← nodes_addNode, ← nodes_addNode, add]
  split
  · rfl
  · rfl

theorem precedes_addNode {g : Dependencies} {m a b : String} :
    (g.addNode m).Precedes a b ↔ g.Precedes a b := by
  rw [Precedes, edges_addNode, Precedes]

theorem precedes_add {g : Dependencies} {n d a b : String} :
    (g.add n d).Precedes a b ↔ g.Precedes a b ∨ a = d ∧ b = n := by
  rw [add]
  simp only [edges_addNode]
  split
  · next h =>
    rw [Precedes, edges_addNode, edges_addNode, Precedes]
    constructor
    · exact .inl
    · rintro (hab | ⟨rfl, rfl⟩)
      · exact hab
      · exact h
  · simp [Precedes]

theorem nodes_apply (g : Dependencies) (x : Addition) :
    (x.apply g).nodes = addAllNew g.nodes x.mentions := by
  cases x with
  | node n => exact nodes_addNode g n
  | dependency n d => exact nodes_add g n d

theorem precedes_apply {g : Dependencies} {x : Addition} {a b : String} :
    (x.apply g).Precedes a b ↔ g.Precedes a b ∨ x = .dependency b a := by
  cases x with
  | node n => simpa [Addition.apply] using precedes_addNode
  | dependency n d =>
      rw [Addition.apply, precedes_add, Addition.dependency.injEq]
      tauto

/-- The names of a graph are listed in the order of their first mention. -/
theorem nodes_ofAdditions (additions : List Addition) :
    (ofAdditions additions).nodes = addAllNew [] (mentions additions) := by
  have h (l : List Addition) (g : Dependencies) :
      (l.foldl Addition.apply g).nodes = addAllNew g.nodes (mentions l) := by
    induction l generalizing g with
    | nil => rfl
    | cons x l ih =>
        rw [List.foldl_cons, ih, nodes_apply, ← addAllNew_append]
        rfl
  exact h additions {}

/-- The edges of a graph are the dependencies added to it. -/
theorem precedes_ofAdditions {additions : List Addition} {a b : String} :
    (ofAdditions additions).Precedes a b ↔ Requires additions b a := by
  have h (l : List Addition) (g : Dependencies) :
      (l.foldl Addition.apply g).Precedes a b ↔ g.Precedes a b ∨ .dependency b a ∈ l := by
    induction l generalizing g with
    | nil => simp
    | cons x l ih =>
        rw [List.foldl_cons, ih, precedes_apply, List.mem_cons, or_assoc]
        simp only [eq_comm]
  simpa [ofAdditions, Requires, Precedes] using h additions {}

theorem mem_nodes_ofAdditions {additions : List Addition} {n : String} :
    n ∈ (ofAdditions additions).nodes ↔ n ∈ mentions additions := by
  simp [nodes_ofAdditions]

/-- A name is mentioned by itself, as a dependent or as a dependency. -/
theorem mem_mentions_iff {additions : List Addition} {n : String} :
    n ∈ mentions additions ↔
      .node n ∈ additions ∨ ∃ m, Requires additions n m ∨ Requires additions m n := by
  rw [mentions, List.mem_flatMap]
  constructor
  · rintro ⟨x, hx, hn⟩
    cases x with
    | node m =>
        obtain rfl := List.mem_singleton.1 hn
        exact .inl hx
    | dependency a b =>
        rcases List.mem_pair.1 hn with rfl | rfl
        · exact .inr ⟨a, .inr hx⟩
        · exact .inr ⟨b, .inl hx⟩
  · rintro (hx | ⟨m, hx | hx⟩)
    · exact ⟨_, hx, by simp [Addition.mentions]⟩
    · exact ⟨_, hx, by simp [Addition.mentions]⟩
    · exact ⟨_, hx, by simp [Addition.mentions]⟩

theorem isSimple_ofAdditions (additions : List Addition) : (ofAdditions additions).IsSimple := by
  refine ⟨?_, ?_, ?_⟩
  · rw [nodes_ofAdditions]
    exact nodup_addAllNew List.nodup_nil _
  · intro a b h
    rw [precedes_ofAdditions] at h
    exact mem_nodes_ofAdditions.2 (mem_mentions_iff.2 (.inr ⟨b, .inr h⟩))
  · intro a b h
    rw [precedes_ofAdditions] at h
    exact mem_nodes_ofAdditions.2 (mem_mentions_iff.2 (.inr ⟨a, .inl h⟩))

theorem length_addAllNew_nil (names : List String) :
    (addAllNew [] names).length = names.toFinset.card := by
  rw [← List.toFinset_card_of_nodup (nodup_addAllNew List.nodup_nil names)]
  congr 1
  ext n
  simp

theorem length_nodes_ofAdditions (additions : List Addition) :
    (ofAdditions additions).nodes.length = (mentions additions).toFinset.card := by
  rw [nodes_ofAdditions, length_addAllNew_nil]

theorem index?_eq_some_iff {g : Dependencies} (hg : g.IsSimple) {n : String} {i : Nat} :
    g.index? n = some i ↔ g.nodes[i]? = some n := by
  rw [index?, List.idxOf?_eq_some_iff, List.getElem?_eq_some_iff]
  constructor
  · rintro ⟨hi, hn, -⟩
    exact ⟨hi, hn⟩
  · rintro ⟨hi, rfl⟩
    refine ⟨hi, rfl, ?_⟩
    intro j hj heq
    exact absurd ((hg.nodup.getElem_inj_iff).1 heq) (Nat.ne_of_lt hj)

/-- A name is numbered by how many others are mentioned before it is. -/
theorem index?_ofAdditions {additions : List Addition} {before after : List String} {n : String}
    (h : mentions additions = before ++ n :: after) (hn : n ∉ before) :
    (ofAdditions additions).index? n = some before.toFinset.card := by
  rw [index?_eq_some_iff (isSimple_ofAdditions additions), nodes_ofAdditions, h,
    addAllNew_append, addAllNew_cons]
  have hfirst : addNew (addAllNew [] before) n = addAllNew [] before ++ [n] := by
    rw [addNew, if_neg (by simpa using hn)]
  obtain ⟨rest, hrest⟩ := prefix_addAllNew (addNew (addAllNew [] before) n) after
  rw [← hrest, hfirst, ← length_addAllNew_nil]
  simp

theorem index?_ofAdditions_eq_some_iff {additions : List Addition} {n : String} {i : Nat} :
    (ofAdditions additions).index? n = some i ↔
      ∃ before after, mentions additions = before ++ n :: after ∧ n ∉ before ∧
        i = before.toFinset.card := by
  constructor
  · intro h
    have hnode := (index?_eq_some_iff (isSimple_ofAdditions additions)).1 h
    have hmem : n ∈ mentions additions := mem_nodes_ofAdditions.1 (List.mem_of_getElem? hnode)
    obtain ⟨before, after, hsplit, hn⟩ := List.eq_append_cons_of_mem hmem
    rw [index?_ofAdditions hsplit hn] at h
    exact ⟨before, after, hsplit, hn, (Option.some.inj h).symm⟩
  · rintro ⟨before, after, hsplit, hn, rfl⟩
    exact index?_ofAdditions hsplit hn

/-- Later additions do not move a name. -/
theorem index?_ofAdditions_append {additions : List Addition} {n : String} {i : Nat}
    (h : (ofAdditions additions).index? n = some i) (later : List Addition) :
    (ofAdditions (additions ++ later)).index? n = some i := by
  rw [index?_eq_some_iff (isSimple_ofAdditions _)] at h ⊢
  have hinit : (ofAdditions additions).nodes <+: (ofAdditions (additions ++ later)).nodes := by
    rw [nodes_ofAdditions, nodes_ofAdditions, mentions, mentions, List.flatMap_append,
      addAllNew_append]
    exact prefix_addAllNew _ _
  obtain ⟨rest, hrest⟩ := hinit
  rw [← hrest, List.getElem?_append_left]
  · exact h
  · exact (List.getElem?_eq_some_iff.1 h).1

end Dependencies

end LayeredCatalog
