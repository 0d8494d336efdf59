/-!
# Dependency graphs and their order

A graph of names and of dependencies between them, both kept in the order in
which they were first added. `Dependencies.order` lists the names so that each
one stands behind everything it depends on, or finds a name that depends on
itself.

The order is the reverse of the order in which a depth-first walk along the
edges, from a name to its dependents, leaves the names. The walk keeps an agenda
of steps instead of recurring. A walk alone does not notice every cycle, so the
list is checked afterwards: the first name that has a dependency behind itself
shows a dependency on a cycle.
-/

namespace LayeredCatalog

/-- A graph of dependencies between names. -/
structure Dependencies where
  /-- The names, in the order of their first mention. -/
  nodes : List String := []
  /-- The pairs of a dependency and its dependent, in the order in which they
  were first added. -/
  edges : List (String × String) := []
deriving DecidableEq, Inhabited

namespace Dependencies

/-- Adds a name, unless the graph has it. -/
def addNode (g : Dependencies) (n : String) : Dependencies :=
  if n ∈ g.nodes then g else { g with nodes := g.nodes ++ [n] }

/-- Adds a dependency, and the names that it is between, unless the graph has it.
The name depended on is added first. -/
def add (g : Dependencies) (dependent dependency : String) : Dependencies :=
  let g := (g.addNode dependency).addNode dependent
  if (dependency, dependent) ∈ g.edges then g
  else { g with edges := g.edges ++ [(dependency, dependent)] }

/-- The place of a name in the order of first mention. -/
def index? (g : Dependencies) (n : String) : Option Nat := g.nodes.idxOf? n

/-- The names that depend on `n`. -/
def dependents (g : Dependencies) (n : String) : List String :=
  (g.edges.filter fun e => e.1 = n).map (·.2)

/-- The names that `n` depends on. -/
def dependencies (g : Dependencies) (n : String) : List String :=
  (g.edges.filter fun e => e.2 = n).map (·.1)

/-- A step of the walk. -/
inductive Step where
  /-- Visit a name, unless it was visited before. -/
  | enter (n : String)
  /-- Leave a name, all of whose dependents have been left. -/
  | leave (n : String)

theorem length_filter_not_mem_lt {l seen : List String} {n : String} (hn : n ∈ l)
    (hs : n ∉ seen) :
    (l.filter (· ∉ n :: seen)).length < (l.filter (· ∉ seen)).length := by
  have h : l.filter (· ∉ n :: seen) = (l.filter (· ∉ seen)).filter (· ≠ n) := by
    rw [List.filter_filter]
    congr 1
    funext x
    simp [List.mem_cons]
  rw [h]
  refine Nat.lt_of_le_of_ne (List.length_filter_le ..) fun he => ?_
  rw [List.length_filter_eq_length_iff] at he
  have := he n (List.mem_filter.2 ⟨hn, by simpa using hs⟩)
  simp at this

/-- Walks along the edges. The walk ends at a name that depends on itself
directly; otherwise it returns the names left, the last one first. -/
def walk (g : Dependencies) : List Step → (seen left : List String) →
    Except String (List String)
  | [], _, left => .ok left
  | .leave n :: agenda, seen, left => walk g agenda seen (n :: left)
  | .enter n :: agenda, seen, left =>
    if _h : n ∈ g.nodes ∧ n ∉ seen then
      if n ∈ g.dependents n then .error n
      else walk g ((g.dependents n).map .enter ++ .leave n :: agenda) (n :: seen) left
    else walk g agenda seen left
termination_by agenda seen => ((g.nodes.filter (· ∉ seen)).length, agenda.length)
decreasing_by
  · exact .right _ (by simp)
  · exact .left _ _ (length_filter_not_mem_lt _h.1 _h.2)
  · exact .right _ (by simp)

/-- The first dependency that a list of names does not put before its
dependent. -/
def misplaced? (g : Dependencies) : (before rest : List String) → Option String
  | _, [] => none
  | before, n :: rest =>
    match (g.dependencies n).find? (· ∉ before) with
    | some dependency => some dependency
    | none => misplaced? g (n :: before) rest

/-- The names, each behind everything it depends on, or a name on a cycle. -/
def order (g : Dependencies) : Except String (List String) :=
  match g.walk (g.nodes.map .enter) [] [] with
  | .error n => .error n
  | .ok left =>
    match g.misplaced? [] left with
    | some n => .error n
    | none => .ok left

end Dependencies

end LayeredCatalog
