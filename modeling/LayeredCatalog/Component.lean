import LayeredCatalog.Reference
import LayeredCatalog.Table
/-!
# Components

A component is a named and versioned unit that something can build: which
builder it needs, what fills its inputs, its parameters, and three lists that
say how the builder's standard course is changed. The lists are kept without
repeats by the functions that add to them (`addNew`), though a component read
from a document may hold any list.
-/

namespace LayeredCatalog

/-- A buildable unit of a catalog. -/
structure Component where
  /-- The name under which a catalog holds the component. -/
  name : String := ""
  version : String := ""
  builder : String := ""
  inputs : Table String InputRef := .empty
  /-- Constants handed to the build function. -/
  params : Table String String := .empty
  /-- Patches applied before building, in order. -/
  patches : List String := []
  excludedTests : List String := []
  /-- Steps that run after building, in order. -/
  postBuild : List String := []
deriving DecidableEq, Inhabited

/-- Appends `x` unless the list has it. -/
def addNew (l : List String) (x : String) : List String := if x ∈ l then l else l ++ [x]

/-- Appends, in order, the items that the list does not have yet. -/
def addAllNew (l items : List String) : List String := items.foldl addNew l

@[simp] theorem addAllNew_nil (l : List String) : addAllNew l [] = l := rfl

@[simp] theorem addAllNew_cons (l : List String) (x : String) (items : List String) :
    addAllNew l (x :: items) = addAllNew (addNew l x) items := rfl

theorem addAllNew_append (l items more : List String) :
    addAllNew l (items ++ more) = addAllNew (addAllNew l items) more :=
  List.foldl_append

@[simp] theorem mem_addNew {l : List String} {x y : String} :
    y ∈ addNew l x ↔ y ∈ l ∨ y = x := by
  rw [addNew]
  split
  · next h =>
    constructor
    · exact .inl
    · rintro (hy | rfl)
      · exact hy
      · exact h
  · simp

@[simp] theorem mem_addAllNew {l items : List String} {y : String} :
    y ∈ addAllNew l items ↔ y ∈ l ∨ y ∈ items := by
  induction items generalizing l with
  | nil => simp
  | cons x items ih => rw [addAllNew_cons, ih, mem_addNew, List.mem_cons, or_assoc]

theorem nodup_addNew {l : List String} (h : l.Nodup) (x : String) : (addNew l x).Nodup := by
  rw [addNew]
  split
  · exact h
  · next hx =>
    refine List.nodup_append.2 ⟨h, List.nodup_cons.2 ⟨List.not_mem_nil, List.nodup_nil⟩, ?_⟩
    intro y hy z hz heq
    rw [List.mem_singleton] at hz
    exact hx (hz ▸ heq ▸ hy)

theorem nodup_addAllNew {l : List String} (h : l.Nodup) (items : List String) :
    (addAllNew l items).Nodup := by
  induction items generalizing l with
  | nil => exact h
  | cons x items ih => exact ih (nodup_addNew h x)

/-- What is there stays in its place. -/
theorem prefix_addAllNew (l items : List String) : l <+: addAllNew l items := by
  induction items generalizing l with
  | nil => exact List.prefix_refl l
  | cons x items ih =>
    refine List.IsPrefix.trans ?_ (ih (addNew l x))
    rw [addNew]
    split
    · exact List.prefix_refl l
    · exact List.prefix_append l [x]

/-- What is appended is new, and nothing is appended twice. -/
theorem exists_addAllNew_eq_append (l items : List String) :
    ∃ added, addAllNew l items = l ++ added ∧ added.Nodup ∧ ∀ x ∈ added, x ∉ l ∧ x ∈ items := by
  induction items generalizing l with
  | nil => exact ⟨[], by simp⟩
  | cons x items ih =>
    rw [addAllNew_cons, addNew]
    split
    · obtain ⟨added, heq, hnodup, hnew⟩ := ih l
      exact ⟨added, heq, hnodup, fun y hy => ⟨(hnew y hy).1, .tail x (hnew y hy).2⟩⟩
    · next hx =>
      obtain ⟨added, heq, hnodup, hnew⟩ := ih (l ++ [x])
      refine ⟨x :: added, by rw [heq, List.append_assoc]; rfl, ?_, ?_⟩
      · refine List.nodup_cons.2 ⟨fun hmem => ?_, hnodup⟩
        exact (hnew x hmem).1 (by simp)
      · intro y hy
        rcases List.mem_cons.1 hy with rfl | hy
        · exact ⟨hx, by simp⟩
        · exact ⟨fun hmem => (hnew y hy).1 (by simp [hmem]), .tail x (hnew y hy).2⟩

namespace Component

/-- Fills an input slot with a component of the catalog. -/
def setInput (c : Component) (slot target : String) : Component :=
  { c with inputs := c.inputs.insert slot (.catalog target) }

/-- Fills an input slot with something from outside the catalog. -/
def setExternalInput (c : Component) (slot id : String) : Component :=
  { c with inputs := c.inputs.insert slot (.external id) }

def setParam (c : Component) (key value : String) : Component :=
  { c with params := c.params.insert key value }

/-- Adds a patch, once. -/
def addPatch (c : Component) (patch : String) : Component :=
  { c with patches := addNew c.patches patch }

/-- Excludes a test, once. -/
def excludeTest (c : Component) (test : String) : Component :=
  { c with excludedTests := addNew c.excludedTests test }

/-- Adds a step after the build, once. -/
def addPostBuild (c : Component) (step : String) : Component :=
  { c with postBuild := addNew c.postBuild step }

/-- The input slots that the catalog fills, with the names they ask for. -/
def catalogInputs (c : Component) : List (String × String) :=
  c.inputs.toList.filterMap fun e => e.2.catalogName?.map (e.1, ·)

end Component

end LayeredCatalog
