import LayeredCatalog.Proofs.Patch.Additions
import LayeredCatalog.Proofs.Table

/-!
# Patches that are built by calls

A call to a builder of patches can be performed on a component at once: it overwrites a field
or an entry of a table, appends to a list what the list lacks, or puts a list without repeats
in the place of another one (`Component.perform`). A patch collects the calls instead. What it
has collected stays in step with what was performed (`Patch.Changes.collect`): whatever the
stored edit of a list is, the edit with a call added to it does what it did and then what the
call says. So a patch that is built from nothing can be applied to every component, and has
the same effect as its calls performed one after another (`Patch.apply_ofCalls`).
-/

namespace LayeredCatalog

/-- A call to a builder of patches. -/
inductive Patch.Call where
  | version (version : String)
  | builder (builder : String)
  | input (slot target : String)
  | externalInput (slot id : String)
  | param (key value : String)
  /-- Adds to one of the lists. -/
  | add (field : ListField) (items : List String)
  | replaceExcludedTests (items : List String)

namespace Component

/-- Puts a list in the place of another one. -/
def setList (c : Component) (field : ListField) (items : List String) : Component :=
  match field with
  | .patches => { c with patches := items }
  | .excludedTests => { c with excludedTests := items }
  | .postBuild => { c with postBuild := items }

/-- Does at once what a call to a builder of patches says. -/
def perform (c : Component) : Patch.Call → Component
  | .version version => { c with version }
  | .builder builder => { c with builder }
  | .input slot target => c.setInput slot target
  | .externalInput slot id => c.setExternalInput slot id
  | .param key value => c.setParam key value
  | .add field items =>
      c.setList field (c.list field ++ (items.filter (· ∉ c.list field)).eraseDups)
  | .replaceExcludedTests items => c.setList .excludedTests items.eraseDups

theorem addTo_eq_perform (c : Component) (field : ListField) (items : List String) :
    c.addTo field items = c.perform (.add field items) := by
  rw [perform, ← addAllNew_eq_append]
  cases field <;> rfl

end Component

namespace Patch

variable {p : Patch} {old new : Component}

/-- The patch after a call to its builder. -/
def collect (p : Patch) : Call → Patch
  | .version version => p.setVersion version
  | .builder builder => p.setBuilder builder
  | .input slot target => p.setInput slot target
  | .externalInput slot id => p.setExternalInput slot id
  | .param key value => p.setParam key value
  | .add field items => p.addTo field items
  | .replaceExcludedTests items => p.replaceExcludedTests items

/-- The patch that is built from nothing by calls. -/
def ofCalls (calls : List Call) : Patch := calls.foldl collect {}

/-- The patch without calls changes nothing. -/
theorem changes_empty (c : Component) : Changes {} c c where
  name := rfl
  version := rfl
  builder := rfl
  inputs := rfl
  params := rfl
  list field := by cases field <;> rfl

theorem Changes.replaceExcludedTests (h : p.Changes old new) (items : List String) :
    (p.replaceExcludedTests items).Changes old (new.perform (.replaceExcludedTests items)) where
  name := h.name
  version := h.version
  builder := h.builder
  inputs := h.inputs
  params := h.params
  list field := by
    cases field with
    | patches => exact h.list .patches
    | excludedTests => exact congrArg some (addAllNew_nil_left items)
    | postBuild => exact h.list .postBuild

/-- Where a patch changes one component into another, it does so still after a call, if the
call is performed on the other one. -/
theorem Changes.collect (h : p.Changes old new) (call : Call) :
    (p.collect call).Changes old (new.perform call) := by
  cases call with
  | version version => exact { h with version := rfl }
  | builder builder => exact { h with builder := rfl }
  | input slot target =>
      have hinputs : new.inputs.insert slot (.catalog target) =
          old.inputs.insertMany (p.inputs.insert slot (.catalog target)).toList := by
        rw [Table.insertMany_insert, h.inputs]
      exact { h with inputs := hinputs }
  | externalInput slot id =>
      have hinputs : new.inputs.insert slot (.external id) =
          old.inputs.insertMany (p.inputs.insert slot (.external id)).toList := by
        rw [Table.insertMany_insert, h.inputs]
      exact { h with inputs := hinputs }
  | param key value =>
      have hparams : new.params.insert key value =
          old.params.insertMany (p.params.insert key value).toList := by
        rw [Table.insertMany_insert, h.params]
      exact { h with params := hparams }
  | add field items =>
      rw [← Component.addTo_eq_perform]
      exact h.addTo field items
  | replaceExcludedTests items => exact h.replaceExcludedTests items

theorem Changes.collect_all (h : p.Changes old new) (calls : List Call) :
    (calls.foldl Patch.collect p).Changes old (calls.foldl Component.perform new) := by
  induction calls generalizing p new with
  | nil => exact h
  | cons call calls ih => exact ih (h.collect call)

/-- A patch that is built by calls can be applied, and it makes of a component what the calls
make of it when they are performed one after another. -/
theorem apply_ofCalls (calls : List Call) (c : Component) :
    (ofCalls calls).apply c = .ok (calls.foldl Component.perform c) :=
  apply_eq_ok_iff.2 ((changes_empty c).collect_all calls)

/-- What is added behind a replacement is added to the new list, and what came before it is
dropped. -/
example : (ofCalls [.add .excludedTests ["a"], .replaceExcludedTests ["b", "c", "b"],
      .add .excludedTests ["d", "c", "d"]]).apply { excludedTests := ["a", "d"] } =
    .ok { excludedTests := ["b", "c", "d"] } := rfl

end Patch

end LayeredCatalog
