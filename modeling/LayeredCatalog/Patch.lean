import LayeredCatalog.Component
/-!
# Patches

A patch changes a component field by field: a version, builder, input or
parameter that it names takes the place of the old one, and each of the three
lists has an edit of its own. A list may be kept, extended by what it lacks
(`union`) or replaced; a bare list does not say which of the two is meant, and
applying it is an error that names the field.

The patch builders (`setVersion` to `addPostBuild`) prepare a patch step by step.
-/

namespace LayeredCatalog

/-- The list fields of a component. -/
inductive ListField where
  | patches
  | excludedTests
  | postBuild
deriving DecidableEq, Repr

def ListField.name : ListField → String
  | .patches => "patches"
  | .excludedTests => "excluded_tests"
  | .postBuild => "post_build"

/-- What a patch does to one list. -/
inductive ListEdit where
  /-- The list stays. -/
  | keep
  /-- The items that the list lacks are appended. -/
  | union (items : List String)
  /-- The items, each once, take the place of the list. -/
  | replace (items : List String)
  /-- A list without a word on how to merge it; it cannot be applied. -/
  | unannotated (items : List String)
deriving DecidableEq, Repr, Inhabited

namespace ListEdit

/-- The edited list, if the edit says how to merge. -/
def appliedTo? : ListEdit → List String → Option (List String)
  | .keep, old => some old
  | .union items, old => some (addAllNew old items)
  | .replace items, _ => some (addAllNew [] items)
  | .unannotated _, _ => none

/-- Adds items to what an edit brings. An edit that brings nothing, or that does
not say how to merge, becomes a union of just these items. -/
def extend : ListEdit → List String → ListEdit
  | .union old, items => .union (addAllNew old items)
  | .replace old, items => .replace (addAllNew old items)
  | .keep, items => .union items
  | .unannotated _, items => .union items

end ListEdit

/-- A change to a component. -/
structure Patch where
  /-- The new version, if it changes. -/
  version : Option String := none
  /-- The new builder, if it changes. -/
  builder : Option String := none
  inputs : Table String InputRef := .empty
  params : Table String String := .empty
  patches : ListEdit := .keep
  excludedTests : ListEdit := .keep
  postBuild : ListEdit := .keep
deriving DecidableEq, Inhabited

namespace Patch

def setVersion (p : Patch) (version : String) : Patch := { p with version := some version }

def setBuilder (p : Patch) (builder : String) : Patch := { p with builder := some builder }

/-- The patch that also fills a slot with a component of the catalog. -/
def setInput (p : Patch) (slot target : String) : Patch :=
  { p with inputs := p.inputs.insert slot (.catalog target) }

/-- The patch that also fills a slot with something from outside the catalog. -/
def setExternalInput (p : Patch) (slot id : String) : Patch :=
  { p with inputs := p.inputs.insert slot (.external id) }

def setParam (p : Patch) (key value : String) : Patch :=
  { p with params := p.params.insert key value }

def addPatches (p : Patch) (items : List String) : Patch :=
  { p with patches := p.patches.extend items }

def excludeTests (p : Patch) (items : List String) : Patch :=
  { p with excludedTests := p.excludedTests.extend items }

def replaceExcludedTests (p : Patch) (items : List String) : Patch :=
  { p with excludedTests := .replace items }

/-- The patch that also adds steps after the build. -/
def addPostBuild (p : Patch) (items : List String) : Patch :=
  { p with postBuild := p.postBuild.extend items }

def setList (p : Patch) (field : ListField) (edit : ListEdit) : Patch :=
  match field with
  | .patches => { p with patches := edit }
  | .excludedTests => { p with excludedTests := edit }
  | .postBuild => { p with postBuild := edit }

/-- The patched component, or the first list field whose edit does not say how to
merge. -/
def apply (p : Patch) (old : Component) : Except ListField Component :=
  match p.patches.appliedTo? old.patches with
  | none => .error .patches
  | some patches =>
    match p.excludedTests.appliedTo? old.excludedTests with
    | none => .error .excludedTests
    | some excludedTests =>
      match p.postBuild.appliedTo? old.postBuild with
      | none => .error .postBuild
      | some postBuild =>
        .ok {
          name := old.name
          version := p.version.getD old.version
          builder := p.builder.getD old.builder
          inputs := old.inputs.insertMany p.inputs.toList
          params := old.params.insertMany p.params.toList
          patches, excludedTests, postBuild }

end Patch

end LayeredCatalog
