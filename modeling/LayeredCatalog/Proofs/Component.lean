import LayeredCatalog.Proofs.Documents
import LayeredCatalog.Proofs.Json

/-!
# Components read back from their text

The written form of a component holds its inputs as the written forms of references. So the
text of a component is read back as that component exactly if all of its inputs are valid,
whatever its other fields hold, and what is read from any text is written and read again
without change (`Component.parse?_render_iff`).
-/

namespace LayeredCatalog

namespace Datum

theorem table?_object {α : Type} {read : Json → Option α} (write : α → Json)
    {t : Table String α} (h : ∀ e ∈ t.toList, read (write e.2) = some e.2) :
    table? read (Json.object (t.toList.map fun e => (e.1, write e.2))) = some t := by
  have hentries : (t.toList.map fun e => (e.1, write e.2)).mapM
      (fun e => (read e.2).map (e.1, ·)) = some t.toList := by
    rw [mapM_eq_some_iff, List.forall₂_map_left_iff, List.forall₂_same]
    intro e he
    rw [h e he]
    rfl
  rw [table?]
  show (((t.toList.map fun e => (e.1, write e.2)).mapM
    (fun e => (read e.2).map (e.1, ·))).bind fun entries => some (Table.ofList entries)) = some t
  rw [hentries, Option.bind_some, Table.ofList_toList]

theorem text?_string (s : String) : text? (Json.string s) = some s := rfl

theorem texts?_strings (l : List String) : texts? (Json.strings l) = some l := by
  show (l.map Json.string).mapM text? = some l
  rw [mapM_eq_some_iff, List.forall₂_map_left_iff, List.forall₂_same]
  exact fun s _ => text?_string s

end Datum

theorem InputRef.ofDatum?_render {r : InputRef} (h : r.IsValid) :
    ofDatum? (Json.string r.render) = some r := by
  show (parse r.render).toOption = some r
  rw [toOption_eq_some_iff, parse_eq_ok_iff]
  exact ⟨h, rfl⟩

namespace Component

theorem ofDatum?_toJson {c : Component} (h : c.HasValidInputs) : ofDatum? c.toJson = some c := by
  have hinputs := Datum.table?_object (fun r => Json.string r.render) fun e he =>
    InputRef.ofDatum?_render (Table.forall_get?_iff.1 h e he)
  have hparams := Datum.table?_object Json.string fun e (_ : e ∈ c.params.toList) =>
    Datum.text?_string e.2
  have hrecord : Datum.record? keys c.toJson = Datum.entries? c.toJson := by
    simp [Datum.record?, Datum.positional?, Datum.entries?, toJson, keys]
  rw [ofDatum?, hrecord]
  simp [toJson, Datum.entries?, Datum.field?, List.lookup_cons, Datum.text?_string, hinputs, hparams,
    Datum.texts?_strings]

theorem legible_toJson (c : Component) : c.toJson.Legible 127 := by
  have hstring := Json.legible_string 126
  have htable : ∀ l : List (String × String),
      (Json.object (l.map fun e => (e.1, .string e.2))).Legible 126 := fun l =>
    .object (List.forall_mem_map.2 fun e _ => Json.legible_string 125 e.2)
  have hlist := Json.legible_strings 125
  have hinputs := htable (c.inputs.toList.map fun e => (e.1, e.2.render))
  rw [List.map_map] at hinputs
  refine .object ?_
  simp only [List.forall_mem_cons, List.not_mem_nil, false_implies, implies_true, and_true]
  exact ⟨hstring c.name, hstring c.version, hstring c.builder, hinputs, htable c.params.toList,
    hlist c.patches, hlist c.excludedTests, hlist c.postBuild⟩

theorem parse?_render {c : Component} (h : c.HasValidInputs) : parse? c.render = some c := by
  rw [parse?, render, (legible_toJson c).parse?_compact, Option.bind_some, ofDatum?_toJson h]

theorem hasValidInputs_of_parse? {s : String} {c : Component} (h : parse? s = some c) :
    c.HasValidInputs := by
  obtain ⟨j, -, hj⟩ := Option.bind_eq_some_iff.1 h
  exact hasValidInputs_of_ofDatum? hj

/-- A component is read back from its text exactly if all of its inputs are valid. The inputs
of a component that was read from any text are, so it is read back from its own. -/
theorem parse?_render_iff :
    (∀ c : Component, parse? c.render = some c ↔ c.HasValidInputs) ∧
    ∀ s (c : Component), parse? s = some c → c.HasValidInputs ∧ parse? c.render = some c := by
  refine ⟨fun c => ⟨hasValidInputs_of_parse?, parse?_render⟩, fun s c h => ?_⟩
  have hvalid := hasValidInputs_of_parse? h
  exact ⟨hvalid, parse?_render hvalid⟩

/-- A text with blanks, an escape, fields out of order and a key that is there twice. -/
def siteText : String :=
  "\x7b \"version\": \"1\", \"name\": \"s\\u0069te\",\n  \"inputs\": \x7b" ++
    "\"sdk\": \"zlib\", \"dep\": \"external.c\", \"sdk\": \"external:/opt/\\\"s\\\"\"\x7d \x7d"

def site : Component where
  name := "site"
  version := "1"
  inputs := .ofList [("dep", .catalog "external.c"), ("sdk", .external "/opt/\"s\"")]

theorem parse?_render_site :
    parse? siteText = some site ∧ site.HasValidInputs ∧ parse? site.render = some site := by
  have hread : parse? siteText = some site := by decide +kernel
  exact ⟨hread, parse?_render_iff.2 siteText site hread⟩

end Component

end LayeredCatalog
