import LayeredCatalog.Proofs.Stages
import LayeredCatalog.Reference
import Mathlib.Data.List.TakeWhile

/-!
# References and their written forms

A reference is valid if it names a component or says something about what is outside the
catalog. The valid references are those that can be read, each from its written form and
from no other text (`InputRef.parse_eq_ok_iff`): the mark of a reference to the outside ends
in a colon, which no name has. In the same way an origin is read from its written form
exactly if it has the name of a component (`Origin.parse_eq_ok_iff`). Put in terms of texts,
this is the grammar of references (`written_forms`).
-/

namespace LayeredCatalog

namespace Name

theorem isValid_iff {s : String} : isValid s ↔ s.toList ≠ [] ∧ ∀ c ∈ s.toList, isNameChar c := by
  simp [isValid]

theorem takeName_eq_self_iff {cs : List Char} :
    takeName cs = (cs, []) ↔ ∀ c ∈ cs, isNameChar c := by
  rw [takeName, Prod.mk.injEq, List.takeWhile_eq_self_iff, List.dropWhile_eq_nil_iff, and_self]

theorem isAlphanum_iff {c : Char} :
    c.isAlphanum ↔ (('A' ≤ c ∧ c ≤ 'Z') ∨ ('a' ≤ c ∧ c ≤ 'z')) ∨ ('0' ≤ c ∧ c ≤ '9') := by
  have hbool : c.isAlphanum = ((decide ('A' ≤ c ∧ c ≤ 'Z') ||
      (decide ('a' ≤ c) && decide (c ≤ 'z'))) || (decide ('0' ≤ c) && decide (c ≤ '9'))) := rfl
  rw [hbool]
  simp only [Bool.or_eq_true, Bool.and_eq_true, decide_eq_true_eq]

/-- The characters of names are letters and digits of ASCII and four others. -/
theorem isNameChar_iff {c : Char} :
    isNameChar c ↔ (('a' ≤ c ∧ c ≤ 'z') ∨ ('A' ≤ c ∧ c ≤ 'Z') ∨ ('0' ≤ c ∧ c ≤ '9')) ∨
      c ∈ ['-', '_', '.', '+'] := by
  simp only [isNameChar, isAlphanum_iff, Bool.or_eq_true, decide_eq_true_eq, List.mem_cons,
    List.not_mem_nil, or_false]
  grind

end Name

namespace InputRef

/-- Whether a reference can be written so that it is read again. -/
def IsValid : InputRef → Prop
  | .catalog name => Name.isValid name
  | .external id => id ≠ ""

theorem isValid_cases {r : InputRef} : r.IsValid ↔
    (∃ name, Name.isValid name ∧ r = .catalog name) ∨ ∃ id, id ≠ "" ∧ r = .external id := by
  cases r with
  | catalog name => simp [IsValid]
  | external id => simp [IsValid]

theorem toList_render_external (id : String) :
    (external id).render.toList = externalMark.toList ++ id.toList :=
  String.toList_append

theorem not_isValid_of_mark {name : String} {r : List Char}
    (h : name.toList = externalMark.toList ++ r) : ¬ Name.isValid name := by
  intro hname
  have hcolon : ':' ∈ name.toList := by
    rw [h, List.mem_append]
    exact .inl (by decide)
  exact absurd ((Name.isValid_iff.1 hname).2 ':' hcolon) (by decide)

theorem ofName_eq_ok_iff {cs : List Char} {r : InputRef} :
    ofName cs = .ok r ↔ ∃ name, Name.isValid name ∧ name.toList = cs ∧ r = .catalog name := by
  have hvalid : ∀ name : String, name.toList = cs →
      (Name.isValid name ↔ cs ≠ [] ∧ Name.takeName cs = (cs, [])) := by
    rintro name rfl
    rw [Name.isValid_iff, Name.takeName_eq_self_iff]
  rw [ofName]
  split
  · next rest htake =>
    constructor
    · intro h
      cases h
    · rintro ⟨name, hname, hcs, -⟩
      obtain ⟨hne, hall⟩ := (hvalid name hcs).1 hname
      exact absurd (Prod.mk.inj (hall.symm.trans htake)).1 hne
  · next taken htaken htake =>
    have hcs : taken = cs := by
      have happend := Name.takeName_append cs
      rwa [htake, List.append_nil] at happend
    subst hcs
    rw [Except.ok.injEq]
    constructor
    · rintro rfl
      exact ⟨String.ofList taken, (hvalid _ String.toList_ofList).2 ⟨htaken, htake⟩,
        String.toList_ofList, rfl⟩
    · rintro ⟨name, -, rfl, rfl⟩
      rw [String.ofList_toList]
  · next taken rest htaken hrest htake =>
    constructor
    · intro h
      cases h
    · rintro ⟨name, hname, hcs, -⟩
      obtain ⟨-, hall⟩ := (hvalid name hcs).1 hname
      exact absurd (Prod.mk.inj (htake.symm.trans hall)).2 hrest

theorem ofChars_eq_ok_iff {cs : List Char} {r : InputRef} :
    ofChars cs = .ok r ↔ r.IsValid ∧ r.render.toList = cs := by
  rw [ofChars]
  split
  · next c rest hmark =>
    obtain rfl := Text.afterPrefix?_eq_some_iff.1 hmark
    rw [Except.ok.injEq]
    constructor
    · rintro rfl
      refine ⟨?_, by rw [toList_render_external, String.toList_ofList]⟩
      simp [IsValid]
    · rintro ⟨hvalid, hrender⟩
      cases r with
      | catalog name => exact absurd hvalid (not_isValid_of_mark hrender)
      | external id =>
          rw [toList_render_external, List.append_cancel_left_eq] at hrender
          rw [← hrender, String.ofList_toList]
  · next hmark =>
    rw [ofName_eq_ok_iff]
    constructor
    · rintro ⟨name, hname, rfl, rfl⟩
      exact ⟨hname, rfl⟩
    · rintro ⟨hvalid, hrender⟩
      cases r with
      | catalog name => exact ⟨name, hvalid, hrender, rfl⟩
      | external id =>
          -- There is something behind the mark, so the text is not read as a name.
          rw [toList_render_external] at hrender
          obtain ⟨c, rest, hid⟩ :=
            List.exists_cons_of_ne_nil (String.toList_eq_nil_iff.not.2 hvalid)
          rw [hid] at hrender
          exact absurd (Text.afterPrefix?_eq_some_iff.2 hrender.symm) (hmark c rest)

/-- A valid reference is read from its written form, and nothing else is read. -/
theorem parse_eq_ok_iff {s : String} {r : InputRef} :
    parse s = .ok r ↔ r.IsValid ∧ r.render = s := by
  rw [parse, mapError_eq_ok_iff, ofChars_eq_ok_iff, String.toList_inj]

theorem exists_parse_iff {s : String} : (∃ r, parse s = .ok r) ↔
    (∃ id, id ≠ "" ∧ s = externalMark ++ id) ∨ Name.isValid s := by
  simp only [parse_eq_ok_iff, isValid_cases]
  constructor
  · rintro ⟨r, ⟨name, hname, rfl⟩ | ⟨id, hid, rfl⟩, rfl⟩
    · exact .inr hname
    · exact .inl ⟨id, hid, rfl⟩
  · rintro (⟨id, hid, rfl⟩ | hname)
    · exact ⟨.external id, .inr ⟨id, hid, rfl⟩, rfl⟩
    · exact ⟨.catalog s, .inl ⟨s, hname, rfl⟩, rfl⟩

end InputRef

namespace Origin

theorem toList_render (o : Origin) :
    o.render.toList = o.view.word.toList ++ '.' :: o.name.toList := by
  show (o.view.word ++ "." ++ o.name).toList = _
  simp

/-- Neither of the two words begins the other one. -/
theorem takeView?_eq_some_iff {cs rest : List Char} {view : View} :
    takeView? cs = some (view, rest) ↔ cs = view.word.toList ++ rest := by
  rw [takeView?]
  split
  · next r hprevious =>
    obtain rfl := Text.afterPrefix?_eq_some_iff.1 hprevious
    cases view with
    | previous => simp [eq_comm]
    | final => simp [View.word]
  · next hprevious =>
    cases view with
    | previous =>
        have hnot : cs ≠ View.previous.word.toList ++ rest := by
          rintro rfl
          simp at hprevious
        simp [hnot]
    | final => simp [Text.afterPrefix?_eq_some_iff]

/-- Behind the view and the dot, a name is read as it is in a reference. -/
theorem ofChars_view_append {view : View} {cs : List Char} {o : Origin} :
    ofChars (view.word.toList ++ '.' :: cs) = .ok o ↔
      o.view = view ∧ InputRef.ofName cs = .ok (.catalog o.name) := by
  rw [ofChars, takeView?_eq_some_iff.2 rfl, InputRef.ofName]
  cases o with
  | mk v n =>
      simp only
      split
      · simp
      · simp [eq_comm]
      · simp

theorem ofChars_eq_ok_iff {cs : List Char} {o : Origin} :
    ofChars cs = .ok o ↔ Name.isValid o.name ∧ o.render.toList = cs := by
  rw [toList_render]
  constructor
  · intro h
    obtain ⟨view, rest, hview⟩ : ∃ view rest, takeView? cs = some (view, '.' :: rest) := by
      rw [ofChars] at h
      split at h
      · cases h
      · next view rest hview => exact ⟨view, rest, hview⟩
      · cases h
    obtain rfl := takeView?_eq_some_iff.1 hview
    obtain ⟨rfl, hname⟩ := ofChars_view_append.1 h
    obtain ⟨name, hvalid, rfl, hcatalog⟩ := InputRef.ofName_eq_ok_iff.1 hname
    obtain rfl := InputRef.catalog.inj hcatalog
    exact ⟨hvalid, rfl⟩
  · rintro ⟨hvalid, rfl⟩
    exact ofChars_view_append.2 ⟨rfl, InputRef.ofName_eq_ok_iff.2 ⟨o.name, hvalid, rfl, rfl⟩⟩

theorem parse_eq_ok_iff {s : String} {o : Origin} :
    parse s = .ok o ↔ Name.isValid o.name ∧ o.render = s := by
  rw [parse, mapError_eq_ok_iff, ofChars_eq_ok_iff, String.toList_inj]

theorem exists_parse_iff {s : String} : (∃ o, parse s = .ok o) ↔
    ∃ name, Name.isValid name ∧ (s = "previous." ++ name ∨ s = "final." ++ name) := by
  simp only [parse_eq_ok_iff]
  constructor
  · rintro ⟨⟨view, name⟩, hname, rfl⟩
    cases view with
    | previous => exact ⟨name, hname, .inl rfl⟩
    | final => exact ⟨name, hname, .inr rfl⟩
  · rintro ⟨name, hname, rfl | rfl⟩
    · exact ⟨⟨.previous, name⟩, hname, rfl⟩
    · exact ⟨⟨.final, name⟩, hname, rfl⟩

end Origin

/-- The grammar of references, and which references are read from their written forms. A text
that is read is the written form of what is read from it. -/
theorem written_forms :
    (∀ s, Name.isValid s ↔ s ≠ "" ∧ ∀ c ∈ s.toList,
      (('a' ≤ c ∧ c ≤ 'z') ∨ ('A' ≤ c ∧ c ≤ 'Z') ∨ ('0' ≤ c ∧ c ≤ '9')) ∨
        c ∈ ['-', '_', '.', '+']) ∧
    (∀ s, (∃ r, InputRef.parse s = .ok r) ↔
      (∃ id, id ≠ "" ∧ s = "external:" ++ id) ∨ Name.isValid s) ∧
    (∀ s, (∃ o, Origin.parse s = .ok o) ↔
      ∃ name, Name.isValid name ∧ (s = "previous." ++ name ∨ s = "final." ++ name)) ∧
    (∀ s r, InputRef.parse s = .ok r ↔ r.IsValid ∧ r.render = s) ∧
    (∀ s o, Origin.parse s = .ok o ↔ Name.isValid o.name ∧ o.render = s) ∧
    (∀ r, InputRef.parse r.render = .ok r ↔
      (∃ name, Name.isValid name ∧ r = .catalog name) ∨ ∃ id, id ≠ "" ∧ r = .external id) ∧
    ∀ o, Origin.parse o.render = .ok o ↔ Name.isValid o.name := by
  refine ⟨fun s => ?_, fun s => InputRef.exists_parse_iff, fun s => Origin.exists_parse_iff,
    fun s r => InputRef.parse_eq_ok_iff, fun s o => Origin.parse_eq_ok_iff, fun r => ?_,
    fun o => ?_⟩
  · rw [Name.isValid_iff, Ne, String.toList_eq_nil_iff]
    simp only [Name.isNameChar_iff]
  · rw [InputRef.parse_eq_ok_iff, ← InputRef.isValid_cases, and_iff_left rfl]
  · rw [Origin.parse_eq_ok_iff, and_iff_left rfl]

end LayeredCatalog
