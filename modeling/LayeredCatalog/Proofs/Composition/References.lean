import LayeredCatalog.Proofs.Composition.History
import LayeredCatalog.Proofs.Documents
import LayeredCatalog.Proofs.Patch

/-!
# What all values have in common

A property of components that does not look at their names holds of all values of a
composition if the base has it and every layer keeps it: what a layer makes of components
with the property has the property as well (`Composition.HasValue.keeps`). Valid inputs are
such a property. Documents bring valid inputs only, patches included, so in a composition of
documents no sequence of sets, modifications and derivations leads to an input that cannot
be written and read again (`Composition.lookup_isValid`).
-/

namespace LayeredCatalog

variable {Q : Component → Prop}

/-- Whether a computation returns components with `Q` as long as it reads such components. -/
def Reading.Keeps (Q : Component → Prop) : Reading (Except LayerFailure Component) → Prop
  | .done result => ∀ v, result = .ok v → Q v
  | .read _ next => ∀ old, Q old → (next (.ok old)).Keeps Q
  | .definedBelow _ next => ∀ b, (next b).Keeps Q

namespace Contribution

/-- Whether a contribution makes components with `Q` of such components. -/
def Keeps (Q : Component → Prop) (k : Contribution) : Prop := ∀ i, (k.toReading i).Keeps Q

theorem keeps_constant_iff {v : Component} : (constant v).Keeps Q ↔ Q v := by
  simp [Keeps, toReading, Reading.Keeps]

theorem keeps_derive_iff {o : Origin} {t : Transform} :
    (derive o t).Keeps Q ↔ ∀ old, Q old → ∀ v, t.apply old = .ok v → Q v := by
  simp [Keeps, toReading, Reading.andThen, Reading.bind, Reading.Keeps]

end Contribution

namespace Composition

variable {c : Composition}

/-- Whether the base has components with `Q` only, and every layer makes such components of
such components. -/
structure Keeps (c : Composition) (Q : Component → Prop) : Prop where
  base : ∀ name v, c.base.get? name = some v → Q v
  contribution : ∀ l ∈ c.layers, ∀ name k, l.overlay.get? name = some k → k.Keeps Q
  /-- The property does not look at names. -/
  named : ∀ name v, Q v → Q { v with name }

theorem Keeps.of_contribution? (hc : c.Keeps Q) {i : Nat} {name : String} {l : Layer}
    {k : Contribution} (hk : c.contribution? i name = some (l, k)) : k.Keeps Q :=
  forall_contribution? hc.contribution hk

mutual

/-- A property that the base has and the layers keep is one of all values. -/
theorem HasValue.keeps {name : String} {s : Slot} {v : Component} (hc : c.Keeps Q) :
    c.HasValue name s v → Q v
  | .base hv => hc.base _ _ hv
  | .constant hk => hc.named _ _ (Contribution.keeps_constant_iff.1 (hc.of_contribution? hk))
  | .derive hk _ hold happly => by
      have hderive := Contribution.keeps_derive_iff.1 (hc.of_contribution? hk)
      exact hc.named _ _ (hderive _ (hold.keeps hc) _ happly)
  | .compute hk hr => hc.named _ _ (hr.keeps hc (hc.of_contribution? hk _))

theorem Returns.keeps {i : Nat} {r : Reading (Except LayerFailure Component)} {v : Component}
    (hc : c.Keeps Q) : c.Returns i r v → r.Keeps Q → Q v
  | .done, hr => hr _ rfl
  | .read _ hold hnext, hr => hnext.keeps hc (hr _ (hold.keeps hc))
  | .definedBelow _ hnext, hr => hnext.keeps hc (hr _)

end

/-- Whether the base and every layer of a composition are read from documents. -/
structure IsRead (c : Composition) : Prop where
  base : ∃ s, Catalog.parse s = .ok c.base
  layers : ∀ l ∈ c.layers, ∃ s fallback, Layer.parse s fallback = .ok l

theorem keeps_of_contribution {e : LayerEntry} {layer key : String} {k : Contribution}
    (he : e.HasValidInputs) (h : e.contribution layer key = .ok k) :
    k.Keeps Component.HasValidInputs := by
  have hmerge : ∀ o p, Patch.HasValidInputs p →
      (Contribution.derive o (.merge p)).Keeps Component.HasValidInputs := by
    intro o p hp
    refine Contribution.keeps_derive_iff.2 fun old hold v hv => ?_
    have happly := mapError_eq_ok_iff.1 hv
    rw [Component.HasValidInputs, Patch.inputs_of_apply happly]
    exact hold.insertMany hp
  rcases LayerEntry.contribution_eq_ok_iff.1 h with
    ⟨v, rfl, rfl⟩ | ⟨p, rfl, rfl⟩ | ⟨source, p, o, rfl, -, rfl⟩
  · exact Contribution.keeps_constant_iff.2 (he.set v rfl)
  · exact hmerge _ p (he.modify p rfl)
  · exact hmerge o p (he.derive source p rfl)

namespace IsRead

theorem passesErrors (h : c.IsRead) : c.PassesErrors := by
  intro l hl name k hk
  obtain ⟨s, fallback, hl⟩ := h.layers l hl
  obtain ⟨-, e, -, he⟩ := Layer.exists_entry_of_parse hl hk
  exact (Layer.isStatic_of_contribution he).passesErrors

theorem keeps_hasValidInputs (h : c.IsRead) : c.Keeps Component.HasValidInputs where
  base := by
    obtain ⟨s, hs⟩ := h.base
    exact fun name v hv => (Catalog.isValid_of_parse hs hv).2
  contribution := by
    intro l hl name k hk
    obtain ⟨s, fallback, hl⟩ := h.layers l hl
    obtain ⟨-, e, hvalid, he⟩ := Layer.exists_entry_of_parse hl hk
    exact keeps_of_contribution hvalid he
  named := fun _ _ => id

/-- Every name that a composition of documents defines is a component name. -/
theorem isValid_of_contains (h : c.IsRead) {name : String} (hname : c.contains name) :
    Name.isValid name := by
  rw [contains, Bool.or_eq_true, List.any_eq_true] at hname
  rcases hname with hname | ⟨l, hl, hname⟩
  · obtain ⟨s, hs⟩ := h.base
    obtain ⟨v, hv⟩ := Option.isSome_iff_exists.1 hname
    exact (Catalog.isValid_of_parse hs hv).1
  · obtain ⟨s, fallback, hl⟩ := h.layers l hl
    obtain ⟨k, hk⟩ := Option.isSome_iff_exists.1 hname
    exact (Layer.exists_entry_of_parse hl hk).1

end IsRead

/-- Let the base and the layers be read from documents. If a name is looked up successfully,
whatever was asked before, it is a component name, and so is every name that an input of the
component asks for; what an input takes from outside has an identifier. So each input is read
back from its written form. -/
theorem lookup_isValid (hc : c.IsRead) (qs : List Query) {name : String} {v : Component}
    (hv : (c.lookup [] name (c.memoAfter qs)).1 = .ok v) :
    Name.isValid name ∧
      (∀ slot target, v.inputs.get? slot = some (.catalog target) → Name.isValid target) ∧
      (∀ slot id, v.inputs.get? slot = some (.external id) → id ≠ "") ∧
      ∀ slot r, v.inputs.get? slot = some r → InputRef.parse r.render = .ok r := by
  have hsound := isSound_memoAfter hc.passesErrors qs
  have hfinal : c.HasFinal name v :=
    ((lookup_computes hc.passesErrors [] name (by simp)).eq_ok_iff hsound v).1 hv
  have hinputs : v.HasValidInputs :=
    let ⟨_, _, hvalue⟩ := hfinal
    hvalue.keeps hc.keeps_hasValidInputs
  refine ⟨hc.isValid_of_contains hfinal.contains, fun slot target => hinputs slot _,
    fun slot id => hinputs slot _, fun slot r hr => ?_⟩
  exact InputRef.parse_eq_ok_iff.2 ⟨hinputs slot r hr, rfl⟩

def curlDocument : String :=
  "\x7b\"zlib\": [], \"curl\": [\"\", \"8.5\", \"\", \x7b\"tls\": \"zlib\"\x7d]\x7d"

def toolsDocument : String :=
  "components:\n" ++
  "  wget:\n" ++
  "    derive:\n" ++
  "      from: final.curl\n" ++
  "      patch:\n" ++
  "        inputs:\n" ++
  "          ca: external:/etc/certs\n"

/-- A catalog with `curl` under a layer that derives `wget` from it. -/
def documented : Composition where
  base := (Catalog.parse curlDocument).toOption.getD ∅
  layers := (Layer.parse toolsDocument "tools").toOption.toList

theorem lookup_isValid_documented :
    documented.IsRead ∧ (documented.lookup [] "wget" {}).1 = .ok
      { name := "wget", version := "8.5",
        inputs := .ofList [("ca", .external "/etc/certs"), ("tls", .catalog "zlib")] } ∧
    InputRef.parse "external:/etc/certs" = .ok (.external "/etc/certs") := by
  have hread : documented.IsRead := by
    constructor
    · obtain ⟨base, hbase⟩ :=
        exists_eq_ok_of_isOk (x := Catalog.parse curlDocument) (by decide +kernel)
      exact ⟨curlDocument, by simp [documented, hbase, Except.toOption]⟩
    · obtain ⟨l, hl⟩ :=
        exists_eq_ok_of_isOk (x := Layer.parse toolsDocument "tools") (by decide +kernel)
      intro l' hl'
      simp [documented, hl, Except.toOption] at hl'
      exact ⟨toolsDocument, "tools", hl' ▸ hl⟩
  have hv : (documented.lookup [] "wget" {}).1 = .ok
      { name := "wget", version := "8.5",
        inputs := .ofList [("ca", .external "/etc/certs"), ("tls", .catalog "zlib")] } := by
    decide +kernel
  have hparse := (lookup_isValid hread [] hv).2.2.2 "ca" (.external "/etc/certs") rfl
  exact ⟨hread, hv, hparse⟩

end Composition

end LayeredCatalog
