import LayeredCatalog.Proofs.ByteOrder
import LayeredCatalog.Proofs.Composition.Faults
import LayeredCatalog.Proofs.Patch

/-!
# Faults name their culprits

A fault travels through any number of evaluations before a question ends with it,
and each of them could attribute it anew. `Composition.IsGenuine` says for each kind
of fault what must be true of the name, the layer, the slot or the field that it
names; a fault that blames a name for being unknown, or an error from outside the
composition, is not among those that an evaluation has cause for.

The functions of the layers may look at the failure of a read and go on, but what they
fail with is either such a failure, unchanged, or a plain failure of their own
(`LayerFailure.IsPlain`). Then every fault is genuine (`Composition.ask_genuine`).
-/

namespace LayeredCatalog

namespace Composition

/-- Whether what a fault names is to blame for it. The memo is the one that was left
when the fault was reported. -/
def IsGenuine (c : Composition) (m : Memo) : ResolutionError → Prop
  | .danglingInput target name slot =>
      ∃ v, (c.lookup [] name m).1 = .ok v ∧ v.inputs.get? slot = some (.catalog target) ∧
        ¬ c.contains target ∧
        ∀ slot' target', v.inputs.get? slot' = some (.catalog target') →
          ¬ c.contains target' → utf8 slot ≤ utf8 slot'
  | .danglingOrigin target view name i layerName =>
      ∃ l k, c.contribution? i name = some (l, k) ∧ l.name = layerName ∧
        m.Reads c name i ⟨view, target⟩ ∧ ∀ s, c.Defines target s → ¬ view.Admits i s
  | .mergeAmbiguity name field i =>
      ∃ l o patch, c.contribution? i name = some (l, .derive o (.merge patch)) ∧
        patch.firstUnannotated? = some field
  | .layerFailed name i layerName reason =>
      ∃ l, l.name = layerName ∧
        ((∃ body ts, c.contribution? i name = some (l, .compute body) ∧
            m.Follows c i (.compute body) ts (.done (.error (.failed reason)))) ∨
          ∃ o f old, c.contribution? i name = some (l, .derive o (.replace f)) ∧
            m.Answers c i o (.ok old) ∧ f old = .error (.failed reason))
  | _ => False

section Genuine

variable {c : Composition} {m : Memo} {name : String} {i : Nat} {l : Layer} {k : Contribution}
  {ts : Transcript}

/-- A contribution that ends with a plain failure has a function, which returned it. -/
theorem isGenuine_layerFailed {reason : String} (hk : c.contribution? i name = some (l, k))
    (hdone : m.Follows c i k ts (.done (.error (.failed reason)))) :
    c.IsGenuine m (.layerFailed name i l.name reason) := by
  refine ⟨l, rfl, ?_⟩
  cases k with
  | constant component => cases hdone.leadsTo.eq_of_done.2
  | compute body => exact .inl ⟨body, ts, hk, hdone⟩
  | derive o t =>
      rcases Contribution.derive_leadsTo_done_iff.1 hdone.leadsTo with
        ⟨failure, rfl, hread⟩ | ⟨old, rfl, hresult⟩
      · have hanswer := hdone.answers _ (List.mem_singleton_self _)
        rw [← Except.error.inj hread] at hanswer
        exact hanswer.elim
      · cases t with
        | replace f =>
            have hanswer := hdone.answers _ (List.mem_singleton_self _)
            exact .inr ⟨o, f, old, hk, hanswer, hresult.symm⟩
        | merge patch =>
            obtain ⟨field, -, hambiguous⟩ :=
              Contribution.merge_apply_eq_error_iff.1 hresult.symm
            cases hambiguous

/-- What a contribution fails with of its own is a plain failure of its function or the
fault of its patch. -/
theorem isGenuine_blame {failure : LayerFailure}
    (hplain : k.RaisesOnly LayerFailure.IsPlain) (hk : c.contribution? i name = some (l, k))
    (hdone : m.Follows c i k ts (.done (.error failure)))
    (hown : ∀ o, (o, .error failure) ∉ ts) :
    c.IsGenuine m (failure.blame name i l.name) := by
  rcases hplain.cases hdone.leadsTo with
    ⟨o, hread⟩ | ⟨reason, rfl⟩ | ⟨o, patch, old, field, rfl, hpatch, rfl⟩
  · exact absurd hread (hown o)
  · exact isGenuine_layerFailed hk hdone
  · exact ⟨l, o, patch, hk, Patch.apply_eq_error_iff.1 hpatch⟩

theorem isGenuine_of_explains {e : ResolutionError}
    (hc : ∀ l ∈ c.layers, l.RaisesOnly LayerFailure.IsPlain)
    (hcycle : ∀ name path, e ≠ .cycle name path) (h : m.Explains c e) : c.IsGenuine m e := by
  cases h with
  | raised hk hdone hown =>
      exact isGenuine_blame (forall_contribution? hc hk) hk hdone hown
  | @missing name i l k o hk hread hnone =>
      refine ⟨l, k, hk, rfl, hread, ?_⟩
      intro s hs hadmits
      obtain ⟨s', hs'⟩ := exists_shows_iff.2 ⟨s, hs, hadmits⟩
      exact hnone s' hs'
  | dangling hv hslot htarget hleast =>
      refine ⟨_, congrArg Prod.fst (lookup_of_holds [] hv), hslot, htarget, ?_⟩
      intro slot' target' hslot' htarget'
      exact utf8_le_utf8_iff.2 (hleast slot' target' hslot' htarget')
  | definitions hwalk => exact absurd rfl (hcycle _ _)
  | plans hwalk hnodup => exact absurd rfl (hcycle _ _)

end Genuine

/-- Whatever was asked before, a question about assigned names that ends with a fault
other than a cycle names what is to blame for it. The functions of the layers fail
with the failure of something they read or with a plain failure of their own. -/
theorem ask_genuine {c : Composition}
    (hc : ∀ l ∈ c.layers, l.RaisesOnly LayerFailure.IsPlain) (qs : List Query) {q : Query}
    (hq : ∀ name, q.name? = some name → c.contains name) {e : ResolutionError}
    (he : (c.ask q (c.memoAfter qs)).1.error? = some e)
    (hcycle : ∀ name path, e ≠ .cycle name path) :
    c.IsGenuine (c.memoAfter (qs ++ [q])) e := by
  rw [memoAfter_concat]
  rcases ask_explains c q _ he with hexplains | ⟨name, hname, hnone, -⟩
  · exact isGenuine_of_explains hc hcycle hexplains
  · exact absurd (hq name hname) hnone

/-- A read of the final `perl`, whose failure is put in other words. -/
def needPerl : Reading (Except LayerFailure Component) :=
  .read ⟨.final, "perl"⟩ fun
    | .error _ => .done (.error (.failed "no perl"))
    | .ok perl => .done (.ok perl)

/-- A layer that makes `wget` from `perl`, which nothing defines, above a base whose
`site` asks for `wget`. -/
def perlless : Composition where
  base := Catalog.add ∅
    { name := "site", version := "1", inputs := .ofList [("fetch", .catalog "wget")] }
  layers := [⟨"tools", Overlay.define ∅ "wget" fun _ => needPerl⟩]

/-- The plan of `site` fails with what the function for `wget` returned. -/
theorem ask_perlless_site :
    (∀ l ∈ perlless.layers, l.RaisesOnly LayerFailure.IsPlain) ∧
      (∀ name, (Query.plan "site").name? = some name → perlless.contains name) ∧
      (perlless.ask (.plan "site") (perlless.memoAfter [.lookup "wget"])).1.error? =
        some (.layerFailed "wget" 0 "tools" "no perl") ∧
      perlless.IsGenuine (perlless.memoAfter ([.lookup "wget"] ++ [.plan "site"]))
        (.layerFailed "wget" 0 "tools" "no perl") := by
  have hperl : needPerl.RaisesOnly LayerFailure.IsPlain := by
    intro below ts failure h
    cases h with
    | @read _ _ answer ts _ h =>
        cases answer with
        | error failure' =>
            obtain ⟨-, hfailure⟩ := h.eq_of_done
            exact .inr ⟨"no perl", Except.error.inj (Reading.done.inj hfailure)⟩
        | ok perl => cases h.eq_of_done.2
  have hc : ∀ l ∈ perlless.layers, l.RaisesOnly LayerFailure.IsPlain := by
    intro l hl
    rw [Layer.raisesOnly_iff_forall_mem, List.mem_singleton.1 hl]
    exact List.forall_mem_singleton.2 fun _ => hperl
  have hq : ∀ name, (Query.plan "site").name? = some name → perlless.contains name := by
    rintro name ⟨⟩
    decide
  have he : (perlless.ask (.plan "site") (perlless.memoAfter [.lookup "wget"])).1.error? =
      some (.layerFailed "wget" 0 "tools" "no perl") := by decide +kernel
  exact ⟨hc, hq, he, ask_genuine hc _ hq he fun _ _ => ResolutionError.noConfusion⟩

end Composition

end LayeredCatalog
