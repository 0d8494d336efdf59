import LayeredCatalog.Layer.Document
import LayeredCatalog.Proofs.Stages

/-!
# The layer of a document

A layer document is turned into a layer entry by entry, under keys that are component names
(`Layer.contributions_eq_ok_iff`), and an entry contributes a constant or something derived
(`LayerEntry.contribution_eq_ok_iff`). So whatever a layer from a document assigns to a name
is what the entry of that name says (`Layer.exists_entry_of_ofDocument`).
-/

namespace LayeredCatalog

namespace LayerEntry

/-- What an entry of each kind contributes; an entry of no kind or of several contributes
nothing. -/
theorem contribution_eq_ok_iff {e : LayerEntry} {layer key : String} {k : Contribution} :
    e.contribution layer key = .ok k ↔
      (∃ c, e = ⟨some c, none, none⟩ ∧ k = .constant c) ∨
      (∃ p, e = ⟨none, some p, none⟩ ∧ k = .derive ⟨.previous, key⟩ (.merge p)) ∨
      ∃ source p o, e = ⟨none, none, some (source, p)⟩ ∧ Origin.parse source = .ok o ∧
        k = .derive o (.merge p) := by
  obtain ⟨set, modify, derive⟩ := e
  cases set <;> cases modify <;> rcases derive with _ | ⟨source, p⟩ <;>
    simp [contribution, map_eq_ok_iff, eq_comm (b := k)]

end LayerEntry

namespace Layer

/-- A list of entries contributes entry by entry, under keys that are component names. -/
theorem contributions_eq_ok_iff {layer : String} {entries : List (String × LayerEntry)}
    {ks : List (String × Contribution)} :
    contributions layer entries = .ok ks ↔ List.Forall₂ (fun e k => k.1 = e.1 ∧
      Name.isValid e.1 ∧ e.2.contribution layer e.1 = .ok k.2) entries ks := by
  induction entries generalizing ks with
  | nil => rw [contributions, Except.ok.injEq, List.forall₂_nil_left_iff, eq_comm]
  | cons e entries ih =>
      obtain ⟨key, e⟩ := e
      rw [contributions, List.forall₂_cons_left_iff]
      split
      · next hkey =>
        constructor
        · intro h
          cases h
        · rintro ⟨k, rest, ⟨-, hvalid, -⟩, -⟩
          simp [hvalid] at hkey
      · next hkey =>
        have hvalid : Name.isValid key := by simpa using hkey
        cases hk : e.contribution layer key with
        | error refusal => simp
        | ok k =>
            cases hrest : contributions layer entries with
            | error refusal =>
                simp only [← ih, hrest]
                simp
            | ok rest =>
                simp only [← ih, hrest, Except.ok.injEq]
                constructor
                · rintro rfl
                  exact ⟨(key, k), rest, ⟨rfl, hvalid, rfl⟩, rfl, rfl⟩
                · rintro ⟨⟨key', k'⟩, rest', ⟨rfl, -, rfl⟩, rfl, rfl⟩
                  rfl

theorem exists_entry_of_ofDocument {d : LayerDocument} {fallback : String} {l : Layer}
    (h : ofDocument d fallback = .ok l) {name : String} {k : Contribution}
    (hk : l.overlay.get? name = some k) :
    Name.isValid name ∧ ∃ e, d.entries.get? name = some e ∧
      e.contribution l.name name = .ok k := by
  rw [ofDocument] at h
  split at h
  · cases h
  · next ks hks =>
    cases h
    obtain ⟨⟨key, e⟩, he, rfl, hvalid, hcontribution⟩ :=
      exists_mem_of_forall₂ (contributions_eq_ok_iff.1 hks).flip (Table.mem_of_get?_ofList hk)
    exact ⟨hvalid, e, Table.get?_eq_some_iff.2 he, hcontribution⟩

end Layer

end LayeredCatalog
