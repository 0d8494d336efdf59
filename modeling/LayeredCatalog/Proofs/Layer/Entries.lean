import LayeredCatalog.Proofs.ByteOrder
import LayeredCatalog.Proofs.Documents
import LayeredCatalog.Proofs.Table
import Mathlib.Data.List.Perm.Basic

/-!
# Which layer documents describe layers

A layer document describes a layer if its keys are component names, each of its entries is of
exactly one kind, and what is derived is derived from an origin. The layer then assigns to each
key what the entry says (`LayerEntry.Contributes`). Otherwise the document is refused for a
fault of the least key that has one (`LayerEntry.HasFault`, `Layer.ofDocument_eq_error_iff`).
So neither a layer nor a refusal depends on the order in which the components are written
(`LayerDocument.Reorders.ofNode?_eq`).
-/

namespace LayeredCatalog

open Yaml (Node)

namespace LayerEntry

/-- An entry says exactly one of the three things that it can say. -/
def IsOneKind (e : LayerEntry) : Prop :=
  [e.set.isSome, e.modify.isSome, e.derive.isSome].count true = 1

/-- What the entry under a key assigns to it. -/
inductive Contributes (e : LayerEntry) (key : String) : Contribution → Prop
  | set {c : Component} (h : e.set = some c) : Contributes e key (.constant c)
  | modify {p : Patch} (h : e.modify = some p) :
      Contributes e key (.derive ⟨.previous, key⟩ (.merge p))
  | derive {source : String} {p : Patch} {o : Origin} (h : e.derive = some (source, p))
      (ho : Origin.parse source = .ok o) : Contributes e key (.derive o (.merge p))

/-- What is wrong with an entry under a key, in a layer with this name. -/
inductive HasFault (e : LayerEntry) (layer key : String) : Refusal → Prop
  | name (h : ¬ Name.isValid key) : HasFault e layer key ⟨.layer layer, .invalidName key⟩
  | kind (hkey : Name.isValid key) (h : ¬ e.IsOneKind) :
      HasFault e layer key ⟨.layer layer, .notOneKind key⟩
  | origin {source : String} {p : Patch} {refusal : Refusal} (hkey : Name.isValid key)
      (hkind : e.IsOneKind) (h : e.derive = some (source, p))
      (ho : Origin.parse source = .error refusal) : HasFault e layer key refusal

variable {e : LayerEntry} {layer key : String} {k : Contribution} {refusal : Refusal}

theorem isOneKind_iff : e.IsOneKind ↔
    (∃ c, e = ⟨some c, none, none⟩) ∨ (∃ p, e = ⟨none, some p, none⟩) ∨
      ∃ source p, e = ⟨none, none, some (source, p)⟩ := by
  obtain ⟨set, modify, derive⟩ := e
  cases set <;> cases modify <;> rcases derive with _ | ⟨source, p⟩ <;> simp [IsOneKind]

theorem contributes_iff : e.Contributes key k ↔ (∃ c, e.set = some c ∧ k = .constant c) ∨
    (∃ p, e.modify = some p ∧ k = .derive ⟨.previous, key⟩ (.merge p)) ∨
    ∃ source p o, e.derive = some (source, p) ∧ Origin.parse source = .ok o ∧
      k = .derive o (.merge p) := by
  constructor
  · intro h
    cases h with
    | set h => exact .inl ⟨_, h, rfl⟩
    | modify h => exact .inr (.inl ⟨_, h, rfl⟩)
    | derive h ho => exact .inr (.inr ⟨_, _, _, h, ho, rfl⟩)
  · rintro (⟨c, h, rfl⟩ | ⟨p, h, rfl⟩ | ⟨source, p, o, h, ho, rfl⟩)
    · exact .set h
    · exact .modify h
    · exact .derive h ho

/-- An entry of one kind contributes what it says. -/
theorem contribution_eq_ok_iff_contributes :
    e.contribution layer key = .ok k ↔ e.IsOneKind ∧ e.Contributes key k := by
  rw [contribution_eq_ok_iff]
  constructor
  · rintro (⟨c, rfl, rfl⟩ | ⟨p, rfl, rfl⟩ | ⟨source, p, o, rfl, ho, rfl⟩)
    · exact ⟨rfl, .set rfl⟩
    · exact ⟨rfl, .modify rfl⟩
    · exact ⟨rfl, .derive rfl ho⟩
  · rintro ⟨hkind, hk⟩
    rcases isOneKind_iff.1 hkind with ⟨c, rfl⟩ | ⟨p, rfl⟩ | ⟨source, p, rfl⟩
    · simpa [contributes_iff] using hk
    · simpa [contributes_iff] using hk
    · simpa [contributes_iff] using hk

theorem contribution_eq_error_iff : e.contribution layer key = .error refusal ↔
    (¬ e.IsOneKind ∧ refusal = ⟨.layer layer, .notOneKind key⟩) ∨
      e.IsOneKind ∧
        ∃ source p, e.derive = some (source, p) ∧ Origin.parse source = .error refusal := by
  obtain ⟨set, modify, derive⟩ := e
  cases set <;> cases modify <;> rcases derive with _ | ⟨source, p⟩ <;>
    simp [contribution, IsOneKind, map_eq_error_iff, eq_comm (b := refusal)]

theorem exists_contribution_iff (e : LayerEntry) (layer key : String) :
    (∃ k, e.contribution layer key = .ok k) ↔ e.IsOneKind ∧
      ∀ source p, e.derive = some (source, p) → ∃ o, Origin.parse source = .ok o := by
  simp only [contribution_eq_ok_iff_contributes, exists_and_left]
  refine and_congr_right fun hkind => ?_
  obtain ⟨c, rfl⟩ | ⟨p, rfl⟩ | ⟨source, p, rfl⟩ := isOneKind_iff.1 hkind
  · simp [contributes_iff]
  · simp [contributes_iff]
  · simp [contributes_iff]

end LayerEntry

/-- What is made of each item of a list is made of a list of the same items in another order. -/
theorem exists_mapM_eq_some_of_perm {α β : Type} {f : α → Option β} {l l' : List α} {r : List β}
    (hperm : l.Perm l') (h : l.mapM f = some r) : ∃ r', l'.mapM f = some r' ∧ r.Perm r' := by
  obtain ⟨r', hr', hperm'⟩ := List.perm_comp_forall₂ hperm.symm (mapM_eq_some_iff.1 h)
  exact ⟨r', mapM_eq_some_iff.2 hr', hperm'.symm⟩

/-- The order in which a mapping is written does not matter to the table that is read from it, if
no key is written twice. -/
theorem Datum.table?_mapping_of_perm {α : Type} {read : Node → Option α}
    {tag tag' : Option Yaml.Tag} {written written' : List (Node × Node)}
    (hperm : written.Perm written')
    (hkeys : ∀ entries, Datum.entries? (Node.mapping tag written) = some entries →
      (entries.map Prod.fst).Nodup) {t : Table String α}
    (h : table? read (Node.mapping tag written) = some t) :
    table? read (Node.mapping tag' written') = some t := by
  simp only [table?, Option.bind_eq_bind, Option.bind_eq_some_iff] at h ⊢
  obtain ⟨entries, hentries, pairs, hpairs, ht⟩ := h
  obtain ⟨entries', hentries', hpermEntries⟩ := exists_mapM_eq_some_of_perm hperm hentries
  obtain ⟨pairs', hpairs', hpermPairs⟩ := exists_mapM_eq_some_of_perm hpermEntries hpairs
  have hmap : entries.map Prod.fst = pairs.map Prod.fst := by
    refine map_eq_map_of_forall₂ (mapM_eq_some_iff.1 hpairs) fun e pair hpair => ?_
    obtain ⟨v, -, rfl⟩ := Option.map_eq_some_iff.1 hpair
    rfl
  refine ⟨entries', hentries', pairs', hpairs', ?_⟩
  rw [← ht, Table.ofList_perm hpermPairs (hmap ▸ hkeys entries hentries)]

namespace LayerDocument

/-- Two nodes write the same layer document, with the components in one order and in another. -/
inductive Reorders : Node → Node → Prop
  | mk {n n' : Node} {fields fields' : List (String × Node)} {tag tag' : Option Yaml.Tag}
      {written written' : List (Node × Node)}
      (hn : Datum.record? ["name", "components"] n = some fields)
      (hn' : Datum.record? ["name", "components"] n' = some fields')
      (hname : fields.lookup "name" = fields'.lookup "name")
      (hwritten : fields.lookup "components" = some (.mapping tag written))
      (hwritten' : fields'.lookup "components" = some (.mapping tag' written'))
      (hperm : written.Perm written')
      (hkeys : ∀ entries, Datum.entries? (Node.mapping tag written) = some entries →
        (entries.map Prod.fst).Nodup) : Reorders n n'

theorem Reorders.symm {n n' : Node} (h : Reorders n n') : Reorders n' n := by
  obtain ⟨hn, hn', hname, hwritten, hwritten', hperm, hkeys⟩ := h
  refine .mk hn' hn hname.symm hwritten' hwritten hperm.symm fun entries hentries => ?_
  obtain ⟨entries', hentries', hpermEntries⟩ := exists_mapM_eq_some_of_perm hperm.symm hentries
  exact (hpermEntries.map Prod.fst).nodup_iff.2 (hkeys entries' hentries')

theorem Reorders.ofNode?_eq_some {n n' : Node} {d : LayerDocument} (h : Reorders n n')
    (hd : ofNode? n = some d) : ofNode? n' = some d := by
  obtain ⟨hn, hn', hname, hwritten, hwritten', hperm, hkeys⟩ := h
  simp only [ofNode?, hn, hn', Datum.field?, hname, hwritten, hwritten', Option.bind_eq_bind,
    Option.bind_eq_some_iff, Option.some.injEq, exists_eq_left'] at hd ⊢
  obtain ⟨name, hread, entries, hentries, rfl⟩ := hd
  exact ⟨name, hread, entries, Datum.table?_mapping_of_perm hperm hkeys hentries, rfl⟩

theorem Reorders.ofNode?_eq {n n' : Node} (h : Reorders n n') : ofNode? n = ofNode? n' :=
  Option.ext fun _ => ⟨h.ofNode?_eq_some, h.symm.ofNode?_eq_some⟩

/-- Two components, written in one order and in the other. -/
example (v w : Node) :
    Reorders
      (.mapping none [(.scalar none "components" .plain, .mapping none
        [(.scalar none "curl" .plain, v), (.scalar none "a tool" .plain, w)])])
      (.mapping none [(.scalar none "components" .plain, .mapping none
        [(.scalar none "a tool" .plain, w), (.scalar none "curl" .plain, v)])]) := by
  refine .mk rfl rfl rfl rfl rfl (.swap _ _ _) fun entries hentries => ?_
  cases hentries
  change ["curl", "a tool"].Nodup
  decide

end LayerDocument

namespace Layer

open LayerEntry

variable {layer key fallback : String} {e : LayerEntry} {entries : List (String × LayerEntry)}
  {ks : List (String × Contribution)} {d : LayerDocument} {refusal : Refusal} {l : Layer}

/-- What a layer assigns to a key because of its entry. -/
def assign (layer : String) (x : String × LayerEntry) : Except Refusal (String × Contribution) :=
  if Name.isValid x.1 then (x.2.contribution layer x.1).map (x.1, ·)
  else .error ⟨.layer layer, .invalidName x.1⟩

theorem contributions_eq_mapM (layer : String) (entries : List (String × LayerEntry)) :
    contributions layer entries = entries.mapM (assign layer) := by
  induction entries with
  | nil => rfl
  | cons x entries ih =>
      obtain ⟨key, e⟩ := x
      rw [contributions, List.mapM_cons, assign, ← ih]
      by_cases hkey : Name.isValid key
      · simp only [hkey, Bool.not_true, Bool.false_eq_true, if_false, if_true]
        cases e.contribution layer key with
        | error refusal => rfl
        | ok k => cases contributions layer entries <;> rfl
      · simp only [hkey, Bool.not_false, if_true, Bool.false_eq_true, if_false]
        rfl

theorem assign_eq_error_iff : assign layer (key, e) = .error refusal ↔
    e.HasFault layer key refusal := by
  rw [assign]
  constructor
  · intro h
    split at h
    · next hkey =>
      rcases contribution_eq_error_iff.1 (map_eq_error_iff.1 h) with
        ⟨hkind, rfl⟩ | ⟨hkind, source, p, hderive, ho⟩
      · exact .kind hkey hkind
      · exact .origin hkey hkind hderive ho
    · next hkey =>
      cases h
      exact .name hkey
  · intro h
    cases h with
    | name hkey => exact if_neg hkey
    | kind hkey hkind =>
        rw [if_pos hkey, map_eq_error_iff, contribution_eq_error_iff]
        exact .inl ⟨hkind, rfl⟩
    | origin hkey hkind hderive ho =>
        rw [if_pos hkey, map_eq_error_iff, contribution_eq_error_iff]
        exact .inr ⟨hkind, _, _, hderive, ho⟩

/-- A document is refused for a fault of the least key that has one. -/
theorem ofDocument_eq_error_iff : ofDocument d fallback = .error refusal ↔
    ∃ key e, d.entries.get? key = some e ∧ e.HasFault (d.name.getD fallback) key refusal ∧
      ∀ key' e' refusal', d.entries.get? key' = some e' →
        e'.HasFault (d.name.getD fallback) key' refusal' → key ≤ key' := by
  simp only [← assign_eq_error_iff, ← Table.mapM_toList_eq_error_iff, ← contributions_eq_mapM]
  rw [ofDocument]
  split
  · next h => simp [h]
  · next h => simp [h]

theorem exists_ofDocument_iff : (∃ l, ofDocument d fallback = .ok l) ↔
    ∀ key e, d.entries.get? key = some e → Name.isValid key ∧ e.IsOneKind ∧
      ∀ source p, e.derive = some (source, p) → ∃ o, Origin.parse source = .ok o := by
  have hentry : ∀ x : String × LayerEntry,
      (∃ k : String × Contribution, k.1 = x.1 ∧ Name.isValid x.1 ∧
        x.2.contribution (d.name.getD fallback) x.1 = .ok k.2) ↔
      Name.isValid x.1 ∧ x.2.IsOneKind ∧
        ∀ source p, x.2.derive = some (source, p) → ∃ o, Origin.parse source = .ok o := by
    rintro ⟨key, e⟩
    rw [← exists_contribution_iff e (d.name.getD fallback) key]
    constructor
    · rintro ⟨⟨_, k⟩, rfl, hkey, hk⟩
      exact ⟨hkey, k, hk⟩
    · rintro ⟨hkey, k, hk⟩
      exact ⟨(key, k), rfl, hkey, hk⟩
  have hok : (∃ l, ofDocument d fallback = .ok l) ↔
      ∃ ks, contributions (d.name.getD fallback) d.entries.toList = .ok ks := by
    rw [ofDocument]
    split
    · next h => simp [h]
    · next h => simp [h]
  rw [hok, Table.forall_get?_iff]
  simp only [contributions_eq_ok_iff, exists_forall₂_iff, hentry]

theorem map_fst_contributions (h : contributions layer entries = .ok ks) :
    ks.map Prod.fst = entries.map Prod.fst := by
  refine (map_eq_map_of_forall₂ (contributions_eq_ok_iff.1 h) fun e k hk => ?_).symm
  exact hk.1.symm

theorem name_of_ofDocument (h : ofDocument d fallback = .ok l) :
    l.name = d.name.getD fallback := by
  rw [ofDocument] at h
  split at h
  · cases h
  · cases h
    rfl

/-- The layer of a document assigns to each key what the entry of the key says. -/
theorem exists_contributes_of_ofDocument (h : ofDocument d fallback = .ok l)
    (he : d.entries.get? key = some e) :
    ∃ k, l.overlay.get? key = some k ∧ e.Contributes key k := by
  rw [ofDocument] at h
  split at h
  · cases h
  · next ks hks =>
    cases h
    obtain ⟨⟨_, k⟩, hmem, rfl, -, hk⟩ :=
      exists_mem_of_forall₂ (contributions_eq_ok_iff.1 hks) (Table.get?_eq_some_iff.1 he)
    have hnodup : (ks.map Prod.fst).Nodup := by
      rw [map_fst_contributions hks]
      exact d.entries.nodup_keys
    refine ⟨k, ?_, (contribution_eq_ok_iff_contributes.1 hk).2⟩
    exact Table.get?_eq_some_iff.2 ((Table.mem_toList_ofList hnodup).2 hmem)

theorem contains_overlay_iff (h : ofDocument d fallback = .ok l) (key : String) :
    l.overlay.contains key ↔ d.entries.contains key := by
  rw [Table.contains, Table.contains, Option.isSome_iff_exists, Option.isSome_iff_exists]
  constructor
  · rintro ⟨k, hk⟩
    obtain ⟨-, e, he, -⟩ := exists_entry_of_ofDocument h hk
    exact ⟨e, he⟩
  · rintro ⟨e, he⟩
    obtain ⟨k, hk, -⟩ := exists_contributes_of_ofDocument h he
    exact ⟨k, hk⟩

/-- A text that holds a layer document describes a layer exactly if each of its keys is a
component name and each of its entries is of one kind and, if something is derived, names an
origin. The layer has the name in the document or else the other one, and it assigns to each
key of the document, and to no other one, what the entry says. Otherwise the text is refused
for a fault of the key that is least in the order of bytes among those that have one; that a
key is no component name comes before the faults of its entry. The order in which the components
are written makes no difference. -/
theorem parse_entry_by_entry {s : String} {d : LayerDocument}
    (hd : (Node.parse? s).bind LayerDocument.ofNode? = some d) (fallback : String) :
    ((∃ l, parse s fallback = .ok l) ↔ ∀ key e, d.entries.get? key = some e →
      Name.isValid key ∧ e.IsOneKind ∧ ∀ source p, e.derive = some (source, p) →
        ∃ name, Name.isValid name ∧ (source = "previous." ++ name ∨ source = "final." ++ name)) ∧
    (∀ l, parse s fallback = .ok l → l.name = d.name.getD fallback ∧
      (∀ key, l.overlay.contains key ↔ d.entries.contains key) ∧
      ∀ key e, d.entries.get? key = some e →
        ∃ k, l.overlay.get? key = some k ∧ e.Contributes key k) ∧
    (∀ refusal, parse s fallback = .error refusal ↔ ∃ key e, d.entries.get? key = some e ∧
      e.HasFault (d.name.getD fallback) key refusal ∧
      ∀ key' e' refusal', d.entries.get? key' = some e' →
        e'.HasFault (d.name.getD fallback) key' refusal' → utf8 key ≤ utf8 key') ∧
    ∀ s' n n', Node.parse? s = some n → Node.parse? s' = some n' →
      LayerDocument.Reorders n n' → parse s' fallback = parse s fallback := by
  have hparse : parse s fallback = ofDocument d fallback := by simp only [parse, hd]
  refine ⟨?_, fun l h => ?_, fun refusal => ?_, fun s' n n' hn hn' hreorders => ?_⟩
  · simp only [hparse, exists_ofDocument_iff, Origin.exists_parse_iff]
  · rw [hparse] at h
    exact ⟨name_of_ofDocument h, contains_overlay_iff h,
      fun key e he => exists_contributes_of_ofDocument h he⟩
  · simp only [hparse, ofDocument_eq_error_iff, utf8_le_utf8_iff]
  · rw [hn, Option.bind_some, hreorders.ofNode?_eq] at hd
    rw [hparse, parse, hn', Option.bind_some, hd]

/-- A document in which all three entries are at fault, the least key written last. -/
def faultyDocument : String :=
  "components:\n" ++
  "  wget:\n" ++
  "    derive:\n" ++
  "      from: latest.curl\n" ++
  "  curl:\n" ++
  "    set:\n" ++
  "      version: a\n" ++
  "    modify:\n" ++
  "      version: b\n" ++
  "  a tool:\n" ++
  "    set:\n" ++
  "      version: a\n" ++
  "    modify:\n" ++
  "      version: b\n"

theorem parse_entry_by_entry_faulty :
    (∃ d, (Node.parse? faultyDocument).bind LayerDocument.ofNode? = some d ∧
      d.entries.keys = ["a tool", "curl", "wget"]) ∧
    parse faultyDocument "tools" = .error ⟨.layer "tools", .invalidName "a tool"⟩ := by
  have hread : (((Node.parse? faultyDocument).bind LayerDocument.ofNode?).map
      fun d => (d.entries.keys, d.name)) = some (["a tool", "curl", "wget"], none) := by
    decide +kernel
  obtain ⟨d, hd, hkeysname⟩ := Option.map_eq_some_iff.1 hread
  obtain ⟨hkeys, hname⟩ := Prod.mk.inj hkeysname
  have hmem {key : String} : d.entries.contains key ↔ key ∈ ["a tool", "curl", "wget"] := by
    rw [Table.contains_iff_mem_keys, hkeys]
  obtain ⟨e, he⟩ := Option.isSome_iff_exists.1 (hmem.2 (.head _))
  have hleast : ∀ key ∈ ["a tool", "curl", "wget"], utf8 "a tool" ≤ utf8 key := by
    decide +kernel
  refine ⟨⟨d, hd, hkeys⟩, ?_⟩
  refine ((parse_entry_by_entry hd "tools").2.2.1 _).2 ⟨"a tool", e, he, ?_, ?_⟩
  · rw [hname]
    exact .name (by decide)
  · intro key' e' _ he' _
    exact hleast key' (hmem.1 (Option.isSome_iff_exists.2 ⟨e', he'⟩))

end Layer

end LayeredCatalog
