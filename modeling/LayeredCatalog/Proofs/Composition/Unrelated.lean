import LayeredCatalog.Proofs.Composition.Faults
import LayeredCatalog.Proofs.Composition.Kept

/-!
# What a name depends on

The value of a name is made of what is assigned to the name and to the names that its
contributions derive from, and its plan of that and of the plans that its inputs ask
for. `Composition.DependsOn c n` has the names that are met in this way. Compositions
that assign the same to all names of such a set (`Composition.AgreeOn`) look them up and
plan them alike, step by step. So a layer on top that assigns nothing to these names
makes no difference (`Composition.ask_above`), whatever else it does.

Constant and derived contributions are meant: what a computation reads depends on what
it has read before.
-/

namespace LayeredCatalog

theorem Contribution.run_congr_of_isStatic {σ : Type}
    {answer answer' : Origin → σ → Except LayerFailure Component × σ}
    {isDefinedBelow isDefinedBelow' : String → Bool} {i : Nat} {start : σ → σ}
    {k : Contribution} (hk : k.IsStatic) (h : ∀ o t, k = .derive o t → answer o = answer' o) :
    k.run answer isDefinedBelow i start = k.run answer' isDefinedBelow' i start := by
  funext s
  cases k with
  | constant component => rfl
  | compute body => exact hk.elim
  | derive o t => rw [run, run, h o t rfl]

namespace Composition

/-- Two compositions assign the same to the names of a set. -/
structure AgreeOn (K : Set String) (c c' : Composition) : Prop where
  base_eq : ∀ name ∈ K, c.base.get? name = c'.base.get? name
  contribution?_eq : ∀ name ∈ K, ∀ i, c.contribution? i name = c'.contribution? i name

namespace AgreeOn

variable {K : Set String} {c c' : Composition} {name : String}

theorem defines_iff (h : AgreeOn K c c') (hname : name ∈ K) (s : Slot) :
    c.Defines name s ↔ c'.Defines name s := by
  cases s with
  | base => rw [Defines, Defines, Table.contains, Table.contains, h.base_eq name hname]
  | layer i => simp only [defines_layer_iff, h.contribution?_eq name hname]

theorem contains_eq (h : AgreeOn K c c') (hname : name ∈ K) :
    c.contains name = c'.contains name := by
  rw [Bool.eq_iff_iff, contains_iff_exists_defines, contains_iff_exists_defines]
  exact exists_congr (h.defines_iff hname)

theorem lastSlot?_eq (h : AgreeOn K c c') (hname : name ∈ K) :
    c.lastSlot? name = c'.lastSlot? name := by
  refine Option.ext fun s => ?_
  simp only [lastSlot?_eq_some_iff, IsLast, h.defines_iff hname]

theorem slotIn?_eq (h : AgreeOn K c c') {o : Origin} (ho : o.name ∈ K) (i : Nat) :
    c.slotIn? i o = c'.slotIn? i o := by
  refine Option.ext fun s => ?_
  simp only [slotIn?_eq_some_iff, Shows, h.defines_iff ho]

end AgreeOn

/-- A set has with each name what the contributions for it derive from and what the
inputs of its final component ask for. -/
structure IsSelfContained (c : Composition) (K : Set String) : Prop where
  source : ∀ {name i l o t}, name ∈ K → c.contribution? i name = some (l, .derive o t) →
    o.name ∈ K
  target : ∀ {a b}, a ∈ K → c.Uses a b → b ∈ K

section SelfContained

variable {K : Set String} {c c' : Composition} {name : String}

/-- Values are computed alike. The induction is on the definitions off the stack, as the
evaluation is. -/
theorem valueAt_congr (h : AgreeOn K c c') (hK : c.IsSelfContained K)
    (hc : ∀ l ∈ c.layers, l.IsStatic) (stack : List Frame) (hname : name ∈ K) (s : Slot) :
    c.valueAt stack name s = c'.valueAt stack name s := by
  induction hfree : (c.freeCells stack).length using Nat.strong_induction_on
    generalizing stack name s with
  | _ free ih =>
  subst hfree
  funext m
  cases s with
  | base => rw [valueAt, valueAt, h.base_eq name hname]
  | layer i =>
      have hassigned := h.contribution?_eq name hname i
      cases hm : m.values.lookup (name, i) with
      | some v => rw [valueAt_of_kept hm, valueAt_of_kept hm]
      | none =>
          cases hk : c.contribution? i name with
          | none =>
              rw [valueAt_of_contribution?_none hm hk,
                valueAt_of_contribution?_none hm (hassigned.symm.trans hk)]
          | some x =>
              obtain ⟨l, k⟩ := x
              have hk' := hassigned.symm.trans hk
              by_cases hs : .define name i ∈ stack
              · rw [valueAt_of_mem_stack hm hk hs, valueAt_of_mem_stack hm hk' hs]
              · have hrun : ∀ o t, k = .derive o t →
                    c.answer i (c.valueAt (.define name i :: stack)) o =
                      c'.answer i (c'.valueAt (.define name i :: stack)) o := by
                  rintro o t rfl
                  have ho := hK.source hname hk
                  have hvalue (s' : Slot) := ih _ (length_freeCells_lt hk hs) _ ho s' rfl
                  funext m'
                  simp only [answer, h.slotIn?_eq ho, hvalue]
                rw [valueAt_of_contribution? hm hk hs, valueAt_of_contribution? hm hk' hs,
                  Contribution.run_congr_of_isStatic (forall_contribution? hc hk) hrun]

theorem lookup_congr (h : AgreeOn K c c') (hK : c.IsSelfContained K)
    (hc : ∀ l ∈ c.layers, l.IsStatic) (stack : List Frame) (hname : name ∈ K) :
    c.lookup stack name = c'.lookup stack name := by
  funext m
  simp only [lookup, h.lastSlot?_eq hname, valueAt_congr h hK hc stack hname]

/-- Plans are made alike, from a memo in which nothing is wrong: the names that inputs ask
for are then in the set as well. -/
theorem planWith_coincide (h : AgreeOn K c c') (hK : c.IsSelfContained K)
    (hc : ∀ l ∈ c.layers, l.IsStatic) (names : List String) (hname : name ∈ K)
    (hnames : ∀ name' ∈ names, Relation.TransGen c.Uses name' name) :
    Coincide (Memo.IsSound c) (c'.planWith (names.map .plan) name)
      (c.planWith (names.map .plan) name) := by
  have hpasses := passesErrors_of_isStatic hc
  induction hfree : (c.freeNames (names.map .plan)).length using Nat.strong_induction_on
    generalizing names name with
  | _ free ih =>
  subst hfree
  refine (planWith_computes hpasses _ name (by simp) (by simpa using hnames)).coincide ?_
  intro m hm
  have hcontains := h.contains_eq hname
  by_cases hassigned : c.contains name
  · have hassigned' : c'.contains name := hcontains ▸ hassigned
    cases hkept : m.plans.lookup name with
    | some p => rw [planWith_of_kept hassigned hkept, planWith_of_kept hassigned' hkept]
    | none =>
        by_cases hs : .plan name ∈ names.map Frame.plan
        · rw [planWith_of_mem_stack hassigned hkept hs, planWith_of_mem_stack hassigned' hkept hs]
        · rw [planWith_of_not_mem_stack hassigned hkept hs,
            planWith_of_not_mem_stack hassigned' hkept hs, ← List.map_cons]
          have hlookup := lookup_computes hpasses ((name :: names).map .plan) name (by simp)
          have henter := hm.note (.enter (.plan name))
          refine makePlan_eq henter (hlookup.coincide fun m' _ => ?_) fun v m' hv hm' => ?_
          · rw [lookup_congr h hK hc _ hname]
          · have hfinal : c.HasFinal name v := by
              rw [← hlookup.eq_ok_iff henter, hv]
            refine (fill_coincide name (fun slot target hmem => ?_) m' hm').1
            have huses : c.Uses name target := ⟨v, slot, hfinal, hmem⟩
            have htarget := hK.target hname huses
            refine ⟨(h.contains_eq htarget).symm, ?_⟩
            exact ih _ (length_freeNames_lt hassigned hs) (name :: names) htarget
              (List.forall_mem_cons.2 ⟨.single huses, fun name' h => (hnames name' h).tail huses⟩)
              rfl
  · rw [planWith_of_not_contains hassigned, planWith_of_not_contains (hcontains ▸ hassigned)]

end SelfContained

/-- The names that a name depends on: itself, and with each name what the contributions
of any layer for it derive from and what the inputs of its final component ask for. -/
inductive DependsOn (c : Composition) (n : String) : String → Prop where
  | self : DependsOn c n n
  | source {name : String} {i : Nat} {l : Layer} {o : Origin} {t : Transform} :
      DependsOn c n name → c.contribution? i name = some (l, .derive o t) → DependsOn c n o.name
  | target {name slot target : String} {v : Component} :
      DependsOn c n name → (c.lookup [] name {}).1 = .ok v →
      (slot, .catalog target) ∈ v.inputs.toList → DependsOn c n target

theorem isSelfContained_dependsOn {c : Composition} (hc : ∀ l ∈ c.layers, l.IsStatic)
    (n : String) : c.IsSelfContained {name | c.DependsOn n name} := by
  constructor
  · intro name i l o t hname hk
    exact .source hname hk
  · rintro a b ha ⟨v, slot, hv, hmem⟩
    have hlookup := lookup_computes (passesErrors_of_isStatic hc) [] a (by simp)
    exact .target ha ((hlookup.eq_ok_iff (Memo.IsSound.empty c) v).2 hv) hmem

/-- The composition with one more layer on top. -/
def above (c : Composition) (l : Layer) : Composition := { c with layers := c.layers ++ [l] }

/-- A layer on top leaves the names alone that it does not assign. -/
theorem agreeOn_above {c : Composition} {l : Layer} {K : Set String}
    (h : ∀ name ∈ K, ¬ l.overlay.contains name) : AgreeOn K c (c.above l) where
  base_eq _ _ := rfl
  contribution?_eq name hname i := by
    have hnone : l.overlay.get? name = none := by
      simpa [Table.contains] using h name hname
    rw [contribution?, contribution?, above]
    rcases Nat.lt_or_ge i c.layers.length with hlt | hge
    · rw [List.getElem?_append_left hlt]
    · rw [List.getElem?_append_right hge, List.getElem?_eq_none hge]
      cases i - c.layers.length with
      | zero => simp [hnone]
      | succ j => rfl

end Composition

/-- Whether a question is about one name of a set. -/
def Query.IsAbout (K : Set String) : Query → Prop
  | .lookup name => name ∈ K
  | .plan name => name ∈ K
  | _ => False

namespace Composition

/-- A question about one of the names is answered alike, with the same left in the memo. -/
theorem AgreeOn.ask_coincide {K : Set String} {c c' : Composition} (h : AgreeOn K c c')
    (hK : c.IsSelfContained K) (hc : ∀ l ∈ c.layers, l.IsStatic) {q : Query} (hq : q.IsAbout K) :
    Coincide (Memo.IsSound c) (c'.ask q) (c.ask q) := by
  intro m hm
  obtain ⟨a, ha⟩ := ask_settles (passesErrors_of_isStatic hc) q
  refine ⟨?_, (ha m hm).2⟩
  cases q with
  | lookup name => rw [ask, ask, lookup_congr h hK hc [] hq]
  | plan name =>
      have hplan := planWith_coincide h hK hc [] hq (by simp) m hm
      rw [List.map_nil] at hplan
      rw [ask, ask, hplan.1]
  | resolve => exact hq.elim
  | contains name => exact hq.elim
  | names => exact hq.elim

theorem AgreeOn.memoAfter_eq {K : Set String} {c c' : Composition} (h : AgreeOn K c c')
    (hK : c.IsSelfContained K) (hc : ∀ l ∈ c.layers, l.IsStatic) {qs : List Query}
    (hqs : ∀ q ∈ qs, q.IsAbout K) : c'.memoAfter qs = c.memoAfter qs := by
  induction qs using List.reverseRecOn with
  | nil => rfl
  | append_singleton qs q ih =>
      have hsound := isSound_memoAfter (passesErrors_of_isStatic hc) qs
      have hq := h.ask_coincide hK hc (hqs q (by simp))
      rw [memoAfter_concat, memoAfter_concat, ih fun q hmem => hqs q (by simp [hmem]),
        (hq _ hsound).1]

/-- One more layer on top that assigns none of the names that `n` depends on makes no
difference to `n`: it is looked up and planned step by step as before, faults included.
The same goes for what it depends on, whichever of these questions came first. The
layers below have constant and derived contributions, the one on top may have any. -/
theorem ask_above {c : Composition} (hc : ∀ l ∈ c.layers, l.IsStatic) {n : String} {l : Layer}
    (hl : ∀ name, c.DependsOn n name → ¬ l.overlay.contains name) :
    (c.above l).ask (.lookup n) {} = c.ask (.lookup n) {} ∧
      (c.above l).ask (.plan n) {} = c.ask (.plan n) {} ∧
      ∀ qs, (∀ q ∈ qs, q.IsAbout {name | c.DependsOn n name}) →
        ∀ q, q.IsAbout {name | c.DependsOn n name} →
          (c.above l).ask q ((c.above l).memoAfter qs) = c.ask q (c.memoAfter qs) := by
  have hagree : AgreeOn {name | c.DependsOn n name} c (c.above l) := agreeOn_above hl
  have hself := isSelfContained_dependsOn hc n
  have hall : ∀ qs, (∀ q ∈ qs, q.IsAbout {name | c.DependsOn n name}) →
      ∀ q, q.IsAbout {name | c.DependsOn n name} →
        (c.above l).ask q ((c.above l).memoAfter qs) = c.ask q (c.memoAfter qs) := by
    intro qs hqs q hq
    have hsound := isSound_memoAfter (passesErrors_of_isStatic hc) qs
    rw [hagree.memoAfter_eq hself hc hqs]
    exact (hagree.ask_coincide hself hc hq _ hsound).1
  have hfirst := hall [] (by simp)
  exact ⟨hfirst (.lookup n) .self, hfirst (.plan n) .self, hall⟩

/-- `wget` is made of the final `curl`, and `curl` links a `zlib` that nobody assigns. -/
def zlibless : Composition where
  base := Catalog.add ∅
    { name := "curl", version := "8.5", inputs := .ofList [("tls", .catalog "zlib")] }
  layers := [⟨"tools", Overlay.derive ∅ "wget" ⟨.final, "curl"⟩ (.replace .ok)⟩]

theorem isStatic_zlibless : ∀ l ∈ zlibless.layers, l.IsStatic :=
  List.forall_mem_singleton.2 <| Layer.isStatic_iff_forall_mem.2 <|
    List.forall_mem_singleton.2 trivial

theorem mem_of_dependsOn_zlibless {name : String} (h : zlibless.DependsOn "wget" name) :
    name ∈ ["wget", "curl", "zlib"] := by
  have hinputs : ∀ name ∈ ["wget", "curl", "zlib"],
      ∀ inputs ∈ (zlibless.lookup [] name {}).1.toOption.map (·.inputs.toList),
        inputs = [("tls", .catalog "zlib")] := by
    decide +kernel
  induction h with
  | self => decide
  | source _ hk _ =>
      obtain ⟨hl, hget⟩ := contribution?_eq_some_iff.1 hk
      obtain rfl := List.mem_singleton.1 (List.mem_of_getElem? hl)
      cases List.mem_singleton.1 (Table.get?_eq_some_iff.1 hget)
      decide
  | @target name _ _ v _ hv hmem ih =>
      have hv' : v.inputs.toList ∈ (zlibless.lookup [] name {}).1.toOption.map
          (·.inputs.toList) := by
        rw [hv]
        rfl
      rw [hinputs name ih _ hv'] at hmem
      cases List.mem_singleton.1 hmem
      decide

/-- A layer that assigns a `perl` of its own if there is no final `openssl` to take. -/
def perlLayer : Layer where
  name := "perl"
  overlay := Overlay.define ∅ "perl" fun _ => .read ⟨.final, "openssl"⟩ fun
    | .ok old => .done (.ok old)
    | .error _ => .done (.ok { name := "perl", version := "5.38" })

theorem ask_above_zlibless :
    (∀ l ∈ zlibless.layers, l.IsStatic) ∧
      (∀ name, zlibless.DependsOn "wget" name → ¬ perlLayer.overlay.contains name) ∧
      (zlibless.above perlLayer).ask (.plan "wget") {} = zlibless.ask (.plan "wget") {} ∧
      ((zlibless.above perlLayer).ask (.plan "wget") {}).1.error? =
        some (.danglingInput "zlib" "wget" "tls") := by
  have hperl : ∀ name, zlibless.DependsOn "wget" name → ¬ perlLayer.overlay.contains name := by
    have hnone : ∀ name ∈ ["wget", "curl", "zlib"], ¬ perlLayer.overlay.contains name := by
      decide
    exact fun name hname => hnone name (mem_of_dependsOn_zlibless hname)
  have h := (ask_above isStatic_zlibless hperl).2.1
  refine ⟨isStatic_zlibless, hperl, h, ?_⟩
  rw [h]
  decide +kernel

end Composition

end LayeredCatalog
