import LayeredCatalog.Proofs.ByteOrder
import LayeredCatalog.Proofs.Encoding
import LayeredCatalog.Proofs.Resolution.Closed

/-!
# Artifacts name whole dependency trees

A plan expands to the tree of what is built (`Plan.expand`): the recipe of its
component and, slot by slot, an external identifier or the tree of what fills the slot.
Digests do not occur in it. The artifact of a plan is the digest of a text that has
only the digests of the plans below it, so it names the tree as far as the hash
function tells the texts of the nodes apart: of two plans with one artifact the trees
are equal, or two of their nodes collide (`Plan.expand_eq_of_artifact_eq`).
-/

namespace LayeredCatalog

theorem map_eq_of_map_eq {α β γ : Type*} {f : α → β} {g : α → γ} {l l' : List α}
    (h : ∀ a ∈ l, ∀ a' ∈ l', f a = f a' → g a = g a') (hl : l.map f = l'.map f) :
    l.map g = l'.map g := by
  induction l generalizing l' with
  | nil =>
      rw [List.map_nil, eq_comm, List.map_eq_nil_iff] at hl
      rw [hl]
  | cons a l ih =>
      cases l' with
      | nil => cases hl
      | cons a' l' =>
          rw [List.map_cons, List.map_cons, List.cons.injEq] at hl
          have hhead : g a = g a' := h a (by simp) a' (by simp) hl.1
          have htail : l.map g = l'.map g := by
            refine ih (fun b hb b' hb' => ?_) hl.2
            exact h b (List.mem_cons_of_mem _ hb) b' (List.mem_cons_of_mem _ hb')
          rw [List.map_cons, List.map_cons, hhead, htail]

mutual

/-- A component and everything that is built for it. -/
inductive BuildTree where
  | node (recipe : Recipe) (inputs : List (String × BuildInput))

/-- What is built, or fetched from outside, for one input. -/
inductive BuildInput where
  | tree (tree : BuildTree)
  | external (id : String)

end

mutual

/-- The tree of a plan. -/
def Plan.expand : Plan → BuildTree
  | .make component inputs _ => .node component.recipe (expandInputs inputs)

def expandInputs : List (String × PlanInput) → List (String × BuildInput)
  | [] => []
  | (slot, input) :: inputs => (slot, input.expand) :: expandInputs inputs

def PlanInput.expand : PlanInput → BuildInput
  | .component plan => .tree plan.expand
  | .external id => .external id

end

theorem expandInputs_eq_map (inputs : List (String × PlanInput)) :
    expandInputs inputs = inputs.map fun e => (e.1, e.2.expand) := by
  induction inputs with
  | nil => rw [expandInputs, List.map_nil]
  | cons e inputs ih => rw [expandInputs, ih, List.map_cons]

namespace Plan

theorem expand_eq (p : Plan) :
    p.expand = .node p.component.recipe (p.inputs.map fun e => (e.1, e.2.expand)) := by
  cases p with
  | make component inputs artifact =>
      rw [expand, expandInputs_eq_map]
      rfl

/-- The text that a plan is named by. -/
def text (p : Plan) : String :=
  Encoding.encode p.component (p.inputs.map fun e => (e.1, e.2.handle))

theorem text_eq_iff {p q : Plan} :
    p.text = q.text ↔
      p.component.recipe = q.component.recipe ∧
        p.inputs.map (fun e => (e.1, e.2.handle)) = q.inputs.map fun e => (e.1, e.2.handle) := by
  constructor
  · exact Encoding.eq_of_encode_eq
  · rintro ⟨hrecipe, hinputs⟩
    rw [text, text, hinputs, Encoding.encode_congr hrecipe]

/-- The artifact of a plan is the digest of bytes that tell the recipe of its component and,
slot by slot, the artifact or the identifier that fills the slot, whatever characters the
fields have. -/
theorem build_artifact_exact (c c' : Component) (inputs inputs' : List (String × PlanInput)) :
    (build c inputs).artifact = .ofBytes (utf8 (build c inputs).text) ∧
    (utf8 (build c inputs).text = utf8 (build c' inputs').text ↔
      (c.name = c'.name ∧ c.version = c'.version ∧ c.builder = c'.builder ∧
        c.params = c'.params ∧ c.patches = c'.patches ∧ c.excludedTests = c'.excludedTests ∧
        c.postBuild = c'.postBuild) ∧
      inputs.map (fun e => (e.1, e.2.handle)) = inputs'.map fun e => (e.1, e.2.handle)) := by
  constructor
  · rw [← toList_toUTF8]
    rfl
  · rw [utf8_inj, text_eq_iff, ← Component.recipe_eq_iff]
    rfl

/-- A plan all of whose nodes are named by their texts. -/
inductive IsBuilt : Plan → Prop where
  | build {component : Component} {inputs : List (String × PlanInput)} :
      (∀ slot q, (slot, PlanInput.component q) ∈ inputs → IsBuilt q) →
      IsBuilt (Plan.build component inputs)

theorem IsBuilt.artifact_eq {p : Plan} (h : p.IsBuilt) : p.artifact = .ofText p.text := by
  cases h with
  | build _ => rfl

theorem IsBuilt.of_feeds {p q : Plan} (h : p.IsBuilt) (hq : q.Feeds p) : q.IsBuilt := by
  cases h with
  | build hinputs =>
      obtain ⟨slot, hmem⟩ := hq
      exact hinputs slot q hmem

/-- The plan `q` is a node of the tree of `p`. -/
def IsNode (p q : Plan) : Prop := Relation.ReflTransGen (Function.swap Feeds) p q

/-- Among the nodes of two trees there are two with different texts and one digest. -/
def Collides (p q : Plan) : Prop :=
  ∃ a b, (p.IsNode a ∨ q.IsNode a) ∧ (p.IsNode b ∨ q.IsNode b) ∧ a.text ≠ b.text ∧
    Digest.ofText a.text = Digest.ofText b.text

theorem Collides.of_feeds {p p' q q' : Plan} (h : p.Collides q) (hp : p.Feeds p')
    (hq : q.Feeds q') : p'.Collides q' := by
  obtain ⟨a, b, ha, hb, htexts, hdigests⟩ := h
  have hup : ∀ c, p.IsNode c ∨ q.IsNode c → p'.IsNode c ∨ q'.IsNode c := by
    rintro c (hc | hc)
    · exact .inl (hc.head hp)
    · exact .inr (hc.head hq)
  exact ⟨a, b, hup a ha, hup b hb, htexts, hdigests⟩

end Plan

namespace PlanInput

theorem handle_eq_of_expand_eq {input input' : PlanInput}
    (h : ∀ q q', input = .component q → input' = .component q' → q.expand = q'.expand →
      q.artifact = q'.artifact) (hinput : input.expand = input'.expand) :
    input.handle = input'.handle := by
  cases input with
  | external id =>
      cases input' with
      | external id' =>
          rw [expand, expand, BuildInput.external.injEq] at hinput
          rw [hinput]
      | component q' =>
          rw [expand, expand] at hinput
          cases hinput
  | component q =>
      cases input' with
      | external id' =>
          rw [expand, expand] at hinput
          cases hinput
      | component q' =>
          rw [expand, expand, BuildInput.tree.injEq] at hinput
          rw [handle, handle, h q q' rfl rfl hinput]

theorem expand_eq_of_handle_eq {input input' : PlanInput}
    (h : ∀ q q', input = .component q → input' = .component q' → q.artifact = q'.artifact →
      q.expand = q'.expand) (hinput : input.handle = input'.handle) :
    input.expand = input'.expand := by
  cases input with
  | external id =>
      cases input' with
      | external id' =>
          rw [handle, handle, InputHandle.external.injEq] at hinput
          rw [hinput]
      | component q' => cases hinput
  | component q =>
      cases input' with
      | external id' => cases hinput
      | component q' =>
          rw [handle, handle, InputHandle.artifact.injEq] at hinput
          rw [expand, expand, h q q' rfl rfl hinput]

end PlanInput

namespace Plan

/-- Plans with one tree have one artifact. -/
theorem artifact_eq_of_expand_eq {p q : Plan} (hp : p.IsBuilt) (hq : q.IsBuilt)
    (h : p.expand = q.expand) : p.artifact = q.artifact := by
  induction hp generalizing q with
  | @build component inputs hinputs ih =>
      have hp : (Plan.build component inputs).IsBuilt := .build hinputs
      rw [expand_eq, expand_eq, BuildTree.node.injEq] at h
      have hhandles : inputs.map (fun e => (e.1, e.2.handle)) =
          q.inputs.map fun e => (e.1, e.2.handle) := by
        refine map_eq_of_map_eq ?_ h.2
        rintro ⟨slot, input⟩ hmem ⟨slot', input'⟩ hmem' heq
        obtain ⟨rfl, heq⟩ := Prod.mk.inj heq
        refine Prod.ext rfl (PlanInput.handle_eq_of_expand_eq ?_ heq)
        rintro p' q' rfl rfl hexpand
        exact ih slot p' hmem (hq.of_feeds ⟨slot, hmem'⟩) hexpand
      rw [hp.artifact_eq, hq.artifact_eq, text_eq_iff.2 ⟨h.1, hhandles⟩]

/-- Plans with one artifact have one tree, if no two of their nodes collide. -/
theorem expand_eq_of_artifact_eq {p q : Plan} (hp : p.IsBuilt) (hq : q.IsBuilt)
    (hcollides : ¬ p.Collides q) (h : p.artifact = q.artifact) : p.expand = q.expand := by
  induction hp generalizing q with
  | @build component inputs hinputs ih =>
      have hp : (Plan.build component inputs).IsBuilt := .build hinputs
      rw [hp.artifact_eq, hq.artifact_eq] at h
      -- Different texts here would be a collision of the two roots.
      have htext : (Plan.build component inputs).text = q.text := by
        by_contra hne
        exact hcollides ⟨_, q, .inl .refl, .inr .refl, hne, h⟩
      obtain ⟨hrecipe, hhandles⟩ := text_eq_iff.1 htext
      rw [expand_eq, expand_eq, BuildTree.node.injEq]
      refine ⟨hrecipe, map_eq_of_map_eq ?_ hhandles⟩
      rintro ⟨slot, input⟩ hmem ⟨slot', input'⟩ hmem' heq
      obtain ⟨rfl, heq⟩ := Prod.mk.inj heq
      refine Prod.ext rfl (PlanInput.expand_eq_of_handle_eq ?_ heq)
      rintro p' q' rfl rfl hartifact
      refine ih slot p' hmem (hq.of_feeds ⟨slot, hmem'⟩) ?_ hartifact
      exact fun h => hcollides (h.of_feeds ⟨slot, hmem⟩ ⟨slot, hmem'⟩)

/-- The plan at the end of a path of slots. -/
def descend? (p : Plan) (path : List String) : Option Plan := path.foldlM input? p

theorem input?_eq_some_iff {p q : Plan} {slot : String} :
    p.input? slot = some q ↔ p.inputs.lookup slot = some (.component q) := by
  rw [input?]
  split
  · next q' hq' => rw [hq', Option.some.injEq, Option.some.injEq, PlanInput.component.injEq]
  · next hne =>
    constructor
    · intro h
      cases h
    · intro h
      exact absurd h (hne q)

/-- Equal trees are equal at the end of each path. -/
theorem expand_eq_of_descend? {p q a b : Plan} {path : List String} (h : p.expand = q.expand)
    (ha : p.descend? path = some a) (hb : q.descend? path = some b) : a.expand = b.expand := by
  induction path generalizing p q with
  | nil =>
      cases ha
      cases hb
      exact h
  | cons slot path ih =>
      rw [descend?, List.foldlM_cons] at ha hb
      obtain ⟨p', hp', ha⟩ := Option.bind_eq_some_iff.1 ha
      obtain ⟨q', hq', hb⟩ := Option.bind_eq_some_iff.1 hb
      rw [expand_eq, expand_eq, BuildTree.node.injEq] at h
      have hlookup := congrArg (fun inputs => inputs.lookup slot) h.2
      simp only [lookup_map_value, input?_eq_some_iff.1 hp', input?_eq_some_iff.1 hq',
        Option.map_some, Option.some.injEq, PlanInput.expand, BuildInput.tree.injEq] at hlookup
      exact ih hlookup ha hb

end Plan

/-- The plans of a closed catalog are named by their texts, and so are all below them. -/
theorem ResolvedCatalog.IsClosed.isBuilt {r : ResolvedCatalog} (h : r.IsClosed) {n : String}
    {p : Plan} (hp : r.get? n = some p) : p.IsBuilt := by
  induction hsize : sizeOf p using Nat.strong_induction_on generalizing n p with
  | _ size ih =>
      -- What fills the inputs is in the catalog as well, and smaller.
      have hinputs : ∀ q : Plan, q.Feeds p → q.IsBuilt := by
        intro q hq
        obtain ⟨m, hm⟩ := h.exists_get?_of_feeds hp hq
        exact ih (sizeOf q) (hsize ▸ hq.sizeOf_lt) hm rfl
      obtain ⟨v, filled, -, rfl⟩ := h n p hp
      exact .build fun slot q hmem => hinputs q ⟨slot, hmem⟩

namespace Composition

/-- The artifacts of two resolved catalogs, of the same layers or not, whatever was
asked before. Plans with one tree have one artifact; plans with one artifact have one
tree, or two of their nodes collide. So a plan that differs from another one at the
end of some path of slots has another artifact, or there is a collision. -/
theorem resolveWith_artifact {c c' : Composition} (qs qs' : List Query) {r r' : ResolvedCatalog}
    (hr : (c.resolveWith (c.memoAfter qs)).1 = .ok r)
    (hr' : (c'.resolveWith (c'.memoAfter qs')).1 = .ok r') {n n' : String} {p q : Plan}
    (hp : r.get? n = some p) (hq : r'.get? n' = some q) :
    (p.expand = q.expand → p.artifact = q.artifact) ∧
    (p.artifact = q.artifact → p.expand = q.expand ∨ p.Collides q) ∧
    ∀ path a b, p.descend? path = some a → q.descend? path = some b → a.expand ≠ b.expand →
      p.artifact ≠ q.artifact ∨ p.Collides q := by
  have hbuilt := (isClosed_of_resolveWith qs hr).isBuilt hp
  have hbuilt' := (isClosed_of_resolveWith qs' hr').isBuilt hq
  have htree : ¬ p.Collides q → p.artifact = q.artifact → p.expand = q.expand :=
    Plan.expand_eq_of_artifact_eq hbuilt hbuilt'
  refine ⟨Plan.artifact_eq_of_expand_eq hbuilt hbuilt', ?_, ?_⟩
  · intro hartifact
    by_cases hcollides : p.Collides q
    · exact .inr hcollides
    · exact .inl (htree hcollides hartifact)
  · intro path a b ha hb hne
    by_cases hcollides : p.Collides q
    · exact .inr hcollides
    · refine .inl fun hartifact => hne ?_
      exact Plan.expand_eq_of_descend? (htree hcollides hartifact) ha hb

/-- The same layers under one more, which raises `zlib`. -/
def patched : Composition where
  base := refreshed.base
  layers := refreshed.layers ++
    [⟨"security", Overlay.set ∅ "zlib" { name := "zlib", version := "1.3.1" }⟩]

theorem resolveWith_artifact_patched :
    ∃ r r' p q, (refreshed.resolveWith (refreshed.memoAfter [])).1 = .ok r ∧
      (patched.resolveWith (patched.memoAfter [.plan "wget"])).1 = .ok r' ∧
      r.get? "wget" = some p ∧ r'.get? "wget" = some q ∧
      (p.artifact ≠ q.artifact ∨ p.Collides q) := by
  have hlow : ((refreshed.resolveWith (refreshed.memoAfter [])).1.toOption.bind fun r =>
      (r.get? "wget").bind fun p => (p.descend? ["tls"]).map fun a => a.component.version) =
        some "1.3" := by
    decide +kernel
  have hhigh : ((patched.resolveWith (patched.memoAfter [.plan "wget"])).1.toOption.bind fun r =>
      (r.get? "wget").bind fun p => (p.descend? ["tls"]).map fun a => a.component.version) =
        some "1.3.1" := by
    decide +kernel
  have hok {x : Except ResolutionError ResolvedCatalog} {version : String}
      (h : (x.toOption.bind fun r => (r.get? "wget").bind fun p =>
        (p.descend? ["tls"]).map fun a => a.component.version) = some version) :
      ∃ r p a, x = .ok r ∧ r.get? "wget" = some p ∧ p.descend? ["tls"] = some a ∧
        a.component.version = version := by
    cases x with
    | error e => cases h
    | ok r =>
        change ((r.get? "wget").bind _) = _ at h
        obtain ⟨p, hp, h⟩ := Option.bind_eq_some_iff.1 h
        obtain ⟨a, ha, hversion⟩ := Option.map_eq_some_iff.1 h
        exact ⟨r, p, a, rfl, hp, ha, hversion⟩
  obtain ⟨r, p, a, hr, hp, ha, hversion⟩ := hok hlow
  obtain ⟨r', q, b, hr', hq, hb, hversion'⟩ := hok hhigh
  have hne : a.expand ≠ b.expand := by
    intro h
    rw [Plan.expand_eq, Plan.expand_eq, BuildTree.node.injEq] at h
    have hversions : a.component.version = b.component.version := congrArg Recipe.version h.1
    rw [hversion, hversion'] at hversions
    exact absurd hversions (by decide)
  have h := resolveWith_artifact [] [.plan "wget"] hr hr' hp hq
  exact ⟨r, r', p, q, hr, hr', hp, hq, h.2.2 ["tls"] a b ha hb hne⟩

end Composition

end LayeredCatalog
