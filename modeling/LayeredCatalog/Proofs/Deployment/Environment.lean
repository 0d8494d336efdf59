import LayeredCatalog.Deployment.Environment
import LayeredCatalog.Proofs.Table

/-!
# Environments as lists of pairs

What has been derived for a service is a list of pairs, each with its source. The
environment is the table of that list, and it is made of the list exactly if the pairs
agree: pairs for one variable have one source (`DerivedEnv.extend_eq_ok_iff`).
-/

namespace LayeredCatalog

namespace DerivedEnv

/-- Pairs of a variable and its value, as one source gives them. -/
def derivedFrom (source : String) (vars : List (String × String)) :
    List (String × DerivedValue) :=
  vars.map fun e => (e.1, ⟨source, e.2⟩)

/-- Pairs for one variable have one source. -/
def Agree (pairs : List (String × DerivedValue)) : Prop :=
  ∀ e ∈ pairs, ∀ e' ∈ pairs, e.1 = e'.1 → e.2.source = e'.2.source

/-- The environment that holds what a list of pairs says. -/
def ofPairs (service : String) (pairs : List (String × DerivedValue)) : DerivedEnv :=
  ⟨service, .ofList pairs⟩

variable {service source : String} {pairs : List (String × DerivedValue)}

theorem mem_derivedFrom {vars : List (String × String)} {key : String} {v : DerivedValue} :
    (key, v) ∈ derivedFrom source vars ↔ v.source = source ∧ (key, v.value) ∈ vars := by
  obtain ⟨source', value⟩ := v
  rw [derivedFrom, List.mem_map]
  constructor
  · rintro ⟨e, he, heq⟩
    cases heq
    exact ⟨rfl, he⟩
  · rintro ⟨rfl, he⟩
    exact ⟨_, he, rfl⟩

theorem agree_concat_iff {key value : String} :
    Agree (pairs ++ [(key, ⟨source, value⟩)]) ↔
      Agree pairs ∧ ∀ e ∈ pairs, e.1 = key → e.2.source = source := by
  constructor
  · intro h
    refine ⟨fun e he e' he' => h e (List.mem_append_left _ he) e' (List.mem_append_left _ he'), ?_⟩
    intro e he hkey
    exact h e (List.mem_append_left _ he) (key, ⟨source, value⟩) (by simp) hkey
  · rintro ⟨h, hnew⟩ e he e' he' hkey
    rw [List.mem_append, List.mem_singleton] at he he'
    rcases he with he | rfl
    · rcases he' with he' | rfl
      · exact h e he e' he' hkey
      · exact hnew e he hkey
    · rcases he' with he' | rfl
      · exact (hnew e' he' hkey.symm).symm
      · rfl

theorem Agree.of_append {pairs' : List (String × DerivedValue)} (h : Agree (pairs ++ pairs')) :
    Agree pairs :=
  fun e he e' he' => h e (List.mem_append_left _ he) e' (List.mem_append_left _ he')

/-- A fold that adds pairs, some for each item, succeeds exactly if all items are good
and all pairs agree. -/
theorem foldlM_eq_ok_iff_agree {ε α β : Type} {f : β → α → Except ε β} (A : α → Prop)
    (g : α → List (String × DerivedValue)) (state : List α → β)
    (hf : ∀ l a b, Agree (pairs ++ l.flatMap g) → (f (state l) a = .ok b ↔
      A a ∧ Agree (pairs ++ l.flatMap g ++ g a) ∧ b = state (l ++ [a])))
    (h : Agree pairs) {l : List α} {b : β} :
    l.foldlM f (state []) = .ok b ↔
      (∀ a ∈ l, A a) ∧ Agree (pairs ++ l.flatMap g) ∧ b = state l := by
  have hfold : l.foldlM f (state []) = .ok b ↔ _ :=
    foldlM_eq_ok_iff (fun l => (∀ a ∈ l, A a) ∧ Agree (pairs ++ l.flatMap g)) state ?_ ?_
      (by simpa using h)
  · rw [List.nil_append, and_assoc] at hfold
    exact hfold
  · rintro l a ⟨hA, hagree⟩
    rw [List.flatMap_append, ← List.append_assoc] at hagree
    exact ⟨fun a' ha' => hA a' (List.mem_append_left _ ha'), hagree.of_append⟩
  · rintro l a b ⟨hA, hagree⟩
    rw [hf l a b hagree, List.flatMap_append, List.flatMap_singleton, ← List.append_assoc,
      List.forall_mem_append, List.forall_mem_singleton]
    tauto

theorem insert_eq_ok_iff (h : Agree pairs) {key value : String} {env : DerivedEnv} :
    (ofPairs service pairs).insert source key value = .ok env ↔
      Agree (pairs ++ [(key, ⟨source, value⟩)]) ∧
        env = ofPairs service (pairs ++ [(key, ⟨source, value⟩)]) := by
  have hnew : ofPairs service (pairs ++ [(key, ⟨source, value⟩)]) =
      ⟨service, (Table.ofList pairs).insert key ⟨source, value⟩⟩ := by
    rw [ofPairs, Table.ofList, Table.insertMany, List.foldl_append]
    rfl
  have hget : ∀ e ∈ pairs, e.1 = key → ∃ old, (Table.ofList pairs).get? key = some old ∧
      old.source = e.2.source := by
    rintro e he rfl
    have hcontains : (Table.ofList pairs).contains e.1 := by
      rw [Table.contains_ofList, List.any_eq_true]
      exact ⟨e, he, by simp⟩
    obtain ⟨old, hold⟩ := Option.isSome_iff_exists.1 hcontains
    exact ⟨old, hold, h (e.1, old) (Table.mem_of_get?_ofList hold) e he rfl⟩
  -- The pairs for one key agree, so the one that the table has kept tells their source.
  rw [hnew, agree_concat_iff, insert, ofPairs]
  split
  · next old hold =>
    simp only at hold
    have hmem : (key, old) ∈ pairs := Table.mem_of_get?_ofList hold
    split
    · next hsource =>
      rw [Except.ok.injEq, eq_comm (b := env)]
      constructor
      · refine fun henv => ⟨⟨h, fun e he hkey => ?_⟩, henv⟩
        rw [← hsource, h e he (key, old) hmem hkey]
      · exact And.right
    · next hsource =>
      constructor
      · intro henv
        cases henv
      · rintro ⟨⟨-, hsame⟩, -⟩
        exact absurd (hsame (key, old) hmem rfl) hsource
  · next hnone =>
    simp only at hnone
    rw [Except.ok.injEq, eq_comm (b := env)]
    constructor
    · refine fun henv => ⟨⟨h, fun e he hkey => ?_⟩, henv⟩
      obtain ⟨old, hold, -⟩ := hget e he hkey
      rw [hnone] at hold
      cases hold
    · exact And.right

/-- A variable is refused where one of the pairs gives it from another source. -/
theorem insert_eq_error {key value : String} {e : DeploymentError}
    (h : (ofPairs service pairs).insert source key value = .error e) :
    ∃ old, (key, old) ∈ pairs ∧ old.source ≠ source ∧
      e = .invalidOption ("services." ++ service) (.derivedTwice key old.source source) := by
  rw [insert, ofPairs] at h
  split at h
  · next old hold =>
    split at h
    · cases h
    · next hsource =>
      cases h
      exact ⟨old, Table.mem_of_get?_ofList hold, hsource, rfl⟩
  · cases h

theorem extend_eq_foldlM (env : DerivedEnv) (source : String) (vars : List (String × String)) :
    env.extend source vars = vars.foldlM (fun env e => env.insert source e.1 e.2) env := by
  induction vars generalizing env with
  | nil => rfl
  | cons e vars ih =>
      obtain ⟨key, value⟩ := e
      rw [List.foldlM_cons, extend, insertAll]
      cases hinsert : env.insert source key value with
      | error fault => rfl
      | ok env' => exact ih env'

theorem derivedFrom_append (source : String) (vars vars' : List (String × String)) :
    derivedFrom source (vars ++ vars') = derivedFrom source vars ++ derivedFrom source vars' :=
  List.map_append

/-- An environment takes up what a source gives exactly if all pairs still agree. -/
theorem extend_eq_ok_iff (h : Agree pairs) {vars : List (String × String)} {env : DerivedEnv} :
    (ofPairs service pairs).extend source vars = .ok env ↔
      Agree (pairs ++ derivedFrom source vars) ∧
        env = ofPairs service (pairs ++ derivedFrom source vars) := by
  have hmap : ∀ vars, derivedFrom source vars =
      vars.flatMap fun e => [(e.1, (⟨source, e.2⟩ : DerivedValue))] := by
    intro vars
    rw [derivedFrom, List.map_eq_flatMap]
  have hfold := foldlM_eq_ok_iff_agree (f := fun env e => insert env source e.1 e.2)
    (l := vars) (b := env) (fun _ => True) (fun e => [(e.1, (⟨source, e.2⟩ : DerivedValue))])
    (fun vars => ofPairs service (pairs ++ derivedFrom source vars)) ?_ h
  · simpa [extend_eq_foldlM, hmap] using hfold
  · intro vars e env hagree
    rw [true_and, hmap vars, hmap (vars ++ [e]), List.flatMap_append, List.flatMap_singleton,
      ← List.append_assoc]
    exact insert_eq_ok_iff hagree

theorem mem_of_mem_append_derivedFrom {vars : List (String × String)} {key : String}
    {old : DerivedValue} (h : (key, old) ∈ pairs ++ derivedFrom source vars)
    (hsource : old.source ≠ source) : (key, old) ∈ pairs := by
  rcases List.mem_append.1 h with h | h
  · exact h
  · exact absurd (mem_derivedFrom.1 h).1 hsource

/-- What a source gives is refused where one of the pairs gives a variable of it from
another source. -/
theorem extend_eq_error (h : Agree pairs) {vars : List (String × String)} {e : DeploymentError}
    (hextend : (ofPairs service pairs).extend source vars = .error e) :
    ∃ key value old, (key, value) ∈ vars ∧ (key, old) ∈ pairs ∧ old.source ≠ source ∧
      e = .invalidOption ("services." ++ service) (.derivedTwice key old.source source) := by
  rw [extend_eq_foldlM] at hextend
  obtain ⟨before, ⟨key, value⟩, rest, env, rfl, hbefore, hinsert⟩ := foldlM_eq_error hextend
  rw [← extend_eq_foldlM] at hbefore
  obtain ⟨-, rfl⟩ := (extend_eq_ok_iff h).1 hbefore
  obtain ⟨old, hold, hsource, he⟩ := insert_eq_error hinsert
  exact ⟨key, value, old, by simp, mem_of_mem_append_derivedFrom hold hsource, hsource, he⟩

end DerivedEnv

end LayeredCatalog
