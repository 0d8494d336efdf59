import LayeredCatalog.Proofs.Composition.Evaluation
import LayeredCatalog.Resolution

/-!
# Queries one after another

All queries to a composition share one memo. What the memo holds after some
queries depends on which they were and on which of them failed, but under functions
that pass on the failure of a read it is always sound
(`Composition.isSound_memoAfter`). A sound memo cannot be seen from outside, so
every answer is the one on an empty memo.
-/

namespace LayeredCatalog

/-- A question to a composition. -/
inductive Query where
  | lookup (name : String)
  | plan (name : String)
  | resolve
  | contains (name : String)
  | names
deriving DecidableEq, Repr

/-- The answer to a question, a failure with all its fields included. -/
inductive Answer where
  | component (result : Except ResolutionError Component)
  | plan (result : Except ResolutionError Plan)
  | catalog (result : Except ResolutionError ResolvedCatalog)
  | flag (result : Bool)
  | names (result : List String)

namespace Composition

/-- Answers a question, with no computation in progress. -/
def ask (c : Composition) : Query → Memo → Answer × Memo
  | .lookup name, m => (.component (c.lookup [] name m).1, (c.lookup [] name m).2)
  | .plan name, m => (.plan (c.planWith [] name m).1, (c.planWith [] name m).2)
  | .resolve, m => (.catalog (c.resolveWith m).1, (c.resolveWith m).2)
  | .contains name, m => (.flag (c.contains name), m)
  | .names, m => (.names c.names, m)

/-- The memo that a list of questions leaves, the first one asked of an empty memo. -/
def memoAfter (c : Composition) (qs : List Query) : Memo :=
  qs.foldl (fun m q => (c.ask q m).2) {}

theorem memoAfter_concat (c : Composition) (qs : List Query) (q : Query) :
    c.memoAfter (qs ++ [q]) = (c.ask q (c.memoAfter qs)).2 := by
  simp [memoAfter]

theorem resolveWith_computes {c : Composition} (hc : c.PassesErrors) :
    Computes (Memo.IsSound c) c.resolveWith fun r => ∃ ps : List (String × Plan),
      (ps.map Prod.fst = c.names ∧ ∀ e ∈ ps, c.HasPlan e.1 e.2) ∧ r = .ofList ps :=
  (plans_computes hc c.names).map Table.ofList

theorem ask_settles {c : Composition} (hc : c.PassesErrors) (q : Query) :
    ∃ a, Settles (Memo.IsSound c) (c.ask q) a := by
  cases q with
  | lookup name =>
      obtain ⟨a, ha, -⟩ := lookup_computes hc [] name (by simp)
      exact ⟨_, ha.map Answer.component⟩
  | plan name =>
      obtain ⟨a, ha, -⟩ := planWith_computes hc [] name (by simp) (by simp)
      exact ⟨_, ha.map Answer.plan⟩
  | resolve =>
      obtain ⟨a, ha, -⟩ := resolveWith_computes hc
      exact ⟨_, ha.map Answer.catalog⟩
  | contains name => exact ⟨.flag (c.contains name), fun m hm => ⟨rfl, hm⟩⟩
  | names => exact ⟨.names c.names, fun m hm => ⟨rfl, hm⟩⟩

/-- Whatever was asked before, the memo is sound. -/
theorem isSound_memoAfter {c : Composition} (hc : c.PassesErrors) (qs : List Query) :
    (c.memoAfter qs).IsSound c := by
  induction qs using List.reverseRecOn with
  | nil => exact Memo.IsSound.empty c
  | append_singleton qs q ih =>
      obtain ⟨a, ha⟩ := ask_settles hc q
      rw [memoAfter_concat]
      exact (ha _ ih).2

/-- Earlier questions do not change an answer: it is the one on an empty memo. What
they leave in the memo are the values and the plans that are found on an empty memo. -/
theorem ask_memoAfter {c : Composition} (hc : c.PassesErrors) (qs : List Query) (q : Query) :
    (c.ask q (c.memoAfter qs)).1 = (c.ask q {}).1 ∧
      (∀ name i v, (c.memoAfter qs).values.lookup (name, i) = some v →
        (c.valueAt [] name (.layer i) {}).1 = .ok v) ∧
      ∀ name p, (c.memoAfter qs).plans.lookup name = some p →
        (c.planWith [] name {}).1 = .ok p := by
  have hsound := isSound_memoAfter hc qs
  have hempty := Memo.IsSound.empty c
  refine ⟨?_, ?_, ?_⟩
  · obtain ⟨a, ha⟩ := ask_settles hc q
    rw [(ha _ hsound).1, (ha _ hempty).1]
  · intro name i v hkept
    rw [(valueAt_computes hc [] name (.layer i) (by simp)).eq_ok_iff hempty]
    exact hsound.value name i v hkept
  · intro name p hkept
    rw [(planWith_computes hc [] name (by simp) (by simp)).eq_ok_iff hempty]
    exact hsound.plan name p hkept

theorem ask_memoAfter_refreshed :
    refreshed.PassesErrors ∧
      (refreshed.ask (.plan "wget") (refreshed.memoAfter [.lookup "perl", .lookup "wget"])).1 =
        (refreshed.ask (.plan "wget") {}).1 ∧
      (refreshed.valueAt [] "curl" (.layer 1) {}).1 = .ok
        { name := "curl", version := "8.6",
          inputs := .ofList [("ca", .external "certs"), ("tls", .catalog "zlib")] } := by
  have h := ask_memoAfter passesErrors_refreshed [.lookup "perl", .lookup "wget"] (.plan "wget")
  refine ⟨passesErrors_refreshed, h.1, ?_⟩
  exact h.2.1 "curl" 1 _ (by decide +kernel)

end Composition

end LayeredCatalog
