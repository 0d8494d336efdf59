import LayeredCatalog.Proofs.Deployment.Environment

/-!
# Who owns a variable

The variables of a service are derived by calls, each of which writes some variables on behalf
of a source. A call stops at the first variable that belongs to another source; what it wrote
before stays, and the next call goes on from there. So the environment after any calls is made
of the writes that were accepted (`run_eq_ofPairs`), and which writes these are can be told
from the writes alone (`accepted`): the first one of a variable decides whose it is, and the
last one what its value is.

The sources and the values may as well be kept in two tables, one written after the other.
They are at all times the two columns of the environment (`Columns.run_eq`), so the same
variables have a source and a value.
-/

namespace LayeredCatalog

namespace DerivedEnv

/-- The source of each variable. -/
def sources (env : DerivedEnv) : Table String String := env.vars.map fun _ v => v.source

/-- A call that writes variables on behalf of a source: one, or several one after another. -/
inductive Call where
  | insert (source key value : String)
  | extend (source : String) (vars : List (String × String))

def Call.source : Call → String
  | .insert source _ _ => source
  | .extend source _ => source

def Call.vars : Call → List (String × String)
  | .insert _ key value => [(key, value)]
  | .extend _ vars => vars

/-- The environment after a call, which may have failed. -/
def after (env : DerivedEnv) (call : Call) : DerivedEnv := (env.insertAll call.source call.vars).1

/-- The environment of a service after calls. -/
def run (service : String) (calls : List Call) : DerivedEnv := calls.foldl after { service }

section Accepted

/-- The writes so far leave a variable to a source: they are its own or of other variables. -/
def LeavesTo (source key : String) (history : List (String × DerivedValue)) : Prop :=
  ∀ e ∈ history, e.1 = key → e.2.source = source

instance (source key : String) (history : List (String × DerivedValue)) :
    Decidable (LeavesTo source key history) :=
  inferInstanceAs (Decidable (∀ e ∈ history, e.1 = key → e.2.source = source))

/-- The writes that are taken once a source has gone on to write some variables, up to the first
that the writes before it do not leave to the source. -/
def taken (source : String) (history : List (String × DerivedValue)) :
    List (String × String) → List (String × DerivedValue)
  | [] => history
  | (key, value) :: vars =>
    if LeavesTo source key history then taken source (history ++ [(key, ⟨source, value⟩)]) vars
    else history

/-- The writes of some calls that are accepted, in the order in which they are taken. -/
def accepted (calls : List Call) : List (String × DerivedValue) :=
  calls.foldl (fun history call => taken call.source history call.vars) []

/-- The source of the first write of a variable. -/
def firstSource? (history : List (String × DerivedValue)) (key : String) : Option String :=
  (history.find? (·.1 = key)).map (·.2.source)

/-- The value of the last write of a variable. -/
def lastValue? (history : List (String × DerivedValue)) (key : String) : Option String :=
  (history.reverse.find? (·.1 = key)).map (·.2.value)

variable {service source key : String} {history pairs : List (String × DerivedValue)}
  {call : Call} {calls : List Call}

theorem prefix_taken (source : String) (history : List (String × DerivedValue))
    (vars : List (String × String)) : history <+: taken source history vars := by
  induction vars generalizing history with
  | nil => exact List.prefix_refl history
  | cons e vars ih =>
      rw [taken]
      split
      · exact (List.prefix_append history _).trans (ih _)
      · exact List.prefix_refl history

theorem prefix_accepted_append (calls more : List Call) :
    accepted calls <+: accepted (calls ++ more) := by
  rw [accepted, accepted, List.foldl_append]
  generalize calls.foldl _ [] = history
  induction more generalizing history with
  | nil => exact List.prefix_refl history
  | cons call more ih => exact (prefix_taken _ history call.vars).trans (ih _)

/-- Later writes do not change whose a variable is. -/
theorem firstSource?_of_prefix (h : history <+: pairs)
    (hsource : firstSource? history key = some source) : firstSource? pairs key = some source := by
  obtain ⟨rest, rfl⟩ := h
  obtain ⟨e, he, heq⟩ := Option.map_eq_some_iff.1 hsource
  rw [firstSource?, List.find?_append, he, Option.some_or, Option.map_some, heq]

/-- Where the writes of each variable agree on its source, any of them tells whose it is. -/
theorem Agree.firstSource?_eq_some_iff (h : Agree history) :
    firstSource? history key = some source ↔ ∃ e ∈ history, e.1 = key ∧ e.2.source = source := by
  constructor
  · intro hsource
    obtain ⟨e, he, heq⟩ := Option.map_eq_some_iff.1 hsource
    exact ⟨e, List.mem_of_find?_eq_some he, by simpa using List.find?_some he, heq⟩
  · rintro ⟨e, he, rfl, rfl⟩
    obtain ⟨e', he'⟩ : ∃ e', history.find? (·.1 = e.1) = some e' := by
      rw [← Option.isSome_iff_exists, List.find?_isSome]
      exact ⟨e, he, by simp⟩
    have hkey : e'.1 = e.1 := by simpa using List.find?_some he'
    rw [firstSource?, he', Option.map_some, h e' (List.mem_of_find?_eq_some he') e he hkey]

theorem Agree.firstSource?_reverse (h : Agree history) (key : String) :
    firstSource? history.reverse key = firstSource? history key := by
  have hreverse : Agree history.reverse := fun e he e' he' =>
    h e (List.mem_reverse.1 he) e' (List.mem_reverse.1 he')
  refine Option.ext fun source => ?_
  rw [hreverse.firstSource?_eq_some_iff, h.firstSource?_eq_some_iff]
  simp only [List.mem_reverse]

/-- The environment that is made of some writes. -/
theorem get?_sources_ofPairs (h : Agree history) (key : String) :
    (ofPairs service history).sources.get? key = firstSource? history key := by
  rw [sources, Table.get?_map, ofPairs, Table.get?_ofList, Option.map_map,
    ← h.firstSource?_reverse]
  rfl

theorem get?_values_ofPairs (history : List (String × DerivedValue)) (key : String) :
    (ofPairs service history).values.get? key = lastValue? history key := by
  rw [values, Table.get?_map, ofPairs, Table.get?_ofList, Option.map_map]
  rfl

/-- A source writes what the writes before leave to it, and the environment is made of all these
writes. -/
theorem insertAll_ofPairs (service : String) (h : Agree history) (source : String)
    (vars : List (String × String)) :
    ((ofPairs service history).insertAll source vars).1 =
        ofPairs service (taken source history vars) ∧
      Agree (taken source history vars) := by
  induction vars generalizing history with
  | nil => exact ⟨rfl, h⟩
  | cons e vars ih =>
      obtain ⟨key, value⟩ := e
      rw [insertAll, taken]
      by_cases hleft : LeavesTo source key history
      · have hagree : Agree (history ++ [(key, ⟨source, value⟩)]) := agree_concat_iff.2 ⟨h, hleft⟩
        rw [if_pos hleft, (insert_eq_ok_iff h).2 ⟨hagree, rfl⟩]
        exact ih hagree
      · rw [if_neg hleft]
        cases hinsert : (ofPairs service history).insert source key value with
        | error fault => exact ⟨rfl, h⟩
        | ok env =>
            have hagree := ((insert_eq_ok_iff h).1 hinsert).1
            exact absurd (agree_concat_iff.1 hagree).2 hleft

theorem foldl_after_ofPairs (service : String) (h : Agree history) (calls : List Call) :
    calls.foldl after (ofPairs service history) = ofPairs service
        (calls.foldl (fun history call => taken call.source history call.vars) history) ∧
      Agree (calls.foldl (fun history call => taken call.source history call.vars) history) := by
  induction calls generalizing history with
  | nil => exact ⟨rfl, h⟩
  | cons call calls ih =>
      obtain ⟨hafter, hagree⟩ := insertAll_ofPairs service h call.source call.vars
      rw [List.foldl_cons, List.foldl_cons, after, hafter]
      exact ih hagree

/-- After any calls the environment is made of the writes that were accepted. -/
theorem run_eq_ofPairs (service : String) (calls : List Call) :
    run service calls = ofPairs service (accepted calls) ∧ Agree (accepted calls) :=
  have hnil : Agree [] := by simp [Agree]
  foldl_after_ofPairs service hnil calls

end Accepted

section Step

variable {env env' : DerivedEnv} {source key value : String} {e : DeploymentError}

/-- A variable cannot be written exactly if it belongs to another source. -/
theorem insert_eq_error_iff : env.insert source key value = .error e ↔
    ∃ owner, env.sources.get? key = some owner ∧ owner ≠ source ∧
      e = .invalidOption ("services." ++ env.service) (.derivedTwice key owner source) := by
  rw [insert, sources, Table.get?_map]
  cases env.vars.get? key with
  | none => simp
  | some old =>
      by_cases hsource : old.source = source
      · simp [hsource]
      · simp [hsource, eq_comm (a := e)]

theorem service_of_insert (h : env.insert source key value = .ok env') :
    env'.service = env.service := by
  rw [insert] at h
  split at h
  · split at h
    · cases h
      rfl
    · cases h
  · cases h
    rfl

theorem insertAll_cons_of_insert (h : env.insert source key value = .ok env')
    (vars : List (String × String)) :
    env.insertAll source ((key, value) :: vars) = env'.insertAll source vars := by
  rw [insertAll, h]

theorem extend_cons_of_insert (h : env.insert source key value = .ok env')
    (vars : List (String × String)) :
    env.extend source ((key, value) :: vars) = env'.extend source vars := by
  rw [extend, insertAll_cons_of_insert h, extend]

/-- How an environment takes up what a source gives: all of it, or what comes before the first
variable that belongs to another source by then. -/
inductive TakesUp (env : DerivedEnv) (source : String) (vars : List (String × String)) :
    DerivedEnv → Option DeploymentError → Prop
  | all {env' : DerivedEnv} (h : env.extend source vars = .ok env') :
      TakesUp env source vars env' none
  | upTo (before : List (String × String)) {rest : List (String × String)}
      {key value owner : String} {env' : DerivedEnv} (hvars : vars = before ++ (key, value) :: rest)
      (h : env.extend source before = .ok env') (howner : env'.sources.get? key = some owner)
      (hne : owner ≠ source) :
      TakesUp env source vars env'
        (some (.invalidOption ("services." ++ env.service) (.derivedTwice key owner source)))

theorem TakesUp.cons {env₁ : DerivedEnv} {vars : List (String × String)}
    {fault : Option DeploymentError} (hinsert : env.insert source key value = .ok env₁)
    (h : env₁.TakesUp source vars env' fault) :
    env.TakesUp source ((key, value) :: vars) env' fault := by
  cases h with
  | all h => exact .all ((extend_cons_of_insert hinsert vars).trans h)
  | upTo before hvars h howner hne =>
      rw [service_of_insert hinsert]
      exact .upTo ((key, value) :: before) (congrArg _ hvars)
        ((extend_cons_of_insert hinsert before).trans h) howner hne

theorem takesUp_insertAll (env : DerivedEnv) (source : String) (vars : List (String × String)) :
    env.TakesUp source vars (env.insertAll source vars).1 (env.insertAll source vars).2 := by
  induction vars generalizing env with
  | nil => exact .all rfl
  | cons e vars ih =>
      obtain ⟨key, value⟩ := e
      cases hinsert : env.insert source key value with
      | error fault =>
          obtain ⟨owner, howner, hne, rfl⟩ := insert_eq_error_iff.1 hinsert
          rw [insertAll, hinsert]
          exact .upTo [] rfl rfl howner hne
      | ok env₁ =>
          rw [insertAll_cons_of_insert hinsert]
          exact (ih env₁).cons hinsert

end Step

/-- The sources and the values of variables, in two tables. -/
structure Columns where
  service : String
  sources : Table String String := .empty
  values : Table String String := .empty

namespace Columns

/-- Writes both tables, one after the other. -/
def write (s : Columns) (source key value : String) : Columns :=
  { s with sources := s.sources.insert key source, values := s.values.insert key value }

/-- Gives a variable a value, unless another source gave it one. -/
def insert (s : Columns) (source key value : String) : Except DeploymentError Columns :=
  match s.sources.get? key with
  | some owner =>
    if owner = source then .ok (s.write source key value)
    else .error (.invalidOption ("services." ++ s.service) (.derivedTwice key owner source))
  | none => .ok (s.write source key value)

def insertAll (s : Columns) (source : String) :
    List (String × String) → Columns × Option DeploymentError
  | [] => (s, none)
  | (key, value) :: vars =>
    match s.insert source key value with
    | .ok s => s.insertAll source vars
    | .error e => (s, some e)

def run (service : String) (calls : List Call) : Columns :=
  calls.foldl (fun s call => (s.insertAll call.source call.vars).1) { service }

end Columns

/-- The two columns of an environment. -/
def columns (env : DerivedEnv) : Columns := ⟨env.service, env.sources, env.values⟩

theorem insert_columns (env : DerivedEnv) (source key value : String) :
    env.columns.insert source key value = (env.insert source key value).map columns := by
  have hwrite : env.columns.write source key value =
      columns { env with vars := env.vars.insert key ⟨source, value⟩ } := by
    simp only [Columns.write, columns, sources, values, Table.map_insert]
  rw [Columns.insert, insert, hwrite, columns, sources, Table.get?_map]
  cases env.vars.get? key with
  | none => rfl
  | some old =>
      by_cases hsource : old.source = source
      · simp [hsource, Except.map]
      · simp [hsource, Except.map]

theorem insertAll_columns (env : DerivedEnv) (source : String) (vars : List (String × String)) :
    env.columns.insertAll source vars =
      ((env.insertAll source vars).1.columns, (env.insertAll source vars).2) := by
  induction vars generalizing env with
  | nil => rfl
  | cons e vars ih =>
      obtain ⟨key, value⟩ := e
      rw [Columns.insertAll, insert_columns, insertAll]
      cases env.insert source key value with
      | error fault => rfl
      | ok env₁ => exact ih env₁

/-- Two tables, one written after the other, are at all times the columns of the environment. -/
theorem Columns.run_eq (service : String) (calls : List Call) :
    Columns.run service calls = (DerivedEnv.run service calls).columns := by
  have hfold : ∀ env : DerivedEnv,
      calls.foldl (fun s call => (s.insertAll call.source call.vars).1) env.columns =
        (calls.foldl after env).columns := by
    induction calls with
    | nil => exact fun env => rfl
    | cons call calls ih =>
        intro env
        rw [List.foldl_cons, List.foldl_cons, insertAll_columns]
        exact ih (env.after call)
  exact hfold { service }

theorem contains_sources_iff (env : DerivedEnv) (key : String) :
    env.sources.contains key ↔ env.values.contains key := by
  rw [sources, values, Table.contains, Table.contains, Table.get?_map, Table.get?_map,
    Option.isSome_map, Option.isSome_map]

/-- After any calls, each variable has the source of its first accepted write and the value of
its last one, and it keeps the source whatever calls follow. The same variables have a source
and a value, also if the two are kept in tables of their own. A variable cannot be written
exactly if another source owns it; the fault names both sources, and nothing is changed. A call
with several variables is carried out up to the first of this kind. What the operator says
about a variable comes before all this. -/
theorem run_keeps_owners (service : String) (calls : List Call) :
    (∀ key, (run service calls).sources.get? key = firstSource? (accepted calls) key ∧
      (run service calls).values.get? key = lastValue? (accepted calls) key) ∧
    (∀ key source more, (run service calls).sources.get? key = some source →
      (run service (calls ++ more)).sources.get? key = some source) ∧
    (Columns.run service calls = (run service calls).columns ∧
      ∀ key, (Columns.run service calls).sources.contains key ↔
        (Columns.run service calls).values.contains key) ∧
    (∀ source key value fault, (run service calls).insert source key value = .error fault ↔
      ∃ owner, (run service calls).sources.get? key = some owner ∧ owner ≠ source ∧
        fault = .invalidOption ("services." ++ service) (.derivedTwice key owner source)) ∧
    (∀ source key value fault, (run service calls).insert source key value = .error fault →
      run service (calls ++ [.insert source key value]) = run service calls) ∧
    (∀ source vars, (run service calls).TakesUp source vars
      (run service (calls ++ [.extend source vars]))
      ((run service calls).insertAll source vars).2) ∧
    ∀ operator key, ((run service calls).withOperator operator).get? key =
      (operator.get? key).or ((run service calls).values.get? key) := by
  have hsources : ∀ calls key,
      (run service calls).sources.get? key = firstSource? (accepted calls) key := by
    intro calls key
    obtain ⟨hrun, hagree⟩ := run_eq_ofPairs service calls
    rw [hrun, get?_sources_ofPairs hagree]
  have hservice : (run service calls).service = service := by
    rw [(run_eq_ofPairs service calls).1]
    rfl
  have hnext : ∀ call, run service (calls ++ [call]) = (run service calls).after call := by
    intro call
    rw [run, List.foldl_append]
    rfl
  refine ⟨fun key => ⟨hsources calls key, ?_⟩, fun key source more h => ?_,
    ⟨Columns.run_eq service calls, fun key => ?_⟩, fun source key value fault => ?_,
    fun source key value fault h => ?_, fun source vars => ?_, fun operator key => ?_⟩
  · rw [(run_eq_ofPairs service calls).1, get?_values_ofPairs]
  · rw [hsources] at h ⊢
    exact firstSource?_of_prefix (prefix_accepted_append calls more) h
  · rw [Columns.run_eq]
    exact contains_sources_iff _ key
  · rw [insert_eq_error_iff, hservice]
  · rw [hnext, after, Call.source, Call.vars, insertAll, h]
  · rw [hnext]
    exact takesUp_insertAll _ source vars
  · exact Table.get?_insertMany_toList _ operator key

/-- A provider is stopped at a variable of the service's, which the service itself writes again. -/
def contested : List Call :=
  [.insert "service" "HOST" "10.0.0.1",
    .extend "provider llm" [("LLM_MODEL", "small"), ("HOST", "10.0.0.2"), ("LLM_HOST", "10.0.0.3")],
    .insert "service" "HOST" "10.0.0.4"]

theorem run_keeps_owners_contested :
    (run "api" contested).sources.get? "LLM_MODEL" = some "provider llm" ∧
    (run "api" contested).values.get? "LLM_HOST" = none ∧
    (run "api" contested).values.get? "HOST" = some "10.0.0.4" ∧
    (∀ more, (run "api" (contested ++ more)).sources.get? "HOST" = some "service") ∧
    (run "api" contested).insert "provider llm" "HOST" "10.0.0.5" =
      .error (.invalidOption "services.api" (.derivedTwice "HOST" "service" "provider llm")) ∧
    run "api" (contested ++ [.insert "provider llm" "HOST" "10.0.0.5"]) = run "api" contested := by
  obtain ⟨htables, hkept, -, hfails, hunchanged, -, -⟩ := run_keeps_owners "api" contested
  have howner : (run "api" contested).sources.get? "HOST" = some "service" := by
    rw [(htables "HOST").1]
    decide +kernel
  have hfault := (hfails "provider llm" "HOST" "10.0.0.5" _).2 ⟨"service", howner, by decide, rfl⟩
  refine ⟨?_, ?_, ?_, fun more => hkept "HOST" "service" more howner, hfault,
    hunchanged _ _ _ _ hfault⟩
  · rw [(htables "LLM_MODEL").1]
    decide +kernel
  · rw [(htables "LLM_HOST").2]
    decide +kernel
  · rw [(htables "HOST").2]
    decide +kernel

end DerivedEnv

end LayeredCatalog
