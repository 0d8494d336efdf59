import LayeredCatalog.Proofs.ByteOrder
import LayeredCatalog.Proofs.Composition.Closure
import LayeredCatalog.Proofs.Composition.Cycles
import LayeredCatalog.Proofs.Stages

/-!
# Resolving is planning each name on its own

Resolving plans one name after the other, and each with what the smaller names have left
in the memo. Under functions that pass on the failure of a read this cannot be seen: the
names are planned as if each were asked of an empty memo (`Composition.plans_settles`).
So resolving succeeds with the plans that the names have on their own, or fails with the
fault of the smallest name that has no plan (`Composition.resolveWith_nameByName`).
-/

namespace LayeredCatalog

/-- In an ascending list, the part before a name has the names that are smaller. -/
theorem mem_before_iff {before rest : List String} {a b : String}
    (h : (before ++ a :: rest).Pairwise fun a b => utf8 a < utf8 b) :
    b ∈ before ↔ b ∈ before ++ a :: rest ∧ utf8 b < utf8 a := by
  obtain ⟨-, hrest, hbefore⟩ := List.pairwise_append.1 h
  constructor
  · intro hb
    exact ⟨List.mem_append_left _ hb, hbefore b hb a List.mem_cons_self⟩
  · rintro ⟨hb, hlt⟩
    rcases List.mem_append.1 hb with hb | hb
    · exact hb
    · rcases List.mem_cons.1 hb with rfl | hb
      · exact absurd hlt (List.lt_irrefl _)
      · exact absurd hlt (List.lt_asymm ((List.pairwise_cons.1 hrest).1 b hb))

namespace Composition

/-- The plan of a name, asked of an empty memo. -/
def plan (c : Composition) (name : String) : Except ResolutionError Plan :=
  (c.planWith [] name {}).1

variable {c : Composition}

theorem plan_eq_ok_iff (hc : c.PassesErrors) {name : String} {p : Plan} :
    c.plan name = .ok p ↔ c.HasPlan name p :=
  (planWith_computes hc [] name (by simp) (by simp)).eq_ok_iff (Memo.IsSound.empty c) p

theorem planWith_settles (hc : c.PassesErrors) (name : String) :
    Settles (Memo.IsSound c) (c.planWith [] name) (c.plan name) := by
  obtain ⟨a, ha, -⟩ := planWith_computes hc [] name (by simp) (by simp)
  rw [plan, (ha {} (Memo.IsSound.empty c)).1]
  exact ha

/-- A list of names is planned as if each name were planned on its own. -/
theorem plans_settles (hc : c.PassesErrors) (names : List String) :
    Settles (Memo.IsSound c) (c.plans names)
      (names.mapM fun name => (c.plan name).map (name, ·)) := by
  induction names with
  | nil => exact fun m hm => ⟨rfl, hm⟩
  | cons name names ih =>
      intro m hm
      obtain ⟨hfirst, hm'⟩ := planWith_settles hc name m hm
      rw [List.mapM_cons, ← hfirst, plans]
      generalize c.planWith [] name m = run at hm'
      obtain ⟨a, m'⟩ := run
      cases a with
      | error e => exact ⟨rfl, hm'⟩
      | ok p =>
          obtain ⟨hrest, hm''⟩ := ih m' hm'
          refine ⟨?_, hm''⟩
          dsimp only [onSuccess]
          rw [hrest]
          rfl

theorem names_pairwise (c : Composition) : c.names.Pairwise fun a b => utf8 a < utf8 b :=
  Table.pairwise_keys_utf8 _

/-- Resolving fails as the smallest name whose plan fails does on its own. -/
theorem resolveWith_eq_error_iff (hc : c.PassesErrors) {m : Memo} (hm : m.IsSound c)
    {e : ResolutionError} :
    (c.resolveWith m).1 = .error e ↔ ∃ name, c.contains name ∧ c.plan name = .error e ∧
      ∀ n, c.contains n → utf8 n < utf8 name → ∃ p, c.plan n = .ok p := by
  have hmap : (c.resolveWith m).1 = .error e ↔
      (c.names.mapM fun name => (c.plan name).map (name, ·)) = .error e := by
    rw [← (plans_settles hc c.names m hm).1, resolveWith, onSuccess, map_eq_error_iff]
  rw [hmap, mapM_eq_error_iff]
  constructor
  · rintro ⟨before, name, rest, hnames, hbefore, he⟩
    have hsorted := hnames ▸ c.names_pairwise
    refine ⟨name, contains_iff_mem_names.2 (by simp [hnames]), map_eq_error_iff.1 he, ?_⟩
    intro n hn hlt
    rw [contains_iff_mem_names, hnames] at hn
    obtain ⟨v, hv⟩ := hbefore n ((mem_before_iff hsorted).2 ⟨hn, hlt⟩)
    obtain ⟨p, hp, -⟩ := map_eq_ok_iff.1 hv
    exact ⟨p, hp⟩
  · rintro ⟨name, hname, he, hsmaller⟩
    obtain ⟨before, rest, hnames⟩ := List.append_of_mem (contains_iff_mem_names.1 hname)
    have hsorted := hnames ▸ c.names_pairwise
    refine ⟨before, name, rest, hnames, ?_, map_eq_error_iff.2 he⟩
    intro n hn
    obtain ⟨hmem, hlt⟩ := (mem_before_iff hsorted).1 hn
    rw [← hnames, ← contains_iff_mem_names] at hmem
    obtain ⟨p, hp⟩ := hsmaller n hmem hlt
    exact ⟨(n, p), map_eq_ok_iff.2 ⟨p, hp, rfl⟩⟩

/-- Whatever was asked before, resolving succeeds exactly if each name can be planned on
its own, and the resolved catalog has those plans. It fails with a fault exactly if that
is the fault of the smallest name, in the order of bytes, that cannot be planned. -/
theorem resolveWith_nameByName (hc : c.PassesErrors) (qs : List Query) :
    ((∃ r, (c.resolveWith (c.memoAfter qs)).1 = .ok r) ↔
      ∀ name, c.contains name → ∃ p, c.plan name = .ok p) ∧
    (∀ r, (c.resolveWith (c.memoAfter qs)).1 = .ok r →
      ∀ name p, r.get? name = some p ↔ c.plan name = .ok p) ∧
    ∀ e, (c.resolveWith (c.memoAfter qs)).1 = .error e ↔
      ∃ name, c.contains name ∧ c.plan name = .error e ∧
        ∀ n, c.contains n → utf8 n < utf8 name → ∃ p, c.plan n = .ok p := by
  have hm := isSound_memoAfter hc qs
  refine ⟨?_, ?_, fun e => resolveWith_eq_error_iff hc hm⟩
  · simp only [plan_eq_ok_iff hc]
    exact exists_resolveWith_ok_iff hc hm
  · intro r hr name p
    have hresolved : c.IsResolved r := (resolveWith_eq_ok_iff hc hm).1 hr
    rw [plan_eq_ok_iff hc]
    exact ⟨hresolved.hasPlan name p, hresolved.get?_of_hasPlan⟩

theorem passesErrors_entangled : entangled.PassesErrors := by
  refine passesErrors_of_isStatic fun l hl => Layer.isStatic_iff_forall_mem.2 ?_
  rcases List.mem_pair.1 hl with rfl | rfl
  · exact List.forall_mem_cons.2 ⟨trivial, List.forall_mem_singleton.2 trivial⟩
  · exact List.forall_mem_singleton.2 trivial

/-- Neither `curl` nor `wget` can be planned, each with a cycle from itself to itself. A
plan of `wget` asked before does not change that the one from `curl` is reported. -/
theorem resolveWith_nameByName_entangled :
    entangled.PassesErrors ∧ entangled.names = ["curl", "wget"] ∧
      entangled.plan "wget" = .error (.cycle "wget" ["wget", "curl", "wget"]) ∧
      (entangled.resolveWith (entangled.memoAfter [.plan "wget"])).1 =
        .error (.cycle "curl" ["curl", "wget", "curl"]) := by
  have hnames : entangled.names = ["curl", "wget"] := by decide +kernel
  have hcurl : entangled.plan "curl" = .error (.cycle "curl" ["curl", "wget", "curl"]) :=
    error?_eq_some_iff.1 (by decide +kernel)
  have hwget : entangled.plan "wget" = .error (.cycle "wget" ["wget", "curl", "wget"]) :=
    error?_eq_some_iff.1 (by decide +kernel)
  have h := (resolveWith_nameByName passesErrors_entangled [.plan "wget"]).2.2
  refine ⟨passesErrors_entangled, hnames, hwget, (h _).2 ⟨"curl", by decide, hcurl, ?_⟩⟩
  intro n hn hlt
  rw [contains_iff_mem_names, hnames] at hn
  rcases List.mem_pair.1 hn with rfl | rfl
  · exact absurd hlt (List.lt_irrefl _)
  · exact absurd hlt (by decide)

end Composition

end LayeredCatalog
