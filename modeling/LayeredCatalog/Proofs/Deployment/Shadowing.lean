import LayeredCatalog.Proofs.Deployment.Routing
import LayeredCatalog.Proofs.Segments

/-!
# Routes that no request goes by

A route covers the paths that begin with its segments; if it ends in a slash, a path has to
go on behind it (`Route.covers_iff_segments`). Covering is transitive (`IsUnder.trans`), and
a request goes by the first route that covers its path. So if the path of a route is covered
by an earlier one, no request goes by it, and it can be left out
(`RoutingTable.find?_of_shadowed`).
-/

namespace LayeredCatalog

theorem IsUnder.trans {path between under : String} (h : IsUnder path between)
    (h' : IsUnder between under) : IsUnder path under := by
  obtain ⟨rest, rfl, hrest⟩ := h
  obtain ⟨rest', rfl, hrest'⟩ := h'
  refine ⟨rest' ++ rest, String.append_assoc, ?_⟩
  rcases hrest' with rfl | hslash | hslash
  · simpa using hrest
  · exact .inr (.inl hslash)
  · refine .inr (.inr ?_)
    obtain ⟨cs, hcs⟩ := List.head?_eq_some_iff.1 hslash
    simp [hcs]

namespace Route

/-- Whether a slash ends the path of a route. -/
def endsInSlash (r : Route) : Prop := r.under.toList.getLast? = some '/'

instance (r : Route) : Decidable r.endsInSlash := inferInstanceAs (Decidable (_ = _))

/-- The segments that a path under the route begins with. A slash at the end of the route
does not count as one more, empty segment. -/
def segments (r : Route) : List (List Char) :=
  if r.endsInSlash then (Text.segments r.under.toList).dropLast
  else Text.segments r.under.toList

/-- A route covers the paths that begin with its segments, and have more if it ends in a
slash. -/
theorem covers_iff_segments {r : Route} {path : String} :
    r.covers path ↔ r.segments <+: Text.segments path.toList ∧
      (r.endsInSlash → r.segments ≠ Text.segments path.toList) := by
  rw [covers_iff, IsUnder, segments]
  by_cases h : r.endsInSlash
  · obtain ⟨cs, hcs⟩ := List.getLast?_eq_some_iff.1 h
    have hsegments : (Text.segments r.under.toList).dropLast = Text.segments cs := by
      rw [hcs, Text.segments_append_slash]
      exact List.dropLast_concat
    simp only [h, if_true, hsegments, forall_const, Text.segments_prefix_and_ne_iff]
    constructor
    · rintro ⟨rest, rfl, -⟩
      exact ⟨rest.toList, by simp [hcs]⟩
    · rintro ⟨rest, hrest⟩
      refine ⟨String.ofList rest, ?_, .inr (.inl h)⟩
      rw [← String.toList_inj, String.toList_append, hcs, hrest]
      simp
  · simp only [h, if_false, false_implies, and_true, Text.segments_prefix_iff]
    constructor
    · rintro ⟨rest, rfl, rfl | hslash | hslash⟩
      · exact .inl (by simp)
      · exact absurd hslash h
      · obtain ⟨cs, hcs⟩ := List.head?_eq_some_iff.1 hslash
        exact .inr ⟨cs, by simp [hcs]⟩
    · rintro (hpath | ⟨rest, hrest⟩)
      · exact ⟨"", by rw [String.append_empty, String.toList_inj.1 hpath], .inl rfl⟩
      · refine ⟨String.ofList ('/' :: rest), ?_, .inr (.inr (by simp))⟩
        rw [← String.toList_inj, String.toList_append, String.toList_ofList, hrest]

theorem covers_trans {p q : Route} {path : String} (h : p.covers q.under) (h' : q.covers path) :
    p.covers path :=
  covers_iff.2 ((covers_iff.1 h').trans (covers_iff.1 h))

end Route

namespace RoutingTable

/-- The place of the route that a request for `path` goes by, if there is one. -/
def place? (t : RoutingTable) (path : String) : Option Nat := t.routes.findIdx? (·.covers path)

theorem find?_eq_place? (t : RoutingTable) (path : String) :
    t.find? path = (t.place? path).bind (t.routes[·]?) := by
  rw [find?, place?, List.find?_eq_getElem?_findIdx, List.findIdx?_eq_guard_findIdx_lt]
  by_cases h : t.routes.findIdx (·.covers path) < t.routes.length
  · simp [Option.guard, h]
  · simp [Option.guard, h]

section Shadowed

variable {t : RoutingTable} {before after : List Route} {earlier r : Route}
  (ht : t.routes = before ++ r :: after) (hearlier : earlier ∈ before)
  (hcovers : earlier.covers r.under)

include ht hearlier hcovers

/-- No request goes by a route whose path an earlier one covers. -/
theorem place?_ne_of_shadowed (path : String) : t.place? path ≠ some before.length := by
  intro hplace
  obtain ⟨hlength, hr, hfirst⟩ := List.findIdx?_eq_some_iff_getElem.1 hplace
  obtain ⟨j, hj, rfl⟩ := List.mem_iff_getElem.1 hearlier
  simp only [ht, List.getElem_append_right (le_refl _), Nat.sub_self, List.getElem_cons_zero] at hr
  have hnot := hfirst j hj
  simp only [ht, List.getElem_append_left hj] at hnot
  exact hnot (Route.covers_trans hcovers hr)

/-- A route whose path an earlier one covers can be left out. -/
theorem find?_of_shadowed (path : String) :
    { t with routes := before ++ after }.find? path = t.find? path := by
  rw [find?, find?, ht, List.find?_append, List.find?_append, List.find?_cons]
  split
  · next hr =>
    -- The path is covered by the earlier route as well, so the search ends before `r`.
    have hfound : (before.find? (·.covers path)).isSome :=
      List.find?_isSome.2 ⟨earlier, hearlier, Route.covers_trans hcovers hr⟩
    rw [Option.or_of_isSome hfound, Option.or_of_isSome hfound]
  · rfl

end Shadowed

/-- A route covers the paths that begin with its segments, and that have more if it ends in
a slash. Covering is transitive. A request goes by the route in one place of the table, which
is never that of a route whose path an earlier one covers: without that route, every path is
sent to the same service at the same address. -/
theorem covers_segmentwise_and_shadowed :
    (∀ (r : Route) (path : String), r.covers path ↔
      r.segments <+: Text.segments path.toList ∧
        (r.endsInSlash → r.segments ≠ Text.segments path.toList)) ∧
    (∀ (p q : Route) (path : String), p.covers q.under → q.covers path → p.covers path) ∧
    (∀ (t : RoutingTable) (path : String),
      t.find? path = (t.place? path).bind (t.routes[·]?)) ∧
    ∀ (t : RoutingTable) (before after : List Route) (earlier r : Route),
      t.routes = before ++ r :: after → earlier ∈ before → earlier.covers r.under →
      ∀ path, t.place? path ≠ some before.length ∧
        { t with routes := before ++ after }.serviceFor path = t.serviceFor path ∧
        { t with routes := before ++ after }.addressFor path = t.addressFor path := by
  refine ⟨fun r path => Route.covers_iff_segments, fun p q path => Route.covers_trans,
    find?_eq_place?, ?_⟩
  intro t before after earlier r ht hearlier hcovers path
  have hfind := find?_of_shadowed ht hearlier hcovers path
  refine ⟨place?_ne_of_shadowed ht hearlier hcovers path, ?_, ?_⟩
  · rw [serviceFor, serviceFor, hfind]
  · rw [addressFor, addressFor, hfind]

/-- A table whose last rule comes too late. -/
def belated : RoutingTable where
  listen := ⟨"0.0.0.0", 80⟩
  routes := [⟨"/ws/", "frontend", "http://127.0.0.1:3782"⟩,
    ⟨"/api", "backend", "http://127.0.0.1:8001"⟩,
    ⟨"/api/admin", "admin", "http://127.0.0.1:9000"⟩]
  defaultService := "frontend"
  defaultAddress := "http://127.0.0.1:3782"

theorem serviceFor_belated :
    (Route.mk "/api" "backend" "http://127.0.0.1:8001").covers "/api/admin" ∧
      (Route.mk "/api/admin" "admin" "http://127.0.0.1:9000").covers "/api/admin/users" ∧
      (Route.mk "/api" "backend" "http://127.0.0.1:8001").covers "/api/admin/users" ∧
      belated.place? "/api/admin/users" ≠ some 2 ∧
      belated.serviceFor "/api/admin/users" = "backend" := by
  obtain ⟨-, htrans, -, hshadowed⟩ := covers_segmentwise_and_shadowed
  have hcovers : (Route.mk "/api" "backend" "http://127.0.0.1:8001").covers "/api/admin" := by
    decide +kernel
  have hpath : (Route.mk "/api/admin" "admin" "http://127.0.0.1:9000").covers
      "/api/admin/users" := by
    decide +kernel
  obtain ⟨hplace, hservice, -⟩ := hshadowed belated [_, _] [] _ _ rfl
    (.tail _ (.head _)) hcovers "/api/admin/users"
  exact ⟨hcovers, hpath, htrans _ _ _ hcovers hpath, hplace, hservice.symm.trans (by decide +kernel)⟩

end RoutingTable

end LayeredCatalog
