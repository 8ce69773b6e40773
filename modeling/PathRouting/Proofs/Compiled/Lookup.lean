import PathRouting.Proofs.Compiled.Selection
import PathRouting.Proofs.Registry.Contents

/-!
# What a compiled registry finds

After every run of registrations the compiled matcher finds a match for a path just if a
registered route matches it. The match is that of one route, which precedes all others that
match: it has the payload of that route and the values of its captures, and nothing of the
routes that were tried and given up.

## Main definitions

* `History.Takes` — a route matches a path and precedes the others that do

## Main results

* `Registry.isSome_lookup_compile_iff` — exactly the registered routes are recognised
* `Registry.lookup_compile_of_matches` — one route takes the path, and its payload is found
* `Registry.captures_lookup_compile` — the captures of a match are those of one route
-/

namespace PathRouting

universe u

open Matcher (Way decoded)

/-- A route takes a path if it matches and precedes the others that match. -/
structure History.Takes (history : History Segment) (path : String) (route : Route) : Prop where
  mem : route ∈ history
  matches_path : route.Matches path
  precedes : ∀ other ∈ history, Route.Matches other path → other ≠ route →
    history.Precedes route other

theorem History.Takes.unique {history : History Segment} {path : String} {p q : Route}
    (hp : history.Takes path p) (hq : history.Takes path q) : p = q := by
  by_contra hne
  have hpq := hp.precedes q hq.mem hq.matches_path (Ne.symm hne)
  have hqp := hq.precedes p hp.mem hp.matches_path hne
  exact hpq.asymm hqp

namespace Registry

variable {α : Type u} {registry : Registry α} {history : History Segment}

theorem ways_compile (registry : Registry α) (path : List Char) :
    registry.compile.ways path = registry.routes.ways path := by
  rw [compile, Trie.ways]
  cases registry.routes.matcher? with
  | some m => rfl
  | none =>
    rw [Option.getD_none, Matcher.ways]
    exact ite_self _

/-- The first way of the compiled matcher is that of the route that takes the path. -/
theorem Lawful.selects_compile (h : registry.Lawful history) (path : String) :
    Trie.Selects history registry.routes (Route.capturesOn? · path)
      (registry.compile.ways path.toList).head? := by
  rw [ways_compile]
  cases hpath : path.toList with
  | nil =>
    -- Every route has a segment, so nothing is registered at the root.
    have hnone : registry.routes.payload = none := by
      rw [← Option.not_isSome_iff_eq_none, h.grown.isSome_payload_iff]
      intro hnil
      exact (h.wellFormed [] hnil).ne_nil rfl
    rw [Trie.ways_nil, hnone]
    intro route _
    simp only [Route.capturesOn?, hpath]
  | cons c text =>
    by_cases hc : c = '/'
    · subst hc
      have hcaptures : (Route.capturesOn? · path) = (Route.captures? · (Path.parts text)) := by
        funext route
        simp only [Route.capturesOn?, hpath]
      -- What follows the slash is a path of parts, to which the trie is compared.
      rw [hcaptures, ← Path.join_parts]
      apply h.grown.selects_ways
      · exact h.tidy
      · intro part hpart
        exact Path.slash_notMem_of_mem_parts hpart
    · -- Neither a matcher nor a route begins without a slash.
      rw [Trie.ways_of_ne_slash _ hc]
      intro route _
      simp only [Route.capturesOn?, hpath]
      split
      · rename_i heq
        exact absurd (List.cons.inj heq).1 hc
      · rfl

theorem Lawful.not_matches_of_lookup (h : registry.Lawful history) {path : String}
    (hlookup : registry.compile.lookup path = none) {route : Route} (hroute : route ∈ history) :
    ¬ route.Matches path := by
  have hselect := h.selects_compile path
  rw [Matcher.lookup_eq, Option.map_eq_none_iff] at hlookup
  rw [hlookup] at hselect
  exact Option.not_isSome_iff_eq_none.mpr (hselect route hroute)

/-- The first way of a compiled registry has the payload and the captures of the route that
takes the path. -/
theorem Lawful.exists_takes_of_way (h : registry.Lawful history) {path : String} {way : Way α}
    (hway : (registry.compile.ways path.toList).head? = some way) :
    ∃ route, history.Takes path route ∧ registry.contents.lookup route = some way.payload ∧
      route.capturesOn? path = some way.captures := by
  have hselect := h.selects_compile path
  rw [hway] at hselect
  obtain ⟨route, hget, hcaptures, hothers⟩ := hselect
  have hmem : route ∈ history := h.grown.isSome_get?_iff.mp (Option.isSome_of_eq_some hget)
  refine ⟨route, ⟨hmem, Option.isSome_of_eq_some hcaptures, hothers⟩, ?_, hcaptures⟩
  rw [h.lookup_contents]
  exact hget

/-- The first way says which route takes the path, and is given by it. -/
theorem Lawful.head?_ways_eq_some_iff (h : registry.Lawful history) {path : String}
    {way : Way α} :
    (registry.compile.ways path.toList).head? = some way ↔
      ∃ route, history.Takes path route ∧ registry.contents.lookup route = some way.payload ∧
        route.capturesOn? path = some way.captures := by
  constructor
  · exact h.exists_takes_of_way
  · rintro ⟨route, htakes, hpayload, hcaptures⟩
    cases hfirst : (registry.compile.ways path.toList).head? with
    | none =>
      have hselect := h.selects_compile path
      rw [hfirst] at hselect
      have hnone : route.capturesOn? path = none := hselect route htakes.mem
      rw [hnone] at hcaptures
      cases hcaptures
    | some first =>
      -- The route of the first way takes the path too, so it is the same one.
      obtain ⟨other, hother, hpayload', hcaptures'⟩ := h.exists_takes_of_way hfirst
      obtain rfl := hother.unique htakes
      obtain ⟨payload, captures⟩ := first
      obtain rfl := Option.some.inj (hpayload.symm.trans hpayload')
      obtain rfl := Option.some.inj (hcaptures.symm.trans hcaptures')
      rfl

/-- A match is that of the route that takes the path. -/
theorem Lawful.exists_takes_of_lookup (h : registry.Lawful history) {path : String}
    {result : Match α} (hlookup : registry.compile.lookup path = some result) :
    ∃ route raw, history.Takes path route ∧ route.capturesOn? path = some raw ∧
      registry.contents.lookup route = some result.payload ∧
      result.captures.entries = Dict.firstOfEach (raw.map decoded).reverse := by
  rw [Matcher.lookup_eq, Option.map_eq_some_iff] at hlookup
  obtain ⟨way, hway, rfl⟩ := hlookup
  obtain ⟨route, htakes, hpayload, hcaptures⟩ := h.exists_takes_of_way hway
  exact ⟨route, way.captures, htakes, hcaptures, hpayload, rfl⟩

theorem mem_routeHistory_iff {requests : List (String × α)} {route : Route} :
    route ∈ registry.routeHistory requests ↔
      ∃ request ∈ registry.accepted requests, Route.normal? request.1 = some route :=
  List.mem_filterMap

/-- After every run of registrations a path has a match just if the normal route of a request
that succeeded matches it. -/
theorem isSome_lookup_compile_iff (policy : Policy) (requests : List (String × α))
    (path : String) :
    (((ofPolicy policy).registerAll requests).compile.lookup path).isSome ↔
      ∃ request ∈ (ofPolicy policy).accepted requests, ∃ route,
        Route.normal? request.1 = some route ∧ route.Matches path := by
  have h := lawful_registerAll policy requests
  constructor
  · intro hsome
    obtain ⟨result, hlookup⟩ := Option.isSome_iff_exists.mp hsome
    obtain ⟨route, -, htakes, -⟩ := h.exists_takes_of_lookup hlookup
    obtain ⟨request, hrequest, hroute⟩ := mem_routeHistory_iff.mp htakes.mem
    exact ⟨request, hrequest, route, hroute, htakes.matches_path⟩
  · rintro ⟨request, hrequest, route, hroute, hmatches⟩
    rw [Option.isSome_iff_ne_none]
    intro hnone
    have hmem := mem_routeHistory_iff.mpr ⟨request, hrequest, hroute⟩
    exact h.not_matches_of_lookup hnone hmem hmatches

/-- The request without a name is refused, so its paths are not recognised. -/
example :
    let requests := [("/a/:x", 1), ("/:", 2)]
    let m := ((ofPolicy {}).registerAll requests).compile
    (ofPolicy {}).accepted requests = [("/a/:x", 1)] ∧ (m.lookup "/a/b").isSome = true ∧
      (m.lookup "/b").isSome = false := by
  decide +kernel

/-- After every run of registrations, if a registered route matches a path, exactly one of
those that match precedes all others, and its payload is what is found. -/
theorem lookup_compile_of_matches (policy : Policy) (requests : List (String × α))
    (path : String)
    (h : ∃ route ∈ (ofPolicy policy).routeHistory requests, Route.Matches route path) :
    ∃ winner, ((ofPolicy policy).routeHistory requests).Takes path winner ∧
      (∀ other, ((ofPolicy policy).routeHistory requests).Takes path other → other = winner) ∧
      ∃ payload, ((ofPolicy policy).registerAll requests).contents.lookup winner = some payload ∧
        (((ofPolicy policy).registerAll requests).compile.lookup path).map Match.payload =
          some payload := by
  have hlawful := lawful_registerAll policy requests
  obtain ⟨route, hroute, hmatches⟩ := h
  -- What is found is that of a route which takes the path, and only one route can.
  cases hlookup : ((ofPolicy policy).registerAll requests).compile.lookup path with
  | none => exact absurd hmatches (hlawful.not_matches_of_lookup hlookup hroute)
  | some result =>
    obtain ⟨winner, -, htakes, -, hpayload, -⟩ := hlawful.exists_takes_of_lookup hlookup
    refine ⟨winner, htakes, ?_, result.payload, hpayload, rfl⟩
    intro other hother
    exact hother.unique htakes

/-- Of two routes that match, a third one that does not match decides which takes the
path. -/
theorem lookup_compile_of_matches_deeper :
    (((ofPolicy {}).registerAll [("/a/:y", 1), ("/:x/b", 2)]).compile.lookup "/a/b").map
        Match.payload = some 1 ∧
      ∃ winner, ((ofPolicy {}).routeHistory
          [("/a/:y", 1), ("/:x/b", 2), ("/:x/c/d", 3)]).Takes "/a/b" winner ∧
        ((ofPolicy {}).registerAll
          [("/a/:y", 1), ("/:x/b", 2), ("/:x/c/d", 3)]).contents.lookup winner = some 2 := by
  refine ⟨by decide, ?_⟩
  obtain ⟨winner, htakes, -, payload, hpayload, hlookup⟩ :=
    lookup_compile_of_matches {} [("/a/:y", 1), ("/:x/b", 2), ("/:x/c/d", 3)] "/a/b" (by decide)
  have hfound : (((ofPolicy {}).registerAll
      [("/a/:y", 1), ("/:x/b", 2), ("/:x/c/d", 3)]).compile.lookup "/a/b").map Match.payload =
        some 2 := by
    decide +kernel
  obtain rfl := Option.some.inj (hlookup.symm.trans hfound)
  exact ⟨winner, htakes, hpayload⟩

/-- After every run of registrations a match has the payload of a registered route that
matches the path, and what this route captures: the decoded values in reverse order, with
the first of each name. So no name repeats, no other name occurs, and a name has the value
that was captured nearest to the end of the path. -/
theorem captures_lookup_compile (policy : Policy) (requests : List (String × α)) (path : String)
    (result : Match α)
    (h : ((ofPolicy policy).registerAll requests).compile.lookup path = some result) :
    ∃ (route : Route) (raw : List (String × String)),
      route ∈ (ofPolicy policy).routeHistory requests ∧
      route.capturesOn? path = some raw ∧
      ((ofPolicy policy).registerAll requests).contents.lookup route = some result.payload ∧
      result.captures.entries = Dict.firstOfEach (raw.map decoded).reverse ∧
      (result.captures.entries.map Prod.fst).Nodup ∧
      (∀ name, name ∈ result.captures.entries.map Prod.fst ↔ name ∈ raw.map Prod.fst) ∧
      ∀ name, result.captures.get? name = (raw.map decoded).reverse.lookup name := by
  obtain ⟨route, raw, htakes, hraw, hpayload, hentries⟩ :=
    (lawful_registerAll policy requests).exists_takes_of_lookup h
  refine ⟨route, raw, htakes.mem, hraw, hpayload, hentries, ?_, ?_, ?_⟩
  · rw [hentries]
    exact Dict.nodup_firstOfEach _
  · intro name
    have hnames : (raw.map decoded).map Prod.fst = raw.map Prod.fst := by
      rw [List.map_map]
      rfl
    rw [hentries, Dict.mem_map_fst_firstOfEach, List.map_reverse, List.mem_reverse, hnames]
  · intro name
    rw [Captures.get?, hentries, Dict.lookup_firstOfEach]

/-- The route that is tried first fails at its last segment and leaves no name behind. Of two
captures with one name the second counts. -/
theorem captures_lookup_compile_repeated :
    ∃ (route : Route) (raw : List (String × String)),
      route ∈ (ofPolicy {}).routeHistory [("/:a/:b/x/y", 1), ("/:id/:id/*rest", 2)] ∧
      route.capturesOn? "/w/u%20v/x/z" = some raw ∧
      ((ofPolicy {}).registerAll [("/:a/:b/x/y", 1), ("/:id/:id/*rest", 2)]).contents.lookup
        route = some 2 ∧
      [("rest", "x/z"), ("id", "u v")] = Dict.firstOfEach (raw.map decoded).reverse ∧
      (["rest", "id"] : List String).Nodup ∧
      (∀ name, name ∈ ["rest", "id"] ↔ name ∈ raw.map Prod.fst) ∧
      ∀ name, [("rest", "x/z"), ("id", "u v")].lookup name =
        (raw.map decoded).reverse.lookup name :=
  captures_lookup_compile {} [("/:a/:b/x/y", 1), ("/:id/:id/*rest", 2)] "/w/u%20v/x/z"
    ⟨2, ⟨[("rest", "x/z"), ("id", "u v")]⟩⟩ (by decide +kernel)

end Registry

end PathRouting
