import PathRouting.Proofs.Compiled.Locality

/-!
# Registering a route again

A route that is registered and is registered again, perhaps by a pattern that goes on after
its catch-all, gets a new payload. Nothing else changes: the nodes keep their children and
these their order, the compiled matcher keeps its depth, and the routes keep their order,
also the one that is written and those that came after it. So each path is taken by the
route that took it before, with the same captures, and only the paths of the one route lead
to the new payload. That one is known as a route and not by its payload, which others may
share.

## Main results

* `Registry.Lawful.depth_compile` — the compiled matcher is as deep as the deepest route
* `Registry.register_of_mem_sets_payload` — registering a route again changes its payload and
  nothing else
-/

namespace PathRouting

universe u

/-! ### Depth and matches -/

namespace Registry

variable {α : Type u} {registry : Registry α} {history : History Segment}

/-- The compiled matcher is as deep as the deepest route. -/
theorem Lawful.depth_compile (h : registry.Lawful history) (hne : history ≠ []) :
    registry.compile.depth = history.depth := by
  obtain ⟨m, hm, hdepth⟩ := h.grown.exists_matcher? h.tidy hne
  rw [compile, hm, Option.getD_some, hdepth]

section Again

variable {pattern : String} {payload : α} {r : Route}

/-- What remains of a request that succeeds for a route which is registered. -/
theorem Lawful.registry_register_of_mem (h : registry.Lawful history) (hmem : r ∈ history)
    (hroute : Route.normal? pattern = some r)
    (hok : (registry.register pattern payload).outcome = .ok ()) :
    (registry.register pattern payload).registry =
      { registry with routes := registry.routes.update (fun _ => payload) r } := by
  have hpresent := h.grown.isSome_get?_iff.mpr hmem
  have hstep := registry.step_register pattern payload
  generalize registry.register pattern payload = result at hok hstep
  cases hstep with
  | invalid => cases hok
  | duplicate => cases hok
  | replaced hvalid =>
    obtain rfl := Option.some.inj (hroute.symm.trans (route_eq_ok_iff.mp hvalid).1)
    rfl
  | added hvalid habsent =>
    obtain rfl := Option.some.inj (hroute.symm.trans (route_eq_ok_iff.mp hvalid).1)
    rw [habsent] at hpresent
    cases hpresent

theorem Lawful.depth_compile_register_of_mem (h : registry.Lawful history) (hmem : r ∈ history)
    (hroute : Route.normal? pattern = some r)
    (hok : (registry.register pattern payload).outcome = .ok ()) :
    (registry.register pattern payload).registry.compile.depth = registry.compile.depth := by
  rw [(h.register_of_ok hok hroute).depth_compile (by simp),
    h.depth_compile (List.ne_nil_of_mem hmem)]
  apply History.depth_congr
  intro route
  exact History.mem_append_singleton_iff fun hsame => hsame ▸ hmem

/-- A path that a route takes leads to the same place afterwards, with the new payload if the
route is the one that was written. -/
theorem Lawful.lookup_register_of_mem (h : registry.Lawful history) (hmem : r ∈ history)
    (hroute : Route.normal? pattern = some r)
    (hok : (registry.register pattern payload).outcome = .ok ()) {path : String}
    {winner : Route} (htakes : history.Takes path winner) {present : α} {captures : Captures}
    (hlookup : registry.compile.lookup path = some ⟨present, captures⟩) :
    (registry.register pattern payload).registry.compile.lookup path =
      some ⟨if winner = r then payload else present, captures⟩ := by
  rw [Matcher.lookup_eq, Option.map_eq_some_iff] at hlookup
  obtain ⟨way, hway, hmatch⟩ := hlookup
  obtain ⟨route, hroute', hpayload, hcaptures⟩ := h.exists_takes_of_way hway
  obtain rfl := hroute'.unique htakes
  have hway' : ((registry.register pattern payload).registry.compile.ways path.toList).head? =
      some ⟨if route = r then payload else way.payload, way.captures⟩ := by
    rw [(h.register_of_ok hok hroute).head?_ways_eq_some_iff]
    refine ⟨route, ?_, ?_, hcaptures⟩
    · rwa [History.takes_append_iff_of_mem hmem]
    · rw [h.lookup_contents_of_ok hok hroute]
      by_cases hwritten : route = r
      · rw [if_pos hwritten, if_pos hwritten]
      · rw [if_neg hwritten, if_neg hwritten, hpayload]
  rw [Matcher.lookup_eq, hway', Option.map_some]
  cases hmatch
  rfl

/-- A path that leads nowhere does so afterwards. -/
theorem Lawful.lookup_register_of_none (h : registry.Lawful history) (hmem : r ∈ history)
    (hroute : Route.normal? pattern = some r)
    (hok : (registry.register pattern payload).outcome = .ok ()) {path : String}
    (hnone : registry.compile.lookup path = none) :
    (registry.register pattern payload).registry.compile.lookup path = none := by
  rw [Option.eq_none_iff_forall_ne_some]
  intro result hresult
  have hafter := h.register_of_ok hok hroute
  obtain ⟨route, -, htakes, -⟩ := hafter.exists_takes_of_lookup hresult
  rw [History.takes_append_iff_of_mem hmem] at htakes
  exact h.not_matches_of_lookup hnone htakes.mem htakes.matches_path

end Again

/-! ### Main theorem -/

/-- After every run of registrations, a request that succeeds for a route which is registered
sets the payload of that route and changes nothing else: neither the size, nor the children
of a node or their order, nor the depth of the compiled matcher, nor which of two routes
comes first. No path finds a match that found none. A path that a route takes finds the same
captures in the same order, with the new payload if the route is that of the request, and
with the payload of before if it is another. -/
theorem register_of_mem_sets_payload (policy : Policy) (requests : List (String × α))
    (pattern : String) (payload : α) (r : Route)
    (hmem : r ∈ (ofPolicy policy).routeHistory requests)
    (hroute : Route.normal? pattern = some r)
    (hok : (((ofPolicy policy).registerAll requests).register pattern payload).outcome =
      .ok ()) :
    let history := (ofPolicy policy).routeHistory requests
    let history' := (ofPolicy policy).routeHistory (requests ++ [(pattern, payload)])
    let before := (ofPolicy policy).registerAll requests
    let after := (before.register pattern payload).registry
    after.size = before.size ∧
      (∀ keys, (after.routes.node? keys).map Trie.childKeys =
        (before.routes.node? keys).map Trie.childKeys) ∧
      after.compile.depth = before.compile.depth ∧
      (∀ p ∈ history, ∀ q ∈ history, history'.Precedes p q ↔ history.Precedes p q) ∧
      ∀ path,
        (before.compile.lookup path = none ∧ after.compile.lookup path = none) ∨
          ∃ winner present captures, history.Takes path winner ∧
            before.compile.lookup path = some ⟨present, captures⟩ ∧
            after.compile.lookup path =
              some ⟨if winner = r then payload else present, captures⟩ := by
  intro history history' before after
  have hbefore : before.Lawful history := lawful_registerAll policy requests
  have hafter : after = _ := hbefore.registry_register_of_mem hmem hroute hok
  refine ⟨?_, ?_, hbefore.depth_compile_register_of_mem hmem hroute hok, ?_, ?_⟩
  · rw [hafter]
  · intro keys
    rw [hafter]
    exact Trie.childKeys_node?_update _ (hbefore.grown.isSome_get?_iff.mpr hmem) keys
  · intro p hp q hq
    have hhistory : history' = history ++ [r] := by
      rw [← routeHistory_singleton_of_ok hok hroute]
      exact routeHistory_append _ requests _
    rw [hhistory]
    exact History.precedes_append_iff (History.keepsReach_of_mem hmem) hp hq
  · intro path
    cases hlookup : before.compile.lookup path with
    | none =>
      left
      exact ⟨rfl, hbefore.lookup_register_of_none hmem hroute hok hlookup⟩
    | some result =>
      right
      obtain ⟨winner, -, htakes, -⟩ := hbefore.exists_takes_of_lookup hlookup
      refine ⟨winner, result.payload, result.captures, htakes, rfl, ?_⟩
      exact hbefore.lookup_register_of_mem hmem hroute hok htakes hlookup

/-- The first of two routes with one payload is registered again, by a pattern that goes on
after the catch-all. It still comes before the second, and the path that it takes is the one
that finds the new payload. -/
theorem register_of_mem_sets_payload_excess :
    let before := (ofPolicy {}).registerAll [("/:id/*rest", 1), ("/:name/*rest", 1)]
    let after := (before.register "/:id/*rest/more" 2).registry
    after.size = before.size ∧ after.compile.depth = before.compile.depth ∧
      after.compile.lookup "/u/v" = some ⟨2, ⟨[("rest", "v"), ("id", "u")]⟩⟩ ∧
      ∀ path, (after.compile.lookup path).map Match.captures =
        (before.compile.lookup path).map Match.captures := by
  intro before after
  obtain ⟨hsize, -, hdepth, -, hpaths⟩ := register_of_mem_sets_payload {}
    [("/:id/*rest", 1), ("/:name/*rest", 1)] "/:id/*rest/more" 2 [.param "id", .catchAll "rest"]
    (by decide) (by decide) (by decide)
  refine ⟨hsize, hdepth, by decide +kernel, ?_⟩
  intro path
  rcases hpaths path with ⟨hbefore, hafter⟩ | ⟨winner, present, captures, -, hbefore, hafter⟩
  · rw [hbefore, hafter]
  · rw [hbefore, hafter]
    rfl

end Registry

end PathRouting
