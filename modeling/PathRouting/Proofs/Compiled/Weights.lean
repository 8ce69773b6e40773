import Mathlib.Order.Bounds.Basic
import PathRouting.Proofs.Compiled.NormalForm
import PathRouting.Proofs.Compiled.Overwriting

/-!
# Depth in closed form

The depth that a compiled matcher stores was counted by five rules, on the way through folded
literals, tables and alternatives. It is the greatest weight of a registered route, and the
same holds at every inner node for what the routes have left to go from there.

## Main results

* `History.isGreatest_depth` — the depth of a history is the greatest weight in it
* `Registry.isGreatest_depth_registerAll` — after every run of registrations the depth of the
  compiled matcher, and of the matcher of each inner node, is a greatest weight
-/

namespace PathRouting

universe u

namespace History

variable {history : History Segment}

/-- The depth of a history is the greatest weight of a route in it. -/
theorem isGreatest_depth (hne : history ≠ []) :
    IsGreatest {weight | ∃ route ∈ history, weight = Route.weight route} history.depth := by
  constructor
  · obtain ⟨route, hroute, hweight⟩ := exists_weight_eq_depth hne
    exact ⟨route, hroute, hweight.symm⟩
  · rintro _ ⟨route, hroute, rfl⟩
    exact weight_le_depth hroute

end History

/-- The matcher of an inner node is as deep as the routes that lead through the node have
left to go. -/
theorem Trie.GrownFrom.isGreatest_depth_of_node? {α : Type u} {history : History Segment}
    {t node : Trie Segment α} (h : GrownFrom history t)
    (htidy : ∀ route ∈ history, Route.Tidy route) {keys : Route} (hkeys : keys ≠ [])
    (hnode : t.node? keys = some node) :
    ∃ m, node.matcher? = some m ∧
      IsGreatest {weight | ∃ rest, keys ++ rest ∈ history ∧ weight = Route.weight rest}
        m.depth := by
  have hbehind : history.behindAll keys ≠ [] := h.behindAll_ne_nil hkeys hnode
  obtain ⟨m, hm, hdepth⟩ :=
    (h.of_node? hnode).exists_matcher? (History.tidy_behindAll htidy keys) hbehind
  refine ⟨m, hm, ?_⟩
  have hgreatest := History.isGreatest_depth hbehind
  simp only [History.mem_behindAll] at hgreatest
  rw [hdepth]
  exact hgreatest

namespace Registry

variable {α : Type u}

/-- After every run of registrations, the compiled matcher has depth 1 if no route is
registered, and else the greatest weight of a registered route. The matcher of an inner node
has the greatest weight of what the routes that lead there have left to go. Compiling reports
the depth, with the number of routes, and nothing else. -/
theorem isGreatest_depth_registerAll (policy : Policy) (requests : List (String × α)) :
    let registry := (ofPolicy policy).registerAll requests
    let registered := (ofPolicy policy).routeHistory requests
    (registered = [] → registry.compile.depth = 1) ∧
      (registered ≠ [] →
        IsGreatest {weight | ∃ route ∈ registered, weight = Route.weight route}
          registry.compile.depth) ∧
      (∀ keys node, keys ≠ [] → registry.routes.node? keys = some node →
        ∃ m, node.matcher? = some m ∧
          IsGreatest {weight | ∃ rest, keys ++ rest ∈ registered ∧ weight = Route.weight rest}
            m.depth) ∧
      ∃ notice, registry.compileLogged = (registry.compile, [notice]) ∧ notice.level = .debug ∧
        notice.message = "compiled " ++ toString registry.size ++
          " pattern(s) into a matcher (depth = " ++ toString registry.compile.depth ++ ")" := by
  intro registry registered
  have hlawful : registry.Lawful registered := lawful_registerAll policy requests
  refine ⟨?_, ?_, ?_, .compiled registry.size registry.compile.depth, rfl, rfl, rfl⟩
  · intro hnone
    rw [hnone] at hlawful
    rw [hlawful.compile_eq_leaf]
    rfl
  · intro hne
    rw [hlawful.depth_compile hne]
    exact History.isGreatest_depth hne
  · intro keys node hkeys hnode
    exact hlawful.grown.isGreatest_depth_of_node? hlawful.tidy hkeys hnode

/-- The parameter is a route of its own, and below it the folded literal has more to go than
the catch-all. -/
theorem isGreatest_depth_registerAll_folded :
    let requests := [("/a/:x/b/c", 1), ("/a/:x", 2), ("/a/:x/*rest", 3), ("/:y/*rest", 4)]
    let registry := (ofPolicy {}).registerAll requests
    let registered := (ofPolicy {}).routeHistory requests
    let keys : Route := [.literal "a", .param "x"]
    let node : Trie Segment Nat :=
      ⟨some 2, [(.literal "b", ⟨none, [(.literal "c", ⟨some 1, []⟩)]⟩),
        (.catchAll "rest", ⟨some 3, []⟩)]⟩
    registered ≠ [] ∧
      IsGreatest {weight | ∃ route ∈ registered, weight = Route.weight route} 9 ∧
      keys ≠ [] ∧ registry.routes.node? keys = some node ∧
      IsGreatest {weight | ∃ rest, keys ++ rest ∈ registered ∧ weight = Route.weight rest} 5 := by
  intro requests registry registered keys node
  obtain ⟨-, hroot, hinner, -⟩ := isGreatest_depth_registerAll {} requests
  have hne : registered ≠ [] := by decide +kernel
  have hdepth : registry.compile.depth = 9 := by decide +kernel
  have hkeys : keys ≠ [] := List.cons_ne_nil _ _
  have hnode : registry.routes.node? keys = some node := rfl
  obtain ⟨m, hm, hgreatest⟩ := hinner keys node hkeys hnode
  have hinnerDepth : node.matcher?.map Matcher.depth = some 5 := by decide +kernel
  rw [hm, Option.map_some, Option.some.injEq] at hinnerDepth
  rw [hinnerDepth] at hgreatest
  exact ⟨hne, hdepth ▸ hroot hne, hkeys, hnode, hgreatest⟩

end Registry

end PathRouting
