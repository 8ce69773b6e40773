import PathRouting.Proofs.Compiled.Lookup
import PathRouting.Proofs.Route.Addition

/-!
# What one more route can disturb

A route that is registered later takes part in no path that it does not match, and yet it
can change which route takes such a path: on its way it may make the literals of a node, or
one of its parameters, deeper than they were, and depth decides between them. There is no
other way. The new route may turn a prefix test into a table, unfold a chain of literals or
join the alternatives of a node, and as long as the depths on its way stay the same, a path
that it does not match leads where it led before.

## Main definitions

* `Trie.dispatchDepth?`, `Trie.paramDepth?` — the depths of the matchers that compete at a
  node
* `Trie.KeepsDepths` — on the way of a route they are the same in two tries

## Main results

* `History.takes_append_iff` — one more route changes no winner where it keeps the depths
* `Trie.GrownFrom.keepsReach` — depths of matchers are depths of routes
* `Registry.lookupLogged_register_of_not_matches` — hence a registration that keeps the
  depths on its way disturbs no path that it does not match
-/

namespace PathRouting

universe u

variable {α : Type u}

/-! ### One more route takes no path from another -/

/-- Where nothing reaches deeper, one more route leaves every path to the route that takes
it, unless the new route matches. -/
theorem History.takes_append_iff {history : History Segment} {route p : Route} {path : String}
    (h : history.KeepsReach route) (hroute : route.Matches path → route ∈ history) :
    Takes (history ++ [route]) path p ↔ history.Takes path p := by
  have hmem : ∀ q, Route.Matches q path → (q ∈ history ++ [route] ↔ q ∈ history) := by
    intro q hq
    apply mem_append_singleton_iff
    intro hsame
    subst hsame
    exact hroute hq
  constructor
  · intro htakes
    have hp := (hmem p htakes.matches_path).mp htakes.mem
    refine ⟨hp, htakes.matches_path, ?_⟩
    intro q hq hmatches hne
    rw [← precedes_append_iff h hp hq]
    exact htakes.precedes q ((hmem q hmatches).mpr hq) hmatches hne
  · intro htakes
    refine ⟨(hmem p htakes.matches_path).mpr htakes.mem, htakes.matches_path, ?_⟩
    intro q hq hmatches hne
    have hold := (hmem q hmatches).mp hq
    rw [precedes_append_iff h htakes.mem hold]
    exact htakes.precedes q hold hmatches hne

/-- A route that is there already takes no path from another. -/
theorem History.takes_append_iff_of_mem {history : History Segment} {route p : Route}
    {path : String} (h : route ∈ history) :
    Takes (history ++ [route]) path p ↔ history.Takes path p :=
  takes_append_iff (keepsReach_of_mem h) fun _ => h

namespace Trie

/-! ### Depths at the nodes on the way -/

/-- The depth of the matcher that dispatches on the literal children of a node, if it has
any. -/
def dispatchDepth? (t : Trie Segment α) : Option Nat :=
  (branch t.children).dispatchers.head?.map Matcher.depth

/-- The depth of the matcher of a parameter, if the node has that parameter. -/
def paramDepth? (t : Trie Segment α) (name : String) : Option Nat :=
  (t.children.lookup (.param name)).bind fun child =>
    child.matcher?.map fun inner => (Matcher.wild name inner).depth

/-- What competes at a node is as deep at another one. -/
structure SameDepths (node node' : Trie Segment α) : Prop where
  dispatch : ∀ depth, node.dispatchDepth? = some depth → node'.dispatchDepth? = some depth
  param : ∀ name depth, node.paramDepth? name = some depth →
    node'.paramDepth? name = some depth

/-- What competes at the nodes on the way of a route is as deep in another trie. -/
def KeepsDepths (route : Route) (t t' : Trie Segment α) : Prop :=
  ∀ front, front <+: route → ∀ node node', t.node? front = some node →
    t'.node? front = some node' → node.SameDepths node'

namespace GrownFrom

variable {history : History Segment} {t t' : Trie Segment α}

theorem exists_matcher?_of_mem (h : GrownFrom history t)
    (htidy : ∀ route ∈ history, Route.Tidy route) {segment : Segment} {child : Trie Segment α}
    (hchild : (segment, child) ∈ t.children) : ∃ inner, child.matcher? = some inner := by
  obtain ⟨inner, hinner, -⟩ := (h.of_mem hchild).exists_matcher?
    (History.tidy_behind htidy segment) (h.behind_ne_nil_of_mem hchild)
  exact ⟨inner, hinner⟩

theorem dispatchDepth?_eq (h : GrownFrom history t)
    (htidy : ∀ route ∈ history, Route.Tidy route) {text : String}
    (htext : .literal text ∈ history.heads) :
    t.dispatchDepth? = some (history.reach (.literal text)) := by
  obtain ⟨child, hchild⟩ := h.exists_mem_of_mem_heads htext
  obtain ⟨inner, hinner⟩ := h.exists_matcher?_of_mem htidy hchild
  rw [dispatchDepth?]
  cases hdispatchers : (branch t.children).dispatchers with
  | nil =>
    -- A node with a literal child dispatches on it.
    obtain ⟨m, hm⟩ := exists_mem_dispatchers
      (List.ne_nil_of_mem (mem_literals.mpr ⟨child, hchild, hinner⟩))
    rw [hdispatchers] at hm
    cases hm
  | cons m rest =>
    have hm : m ∈ (branch t.children).dispatchers := hdispatchers ▸ List.mem_cons_self
    have hserves : m.Serves (.literal text) := (serves_of_mem_dispatchers hm).mpr ⟨text, rfl⟩
    rw [List.head?_cons, Option.map_some,
      h.depth_of_serves htidy (mem_candidates.mpr (.inl hm)) hserves]

theorem paramDepth?_eq (h : GrownFrom history t)
    (htidy : ∀ route ∈ history, Route.Tidy route) {name : String}
    (hname : .param name ∈ history.heads) :
    t.paramDepth? name = some (history.reach (.param name)) := by
  obtain ⟨child, hchild⟩ := h.exists_mem_of_mem_heads hname
  obtain ⟨inner, hinner⟩ := h.exists_matcher?_of_mem htidy hchild
  have hwild := mem_wilds.mpr ⟨name, child, inner, hchild, hinner, rfl⟩
  have hdepth := h.depth_of_serves htidy (mem_candidates.mpr (.inr (.inl hwild)))
    (Matcher.serves_wild_iff.mpr rfl)
  rw [paramDepth?, (Dict.lookup_eq_some_iff_mem h.nodup_keys).mpr hchild, Option.bind_some,
    hinner, Option.map_some, hdepth]

/-- The segments that go on at a node reach as deep at another one whose matchers are as
deep. -/
theorem reach_eq_of_sameDepths {history' : History Segment} (h : GrownFrom history t)
    (h' : GrownFrom history' t') (htidy : ∀ route ∈ history, Route.Tidy route)
    (htidy' : ∀ route ∈ history', Route.Tidy route) (hsame : t.SameDepths t')
    {segment : Segment} (hsegment : segment ∈ history.heads)
    (hsegment' : segment ∈ history'.heads) :
    history'.reach segment = history.reach segment := by
  cases segment with
  | literal text =>
    have hbefore := hsame.dispatch _ (h.dispatchDepth?_eq htidy hsegment)
    rw [h'.dispatchDepth?_eq htidy' hsegment'] at hbefore
    exact Option.some.inj hbefore
  | param name =>
    have hbefore := hsame.param _ _ (h.paramDepth?_eq htidy hsegment)
    rw [h'.paramDepth?_eq htidy' hsegment'] at hbefore
    exact Option.some.inj hbefore
  | catchAll name => rfl

/-- If the matchers on the way of one more route are as deep as before, so are the routes. -/
theorem keepsReach {route : Route} (h : GrownFrom history t)
    (h' : GrownFrom (history ++ [route]) t')
    (htidy : ∀ other ∈ history ++ [route], Route.Tidy other)
    (hdepths : KeepsDepths route t t') : history.KeepsReach route := by
  intro front hfront segment hsegment
  -- The segment leads on from a node of the first trie, and so there is one in the second.
  obtain ⟨rest, hrest⟩ := History.mem_heads.mp hsegment
  have hrest' : segment :: rest ∈ History.behindAll (history ++ [route]) front :=
    History.mem_behindAll.mpr (List.mem_append_left _ (History.mem_behindAll.mp hrest))
  obtain ⟨node, hnode⟩ := h.exists_node? hrest
  obtain ⟨node', hnode'⟩ := h'.exists_node? hrest'
  apply reach_eq_of_sameDepths (h.of_node? hnode) (h'.of_node? hnode')
  · exact History.tidy_behindAll (fun other hother => htidy other (List.mem_append_left _ hother))
      front
  · exact History.tidy_behindAll htidy front
  · exact hdepths front hfront node node' hnode hnode'
  · exact hsegment
  · exact History.mem_heads.mpr ⟨rest, hrest'⟩

end GrownFrom

end Trie

/-! ### Registries -/

namespace Registry

/-- After every run of registrations, one more that succeeds changes nothing about a path
that its route does not match, if on its way the matchers that compete at each node are as
deep as before: the same match is found, with the same captures in the same order, or none,
and the same is reported. -/
theorem lookupLogged_register_of_not_matches (policy : Policy) (requests : List (String × α))
    (pattern : String) (payload : α) (r : Route) (path : String)
    (hok : (((ofPolicy policy).registerAll requests).register pattern payload).outcome = .ok ())
    (hroute : Route.normal? pattern = some r) (hpath : ¬ r.Matches path)
    (hdepths : Trie.KeepsDepths r ((ofPolicy policy).registerAll requests).routes
      (((ofPolicy policy).registerAll requests).register pattern payload).registry.routes) :
    let before := (ofPolicy policy).registerAll requests
    let after := (before.register pattern payload).registry
    after.compile.lookupLogged path = before.compile.lookupLogged path := by
  intro before after
  have hbefore : before.Lawful _ := lawful_registerAll policy requests
  have hafter : after.Lawful _ := hbefore.register_of_ok hok hroute
  have hkeeps := hbefore.grown.keepsReach hafter.grown hafter.tidy hdepths
  apply Matcher.lookupLogged_congr
  ext way
  rw [hafter.head?_ways_eq_some_iff, hbefore.head?_ways_eq_some_iff]
  apply exists_congr
  intro winner
  rw [History.takes_append_iff hkeeps (fun hmatches => absurd hmatches hpath)]
  apply and_congr_right
  intro htakes
  -- The new route does not match, so it is not the winner and has not changed its payload.
  have hne : winner ≠ r := by
    intro hsame
    exact hpath (hsame ▸ htakes.matches_path)
  rw [hbefore.lookup_contents_of_ok hok hroute, if_neg hne]

/-- The new route turns the prefix test behind the parameter into a table; the literal beside
that parameter is as deep as before, and still comes first. -/
theorem lookupLogged_register_of_not_matches_table :
    let before := (ofPolicy {}).registerAll [("/a/:x", 1), ("/:y/b", 2)]
    before.compile.lookup "/a/b" = some ⟨1, ⟨[("x", "b")]⟩⟩ ∧
      (before.register "/:y/c" 3).registry.compile.lookupLogged "/a/b" =
        before.compile.lookupLogged "/a/b" := by
  intro before
  have hbefore : before.routes = ⟨none, [(.literal "a", ⟨none, [(.param "x", ⟨some 1, []⟩)]⟩),
      (.param "y", ⟨none, [(.literal "b", ⟨some 2, []⟩)]⟩)]⟩ := by rfl
  have hafter : (before.register "/:y/c" 3).registry.routes =
      ⟨none, [(.literal "a", ⟨none, [(.param "x", ⟨some 1, []⟩)]⟩),
        (.param "y", ⟨none, [(.literal "b", ⟨some 2, []⟩), (.literal "c", ⟨some 3, []⟩)]⟩)]⟩ := by
    rfl
  have hdepths : Trie.KeepsDepths [.param "y", .literal "c"] before.routes
      (before.register "/:y/c" 3).registry.routes := by
    intro front hfront node node' hnode hnode'
    rw [hbefore] at hnode
    rw [hafter] at hnode'
    obtain rfl | ⟨rest, rfl, hrest⟩ := List.prefix_cons_iff.mp hfront
    · cases hnode
      cases hnode'
      refine ⟨fun depth h => h ▸ by decide, ?_⟩
      intro name depth h
      obtain ⟨child, hchild, hinner⟩ := Option.bind_eq_some_iff.mp h
      have hmem := (Dict.lookup_eq_some_iff_mem (by decide)).mp hchild
      by_cases hname : name = "y"
      · subst hname
        exact h ▸ by decide
      · simp [hname] at hmem
    · obtain rfl | ⟨last, rfl, -⟩ := List.prefix_cons_iff.mp hrest
      · cases hnode
        cases hnode'
        refine ⟨fun depth h => h ▸ by decide, ?_⟩
        intro name depth h
        obtain ⟨child, hchild, hinner⟩ := Option.bind_eq_some_iff.mp h
        simpa using (Dict.lookup_eq_some_iff_mem (by decide)).mp hchild
      · cases hnode
  exact ⟨by decide +kernel, lookupLogged_register_of_not_matches {} _ "/:y/c" 3
    [.param "y", .literal "c"] "/a/b" (by decide) (by decide) (by decide) hdepths⟩

/-- The new route makes the parameter deeper than the literal beside it, and takes no part
itself. -/
example :
    let before := (ofPolicy {}).registerAll [("/a/:x", 1), ("/:y/b", 2)]
    before.compile.lookup "/a/b" = some ⟨1, ⟨[("x", "b")]⟩⟩ ∧
      (before.register "/:y/c/d" 3).registry.compile.lookup "/a/b" =
        some ⟨2, ⟨[("y", "a")]⟩⟩ := by
  decide +kernel

end Registry

end PathRouting
