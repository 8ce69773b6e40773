import Mathlib.Data.List.MinMax
import Mathlib.Order.Nat
import PathRouting.Proofs.Route.Normal
import PathRouting.Proofs.Trie.History

/-!
# Depth of registered routes

What decides between routes that match the same path is how deep the registered routes go
from the place where they part, whether or not those match the path.

## Main definitions

* `Route.weight` — how deep a single route is
* `History.depth` — how deep the deepest route is
* `History.reach` — how deep the routes are that go on with a segment

## Main results

* `Route.weight_cons` — a segment in front adds two
* `History.depth_le_iff` — a bound on the depth is one on every route
* `History.depth_le_iff_reach` — the depth at a place from the reach of its segments
-/

namespace PathRouting

namespace Route

/-- Two for each segment, and one for the end of the path, which a catch-all does not
need. -/
def weight (route : Route) : Nat :=
  if route.getLast?.any Segment.isCatchAll then 2 * route.length else 2 * route.length + 1

theorem weight_cons {segment : Segment} (h : segment.isCatchAll = false) (route : Route) :
    weight (segment :: route) = weight route + 2 := by
  cases route with
  | nil => simp [weight, h]
  | cons next rest =>
    rw [weight, weight, List.getLast?_cons_cons, List.length_cons]
    split <;> omega

end Route

namespace History

variable {history : History Segment}

/-- The greatest weight of a route, zero if there is none. -/
def depth (history : History Segment) : Nat :=
  (history.map Route.weight).foldr max 0

/-- The greatest depth behind any literal segment, zero if there is none. -/
def literalDepth (history : History Segment) : Nat :=
  ((history.heads.filter Segment.isLiteral).map fun segment =>
    depth (history.behind segment)).foldr max 0

/-- How deep the routes are that go on with a segment. All literal segments count as deep as
the deepest of them, since they are looked up together. -/
def reach (history : History Segment) : Segment → Nat
  | .literal _ => history.literalDepth + 1
  | .param name => depth (history.behind (.param name)) + 1
  | .catchAll _ => 1

theorem tidy_behind (htidy : ∀ route ∈ history, Route.Tidy route) (segment : Segment) :
    ∀ route ∈ history.behind segment, Route.Tidy route := by
  intro route hroute
  exact (htidy _ (mem_behind.mp hroute)).tail

/-- A bound on the greatest value is one on every value. -/
theorem foldr_max_le_iff {values : List Nat} {n : Nat} :
    values.foldr max 0 ≤ n ↔ ∀ value ∈ values, value ≤ n := by
  induction values with
  | nil => simp
  | cons value rest ih => rw [List.foldr_cons, Nat.max_le, ih, List.forall_mem_cons]

theorem le_foldr_max {values : List Nat} {value : Nat} (h : value ∈ values) :
    value ≤ values.foldr max 0 :=
  foldr_max_le_iff.mp le_rfl value h

theorem foldr_max_mem {values : List Nat} (h : values ≠ []) :
    values.foldr max 0 ∈ values :=
  List.maximum_mem (List.foldr_max_of_ne_nil h).symm

theorem weight_le_depth {route : Route} (h : route ∈ history) :
    route.weight ≤ history.depth :=
  le_foldr_max (List.mem_map_of_mem h)

/-- Some route is as deep as the deepest. -/
theorem exists_weight_eq_depth (h : history ≠ []) :
    ∃ route ∈ history, Route.weight route = history.depth :=
  List.mem_map.mp (foldr_max_mem (List.map_eq_nil_iff.not.mpr h))

theorem depth_behind_le_literalDepth {text : String} (h : .literal text ∈ history.heads) :
    depth (history.behind (.literal text)) ≤ history.literalDepth :=
  le_foldr_max (List.mem_map.mpr ⟨_, List.mem_filter.mpr ⟨h, rfl⟩, rfl⟩)

theorem exists_depth_eq_literalDepth {text : String} (h : .literal text ∈ history.heads) :
    ∃ segment ∈ history.heads, segment.isCatchAll = false ∧
      depth (history.behind segment) = history.literalDepth := by
  have hliteral : .literal text ∈ history.heads.filter Segment.isLiteral :=
    List.mem_filter.mpr ⟨h, rfl⟩
  obtain ⟨segment, hsegment, hdepth⟩ := List.mem_map.mp
    (foldr_max_mem (List.map_eq_nil_iff.not.mpr (List.ne_nil_of_mem hliteral)))
  obtain ⟨hhead, hliteral⟩ := List.mem_filter.mp hsegment
  refine ⟨segment, hhead, ?_, hdepth⟩
  cases segment with
  | literal text => rfl
  | param name => rfl
  | catchAll name => cases hliteral

/-- A route that goes on with a segment is no deeper than the reach of the segment. -/
theorem weight_le_reach {segment : Segment} {rest : Route}
    (hmem : segment :: rest ∈ history) (htidy : Route.Tidy (segment :: rest)) :
    Route.weight (segment :: rest) ≤ history.reach segment + 1 := by
  have hrest : Route.weight rest ≤ depth (history.behind segment) :=
    weight_le_depth (mem_behind.mpr hmem)
  cases segment with
  | literal text =>
    rw [Route.weight_cons rfl, reach]
    have hliteral := depth_behind_le_literalDepth (mem_heads.mpr ⟨rest, hmem⟩)
    omega
  | param name =>
    rw [Route.weight_cons rfl, reach]
    omega
  | catchAll name =>
    obtain rfl := htidy.eq_nil_of_catchAll
    exact le_rfl

/-- The reach of a segment is that of some route, which may go on with another literal. -/
theorem exists_weight_eq_reach {segment : Segment} (h : segment ∈ history.heads)
    (htidy : ∀ route ∈ history, Route.Tidy route) :
    ∃ route ∈ history, Route.weight route = history.reach segment + 1 := by
  -- The deepest route behind a segment is two deeper with the segment in front.
  have hbehind : ∀ other ∈ history.heads, other.isCatchAll = false →
      ∃ route ∈ history, Route.weight route = depth (history.behind other) + 2 := by
    intro other hother hkind
    obtain ⟨rest, hrest⟩ := mem_heads.mp hother
    obtain ⟨rest, hmem, hweight⟩ :=
      exists_weight_eq_depth (List.ne_nil_of_mem (mem_behind.mpr hrest))
    refine ⟨other :: rest, mem_behind.mp hmem, ?_⟩
    rw [Route.weight_cons hkind, hweight]
  cases segment with
  | literal text =>
    -- The deepest literal decides, whichever it is.
    obtain ⟨other, hother, hkind, hdepth⟩ := exists_depth_eq_literalDepth h
    rw [reach, ← hdepth]
    exact hbehind other hother hkind
  | param name => exact hbehind _ h rfl
  | catchAll name =>
    obtain ⟨rest, hmem⟩ := mem_heads.mp h
    obtain rfl := (htidy _ hmem).eq_nil_of_catchAll
    exact ⟨_, hmem, rfl⟩

theorem depth_le_iff {n : Nat} :
    history.depth ≤ n ↔ ∀ route ∈ history, Route.weight route ≤ n := by
  rw [depth, foldr_max_le_iff, List.forall_mem_map]

theorem literalDepth_le_iff {n : Nat} :
    history.literalDepth ≤ n ↔ ∀ segment ∈ history.heads, segment.isLiteral = true →
      depth (history.behind segment) ≤ n := by
  simp only [literalDepth, foldr_max_le_iff, List.forall_mem_map, List.mem_filter, and_imp]

/-- The depth at a place follows from whether a route ends there and from the reach of the
segments that routes go on with. -/
theorem depth_le_iff_reach (htidy : ∀ route ∈ history, Route.Tidy route) {n : Nat} :
    history.depth ≤ n ↔
      ([] ∈ history → 1 ≤ n) ∧ ∀ segment ∈ history.heads, history.reach segment + 1 ≤ n := by
  rw [depth_le_iff]
  constructor
  · intro h
    refine ⟨fun hnil => h [] hnil, ?_⟩
    intro segment hsegment
    obtain ⟨route, hroute, hweight⟩ := exists_weight_eq_reach hsegment htidy
    rw [← hweight]
    exact h route hroute
  · rintro ⟨hnil, hheads⟩ route hroute
    cases route with
    | nil => exact hnil hroute
    | cons segment rest =>
      exact (weight_le_reach hroute (htidy _ hroute)).trans
        (hheads segment (mem_heads.mpr ⟨rest, hroute⟩))

end History

end PathRouting
