import PathRouting.Proofs.Path.Parts
import PathRouting.Route

/-!
# Normal routes

A pattern is registered under its normal route: the segments up to the first catch-all. Two
patterns with the same normal route are the same registration.

## Main definitions

* `Route.normal?` — the normal route of a pattern
* `Route.Tidy` — what can stand at or behind a place of a registered route
* `Route.WellFormed` — what can be registered

## Main results

* `Route.wellFormed_of_normal?` — a normal route in which every capture has a name is well
  formed
* `Route.Tidy.tail`, `Route.Tidy.eq_nil_of_catchAll` — what goes on behind a segment
-/

namespace PathRouting

namespace Segment

/-- Whether a segment is literal text. -/
def isLiteral : Segment → Bool
  | .literal _ => true
  | _ => false

/-- The text of a literal segment, or the name of one that captures. -/
def label : Segment → String
  | literal text => text
  | param name => name
  | catchAll name => name

/-- A segment that can be registered: its text has no slash and is read as the segment
itself, and what captures has a name. -/
structure WellFormed (segment : Segment) : Prop where
  slash_notMem : '/' ∉ segment.write.toList
  parse_write : parse segment.write = segment
  isNameless_eq : segment.isNameless = false

theorem wellFormed_parse {part : List Char} (hslash : '/' ∉ part)
    (hname : (parse (String.ofList part)).isNameless = false) :
    (parse (String.ofList part)).WellFormed := by
  refine ⟨?_, ?_, hname⟩
  · rw [write_parse, String.toList_ofList]
    exact hslash
  · rw [write_parse]

end Segment

namespace Route

/-- The route under which a pattern is registered. -/
def normal? (pattern : String) : Option Route :=
  (ofPattern? pattern).map cut

/-- What can stand at or behind a place of a registered route. -/
structure Tidy (route : Route) : Prop where
  /-- A catch-all stands last. -/
  cut_eq : route.cut = route
  segments : ∀ segment ∈ route, segment.WellFormed

/-- A route that can be registered. -/
structure WellFormed (route : Route) : Prop extends Tidy route where
  /-- There is a segment for each part, and a path has at least one part. -/
  ne_nil : route ≠ []

theorem cut_cons_of_not_catchAll {segment : Segment} (h : segment.isCatchAll = false)
    (route : Route) : cut (segment :: route) = segment :: cut route := by
  cases segment with
  | catchAll name => simp [Segment.isCatchAll] at h
  | literal text => rfl
  | param name => rfl

theorem excess_cons_of_not_catchAll {segment : Segment} (h : segment.isCatchAll = false)
    (route : Route) : excess (segment :: route) = excess route := by
  cases segment with
  | catchAll name => simp [Segment.isCatchAll] at h
  | literal text => rfl
  | param name => rfl

theorem hasNameless_cons (segment : Segment) (route : Route) :
    hasNameless (segment :: route) = (segment.isNameless || hasNameless route) := rfl

theorem hasNameless_iff {route : Route} :
    route.hasNameless = true ↔ ∃ segment ∈ route, segment.name? = some "" := by
  simp [hasNameless, Segment.isNameless]

theorem cut_cut (route : Route) : route.cut.cut = route.cut := by
  fun_induction cut route with
  | case1 => rfl
  | case2 name rest => rfl
  | case3 segment rest hne ih =>
    -- The third case is that of a segment that is no catch-all.
    cases segment with
    | catchAll name => exact absurd rfl (hne name)
    | literal text => rw [cut_cons_of_not_catchAll rfl, ih]
    | param name => rw [cut_cons_of_not_catchAll rfl, ih]

theorem cut_subset (route : Route) : route.cut ⊆ route := by
  intro segment hmem
  rw [← cut_append_excess route]
  exact List.mem_append_left _ hmem

theorem cut_eq_nil_iff {route : Route} : route.cut = [] ↔ route = [] := by
  fun_cases cut route <;> simp

theorem ofPattern?_eq_none_iff {pattern : String} :
    ofPattern? pattern = none ↔ pattern.toList.head? ≠ some '/' := by
  rw [ofPattern?]
  cases pattern.toList <;> simp

theorem ofPattern?_eq_some_iff {pattern : String} {route : Route} :
    ofPattern? pattern = some route ↔ ∃ text, pattern.toList = '/' :: text ∧
      route = (Path.parts text).map fun part => Segment.parse (String.ofList part) := by
  rw [ofPattern?]
  split
  · simp_all
  · rename_i c rest hpattern
    rw [hpattern, Option.ite_none_right_eq_some]
    constructor
    · rintro ⟨rfl, hroute⟩
      exact ⟨rest, rfl, (Option.some.inj hroute).symm⟩
    · rintro ⟨text, hcons, rfl⟩
      obtain ⟨rfl, rfl⟩ := List.cons.inj hcons
      exact ⟨rfl, rfl⟩

theorem wellFormed_of_normal? {pattern : String} {route : Route}
    (h : normal? pattern = some route) (hname : route.hasNameless = false) :
    route.WellFormed := by
  obtain ⟨segments, hsegments, rfl⟩ := Option.map_eq_some_iff.mp h
  obtain ⟨text, -, rfl⟩ := ofPattern?_eq_some_iff.mp hsegments
  refine ⟨⟨cut_cut _, ?_⟩, ?_⟩
  · -- The segments of a pattern are read from its parts, and the cut drops some of them.
    intro segment hmem
    obtain ⟨part, hpart, rfl⟩ := List.mem_map.mp (cut_subset _ hmem)
    apply Segment.wellFormed_parse (Path.slash_notMem_of_mem_parts hpart)
    rw [← Bool.not_eq_true]
    exact List.any_eq_false.mp hname _ hmem
  · rw [ne_eq, cut_eq_nil_iff, List.map_eq_nil_iff]
    exact Path.parts_ne_nil text

namespace Tidy

variable {route : Route}

theorem tail {segment : Segment} (h : Tidy (segment :: route)) : Tidy route := by
  refine ⟨?_, fun other hmem => h.segments other (List.mem_cons_of_mem _ hmem)⟩
  have hcut := h.cut_eq
  cases segment with
  | catchAll name =>
    -- The cut ends at a catch-all, so nothing follows it.
    obtain rfl : [] = route := (List.cons.inj hcut).2
    rfl
  | literal text => exact (List.cons.inj hcut).2
  | param name => exact (List.cons.inj hcut).2

theorem eq_nil_of_catchAll {name : String} (h : Tidy (.catchAll name :: route)) :
    route = [] :=
  (List.cons.inj h.cut_eq).2.symm

theorem slash_notMem {text : String} (h : Tidy (.literal text :: route)) :
    '/' ∉ text.toList :=
  (h.segments _ List.mem_cons_self).slash_notMem

end Tidy

end Route

end PathRouting
