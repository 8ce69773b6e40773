import PathRouting.Proofs.Route.Normal

/-!
# Written routes

A route that can be registered is read back from the pattern that it is written as, so
different routes have different patterns.

## Main results

* `Path.parts_append_join` — a path of parts without slashes is cut into these parts
* `Route.ofPattern?_write` — a well-formed route is read back from its pattern
* `Route.write_injective` — different well-formed routes have different patterns
-/

namespace PathRouting

namespace Path

/-- Text without a slash joins the first part of what follows it. -/
theorem parts_append {front text first : List Char} {more : List (List Char)}
    (hfront : '/' ∉ front) (htext : parts text = first :: more) :
    parts (front ++ text) = (front ++ first) :: more := by
  induction front with
  | nil => exact htext
  | cons c front ih =>
    rw [List.mem_cons, not_or] at hfront
    rw [List.cons_append, parts, if_neg (Ne.symm hfront.1), ih hfront.2, List.cons_append]

theorem parts_append_join {part : List Char} {more : List (List Char)}
    (hpart : '/' ∉ part) (hmore : ∀ next ∈ more, '/' ∉ next) :
    parts (part ++ join more) = part :: more := by
  induction more generalizing part with
  | nil =>
    have hend : parts (join []) = [[]] := rfl
    rw [parts_append hpart hend, List.append_nil]
  | cons next more ih =>
    obtain ⟨hnext, hmore⟩ := List.forall_mem_cons.mp hmore
    have hslash : parts (join (next :: more)) = [] :: next :: more := by
      rw [join_cons, parts, if_pos rfl, ih hnext hmore]
    rw [parts_append hpart hslash, List.append_nil]

end Path

namespace Segment

theorem write_param (name : String) : (param name).write = ":" ++ name := by
  simp [write]

theorem write_catchAll (name : String) : (catchAll name).write = "*" ++ name := by
  simp [write]

end Segment

namespace Route

@[simp] theorem write_nil : write [] = "" := rfl

theorem write_cons (segment : Segment) (route : Route) :
    write (segment :: route) = "/" ++ segment.write ++ write route := by
  simp [write, ← String.toList_inj]

/-- Segments that are read back from their own texts are read back from the pattern. -/
theorem ofPattern?_write_of_segments {route : Route} (hne : route ≠ [])
    (h : ∀ segment ∈ route, '/' ∉ segment.write.toList ∧ Segment.parse segment.write = segment) :
    ofPattern? route.write = some route := by
  cases route with
  | nil => exact absurd rfl hne
  | cons segment rest =>
    have hslash : ∀ other ∈ segment :: rest, '/' ∉ other.write.toList :=
      fun other hother => (h other hother).1
    obtain ⟨hfirst, hrest⟩ := List.forall_mem_cons.mp hslash
    have hparts : Path.parts (segment.write.toList ++
        Path.join (rest.map fun other => other.write.toList)) =
          (segment :: rest).map fun other => other.write.toList :=
      Path.parts_append_join hfirst (List.forall_mem_map.mpr hrest)
    have htext : (write (segment :: rest)).toList = '/' :: (segment.write.toList ++
        Path.join (rest.map fun other => other.write.toList)) :=
      String.toList_ofList
    have hread : ∀ other ∈ segment :: rest,
        Segment.parse (String.ofList other.write.toList) = other := by
      intro other hother
      rw [String.ofList_toList]
      exact (h other hother).2
    refine ofPattern?_eq_some_iff.mpr ⟨_, htext, ?_⟩
    rw [hparts, List.map_map]
    exact ((List.map_congr_left (g := id) hread).trans (List.map_id _)).symm

theorem ofPattern?_write {route : Route} (h : route.WellFormed) :
    ofPattern? route.write = some route :=
  ofPattern?_write_of_segments h.ne_nil fun segment hmem =>
    ⟨(h.segments segment hmem).slash_notMem, (h.segments segment hmem).parse_write⟩

theorem write_injective {p q : Route} (hp : p.WellFormed) (hq : q.WellFormed)
    (h : p.write = q.write) : p = q := by
  have hread := ofPattern?_write hp
  rw [h, ofPattern?_write hq] at hread
  exact (Option.some.inj hread).symm

end Route

end PathRouting
