import PathRouting.Path
import PathRouting.Segment

/-!
# Routes

A route is a list of segments. The segments of a pattern form a route; what is registered
is that route up to its first catch-all, since a catch-all takes all of the path that is
left to it.

## Main definitions

* `Route.ofPattern?` — the segments of a pattern, which has to begin with a slash
* `Route.write` — the pattern of a route
* `Route.cut` / `Route.excess` — the segments up to the first catch-all, and those after it
* `Route.hasNameless` — a segment captures under an empty name

## Main results

* `Route.cut_append_excess` — the two halves of a route make it up
* `Route.write_of_ofPattern?` — a pattern is the written form of its route
-/

namespace PathRouting

/-- A list of segments, from the first part of a path on. -/
abbrev Route := List Segment

namespace Route

/-- The segments of a pattern, or `none` if it does not begin with a slash. -/
def ofPattern? (pattern : String) : Option Route :=
  match pattern.toList with
  | [] => none
  | c :: rest =>
    if c = '/' then some ((Path.parts rest).map fun part => Segment.parse (String.ofList part))
    else none

/-- The pattern of a route: each segment led by a slash. -/
def write (route : Route) : String :=
  String.ofList (Path.join (route.map fun segment => segment.write.toList))

/-- The segments up to the first catch-all, which is included. -/
def cut : Route → Route
  | [] => []
  | .catchAll name :: _ => [.catchAll name]
  | segment :: rest => segment :: cut rest

/-- The segments after the first catch-all. -/
def excess : Route → Route
  | [] => []
  | .catchAll _ :: rest => rest
  | _ :: rest => excess rest

/-- Whether some segment captures under an empty name. -/
def hasNameless (route : Route) : Bool :=
  route.any Segment.isNameless

/-- The cut keeps an initial stretch of a route, and the excess is what it leaves out. -/
theorem cut_append_excess (route : Route) : route.cut ++ route.excess = route := by
  fun_induction cut route <;> simp_all [excess]

/-- Nothing of a pattern is lost in its segments. -/
theorem write_of_ofPattern? {pattern : String} {route : Route}
    (h : ofPattern? pattern = some route) : route.write = pattern := by
  unfold ofPattern? at h
  split at h
  · simp at h
  · split at h
    · rename_i c rest hp hc
      obtain rfl := Option.some.inj h
      rw [write, ← String.toList_inj, hp, hc, String.toList_ofList, ← Path.join_parts rest]
      simp [Function.comp_def, Segment.write_parse]
    · simp at h

end Route

end PathRouting
