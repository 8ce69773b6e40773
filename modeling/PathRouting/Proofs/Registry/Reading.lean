import PathRouting.Proofs.Route.Normal
import PathRouting.Registry

/-!
# What a pattern is read as

A pattern can break several rules at once, and it is told about one of them. Its segments are
read in one pass that stops at the first thing that settles the matter: a capture without a
name, or a catch-all, behind which one look decides whether the pattern goes on. What stands
further behind is never read. What the pass comes to can be said without it, from the two halves
of the segments: those up to the first catch-all, and those after it.

## Main definitions

* `Registry.route` — the route that a pattern stands for, or why it is invalid
* `Registry.truncation` — the notice that a pattern goes on after its catch-all

## Main results

* `Registry.scan_eq` — what the pass comes to, from the two halves of the segments
* `Registry.read_eq` — it finds the route of a pattern, and reports just if it cuts one
* `Registry.route_eq_ok_iff` — which patterns stand for a route, and for which
-/

namespace PathRouting

namespace Registry

/-! ### Routes of patterns -/

/-- The route that a pattern stands for under a policy: its segments up to the first
catch-all. Each of them that captures has to have a name; segments after the catch-all are
looked at only to refuse them under a strict policy. -/
def route (policy : Policy) (pattern : String) : Except RegistrationError Route :=
  match Route.ofPattern? pattern with
  | none => .error (.missingLeadingSlash pattern)
  | some segments =>
    if segments.cut.hasNameless then .error (.emptyParamName pattern)
    else if policy.strictCatchAll && !segments.excess.isEmpty then
      .error (.catchAllNotLast pattern)
    else .ok segments.cut

/-- Whether a pattern goes on after its first catch-all. -/
def hasExcess (pattern : String) : Bool :=
  match Route.ofPattern? pattern with
  | none => false
  | some segments => !segments.excess.isEmpty

/-- The notice that a pattern goes on after its catch-all. -/
def truncation (pattern : String) : List Notice :=
  if hasExcess pattern then [.truncated pattern] else []

/-- What a pattern that can be registered is like, and its route. -/
theorem route_eq_ok_iff {policy : Policy} {pattern : String} {r : Route} :
    route policy pattern = .ok r ↔
      Route.normal? pattern = some r ∧ r.hasNameless = false ∧
        (policy.strictCatchAll && hasExcess pattern) = false := by
  rw [route, Route.normal?, hasExcess]
  cases Route.ofPattern? pattern with
  | none => simp
  | some segments =>
    simp only [Option.map_some, Option.some.injEq]
    cases hnameless : segments.cut.hasNameless with
    | true =>
      rw [if_pos rfl]
      constructor
      · intro h
        simp at h
      · rintro ⟨rfl, hnamed, -⟩
        simp [hnameless] at hnamed
    | false =>
      rw [if_neg Bool.false_ne_true]
      cases policy.strictCatchAll && !segments.excess.isEmpty with
      | true => simp
      | false =>
        rw [if_neg Bool.false_ne_true, Except.ok.injEq]
        constructor
        · rintro rfl
          exact ⟨rfl, hnameless, rfl⟩
        · intro h
          exact h.1

theorem wellFormed_of_route {policy : Policy} {pattern : String} {r : Route}
    (h : route policy pattern = .ok r) : r.WellFormed := by
  obtain ⟨hnormal, hnamed, -⟩ := route_eq_ok_iff.mp h
  exact Route.wellFormed_of_normal? hnormal hnamed

theorem pattern_of_route_eq_error {policy : Policy} {pattern : String} {e : RegistrationError}
    (h : route policy pattern = .error e) : e.pattern = pattern := by
  rw [route] at h
  split at h
  · obtain rfl := Except.error.inj h
    rfl
  · split at h
    · obtain rfl := Except.error.inj h
      rfl
    · split at h
      · obtain rfl := Except.error.inj h
        rfl
      · cases h

/-! ### One pass over the segments -/

/-- The pass finds a nameless capture only up to the first catch-all, and looks behind that
one only to see whether anything is there. -/
theorem scan_eq (policy : Policy) (pattern : String) (kept segments : Route) :
    scan policy pattern kept segments =
      if segments.cut.hasNameless then (.error (.emptyParamName pattern), [])
      else if segments.excess.isEmpty then (.ok (kept ++ segments.cut), [])
      else if policy.strictCatchAll then (.error (.catchAllNotLast pattern), [])
      else (.ok (kept ++ segments.cut), [.truncated pattern]) := by
  -- The induction follows the pass, with what it has kept so far.
  induction segments generalizing kept with
  | nil => simp [scan, Route.cut, Route.excess, Route.hasNameless]
  | cons segment rest ih =>
    rw [scan]
    cases hkind : segment.isCatchAll with
    | true =>
      obtain ⟨name, rfl⟩ : ∃ name, segment = .catchAll name := by
        cases segment with
        | catchAll name => exact ⟨name, rfl⟩
        | literal text => cases hkind
        | param name => cases hkind
      rw [Route.cut, Route.excess, Route.hasNameless_cons, if_pos rfl]
      simp [Route.hasNameless]
    | false =>
      rw [Route.cut_cons_of_not_catchAll hkind, Route.excess_cons_of_not_catchAll hkind,
        Route.hasNameless_cons, ih, if_neg Bool.false_ne_true, List.append_assoc]
      cases segment.isNameless <;> rfl

theorem read_of_ofPattern? (policy : Policy) {pattern : String} {segments : Route}
    (h : Route.ofPattern? pattern = some segments) :
    read policy pattern =
      if segments.cut.hasNameless then (.error (.emptyParamName pattern), [])
      else if segments.excess.isEmpty then (.ok segments.cut, [])
      else if policy.strictCatchAll then (.error (.catchAllNotLast pattern), [])
      else (.ok segments.cut, [.truncated pattern]) := by
  rw [read, h]
  exact scan_eq policy pattern [] segments

/-- The pass finds the route of the pattern, or the error, and reports what is left out of a
route. -/
theorem read_eq (policy : Policy) (pattern : String) :
    read policy pattern =
      (route policy pattern,
        match route policy pattern with
        | .ok _ => truncation pattern
        | .error _ => []) := by
  rw [route, truncation, hasExcess]
  cases hsegments : Route.ofPattern? pattern with
  | none => rw [read, hsegments]
  | some segments =>
    rw [read_of_ofPattern? policy hsegments]
    by_cases hnameless : segments.cut.hasNameless
    · simp [hnameless]
    · by_cases hexcess : segments.excess = []
      · simp [hnameless, hexcess]
      · cases policy.strictCatchAll <;> simp [hnameless, hexcess]

end Registry

end PathRouting
