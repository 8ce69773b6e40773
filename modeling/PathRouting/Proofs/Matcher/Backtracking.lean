import PathRouting.Proofs.Matcher.Ways
import PathRouting.Proofs.Text.Decoding

/-!
# Backtracking leaves no trace

A walk through any matcher, whether it was compiled or written down by hand, and with
whatever trail it begins, does what its first way says. If there is no way, the trail comes
back as it was. Otherwise the values of the way join the trail behind those that are there,
each name once and none that has a value, and every capture that does not decode is
reported, whether or not its value is kept.

## Main definitions

* `Matcher.Way.values` — the decoded captures of a way, the innermost of each name
* `Matcher.Way.notices` — what the captures of a way report

## Main results

* `Matcher.Trail.captures_keepAll_eq`, `Matcher.Trail.notices_keepAll` — the trail after a
  way, from any trail before it
* `Matcher.find_eq_first_way` — a lookup, and a walk from any place with any trail, by the
  first way
-/

namespace PathRouting

universe u

namespace Matcher

variable {α : Type u}

namespace Way

/-- The decoded captures of a way from the innermost on, the first of each name. -/
def values (way : Way α) : List (String × String) :=
  Dict.firstOfEach (way.captures.map decoded).reverse

/-- What the captures of a way report, from the innermost on: those whose bytes are not UTF-8
once decoded. -/
def notices (way : Way α) : List Notice :=
  way.captures.reverse.filterMap fun capture => CapturedValue.keptRaw? capture.2

end Way

namespace Trail

/-- The captures of a way join those that are there, unless their name has a value. -/
theorem captures_keepAll_eq (captures : List (String × String)) (trail : Trail) :
    (trail.keepAll captures).captures.entries =
      trail.captures.entries ++ (Dict.firstOfEach (captures.map decoded).reverse).filter
        fun value => !trail.captures.contains value.1 := by
  induction captures with
  | nil => exact (List.append_nil _).symm
  | cons capture rest ih =>
    obtain ⟨name, raw⟩ := capture
    have hkeep : (trail.keepAll ((name, raw) :: rest)).captures.entries =
        Dict.insertIfNew name (CapturedValue.decode raw).text
          (trail.keepAll rest).captures.entries := rfl
    have hdecoded : ((name, raw) :: rest).map decoded =
        (name, (CapturedValue.decode raw).text) :: rest.map decoded := rfl
    rw [hkeep, ih, hdecoded, List.reverse_cons, Dict.firstOfEach_append_singleton]
    exact Dict.insertIfNew_append_filter _ _ _ _

theorem notices_keepAll (captures : List (String × String)) (trail : Trail) :
    (trail.keepAll captures).notices =
      trail.notices ++ captures.reverse.filterMap fun capture =>
        CapturedValue.keptRaw? capture.2 := by
  induction captures with
  | nil => exact (List.append_nil _).symm
  | cons capture rest ih =>
    obtain ⟨name, raw⟩ := capture
    have hkeep : (trail.keepAll ((name, raw) :: rest)).notices =
        (trail.keepAll rest).notices ++ (CapturedValue.decode raw).notices := rfl
    rw [hkeep, ih, CapturedValue.notices_decode, List.reverse_cons, List.filterMap_append,
      List.append_assoc]
    cases hraw : CapturedValue.keptRaw? raw <;> simp [hraw]

/-- The trail after a way has the values of the way under new names, and its notices. -/
theorem keepAll_eq (way : Way α) (trail : Trail) :
    trail.keepAll way.captures =
      ⟨⟨trail.captures.entries ++
          way.values.filter fun value => !trail.captures.contains value.1⟩,
        trail.notices ++ way.notices⟩ := by
  rw [Way.values, ← captures_keepAll_eq, Way.notices, ← notices_keepAll]

/-- A trail that was empty has all the values of the way. -/
theorem keepAll_empty (way : Way α) :
    empty.keepAll way.captures = ⟨⟨way.values⟩, way.notices⟩ := by
  have hnew : (way.values.filter fun value => !empty.captures.contains value.1) = way.values :=
    List.filter_eq_self.mpr fun _ _ => rfl
  rw [keepAll_eq, hnew]
  rfl

end Trail

/-- A matcher finds nothing along a path just if it has no way, and then it reports nothing
either. Otherwise a lookup gives the payload of the first way, its decoded captures from the
innermost on with the first of each name, and a notice for each capture that does not
decode. From any place and with any trail, a walk that fails leaves the trail as it was, and
one that succeeds adds the values under new names and the notices of the first way. -/
theorem find_eq_first_way (m : Matcher α) (path : String) :
    (m.lookup path = none ↔ m.ways path.toList = []) ∧
      (m.lookupLogged path =
        match m.ways path.toList with
        | [] => (none, [])
        | way :: _ => (some ⟨way.payload, ⟨way.values⟩⟩, way.notices)) ∧
      ∀ (rest : List Char) (trail : Trail),
        m.find rest trail =
          match m.ways rest with
          | [] => (none, trail)
          | way :: _ =>
            (some way.payload,
              ⟨⟨trail.captures.entries ++
                  way.values.filter fun value => !trail.captures.contains value.1⟩,
                trail.notices ++ way.notices⟩) := by
  have hfind : ∀ (rest : List Char) (trail : Trail),
      m.find rest trail = trail.follow (m.ways rest).head? := m.find_eq
  refine ⟨?_, ?_, ?_⟩
  · rw [lookup_eq, Option.map_eq_none_iff, List.head?_eq_none_iff]
  · rw [lookupLogged, hfind]
    cases m.ways path.toList with
    | nil => rfl
    | cons way others =>
      rw [List.head?_cons, Trail.follow, Trail.keepAll_empty]
      rfl
  · intro rest trail
    rw [hfind]
    cases m.ways rest with
    | nil => rfl
    | cons way others =>
      exact congrArg (Prod.mk (some way.payload)) (trail.keepAll_eq way)

/-- The first member captures and then fails. The second captures one name twice: the inner
value counts, and the outer one is reported, for it does not decode. -/
example :
    (choice [.wild "a" (.leaf none),
        .wild "a" (.literal "/" 1 (.wild "a" (.leaf (some 7))))]).lookupLogged "%FF/x" =
      (some ⟨7, ⟨[("a", "x")]⟩⟩, [.keptRaw "%FF" ⟨0, some 1⟩]) := by
  decide +kernel

end Matcher

end PathRouting
