import PathRouting.Proofs.Registry.Runs

/-!
# Registries as finite maps

What a registry holds can be read off its trie: the routes that have a payload. They form a
finite map, and a registration is an update of this map at one key, the normal route of the
pattern. A refused registration is no update.

## Main definitions

* `Registry.contents` — the registered routes with their payloads

## Main results

* `Registry.Lawful.lookup_contents_register` — the map after a request that succeeds
* `Registry.exists_warnsOverwritten_iff` — a replaced payload is always reported, and
  nothing else is reported as one
* `Registry.register_updates_contents` — both, with the size, after every run
-/

namespace PathRouting

open Text

universe u

/-! ### Reports about a replaced payload -/

namespace Notice

/-- Texts differ if their beginnings do. -/
theorem append_ne_append {a b : String} {n : Nat} (ha : n ≤ a.toList.length)
    (hb : n ≤ b.toList.length) (hne : a.toList.take n ≠ b.toList.take n) (x y : String) :
    a ++ x ≠ b ++ y := by
  rw [ne_eq, ← String.toList_inj, String.toList_append, String.toList_append]
  intro h
  have hfront := congrArg (List.take n) h
  rw [List.take_append_of_le_length ha, List.take_append_of_le_length hb] at hfront
  exact hne hfront

theorem message_truncated_ne (pattern other : String) :
    (truncated pattern).message ≠ "the payload of " ++ quote other ++ " is overwritten" := by
  change "the segments after the catch-all parameter are ignored: " ++ quote pattern ≠ _
  rw [String.append_assoc]
  exact append_ne_append (n := 5) (by decide) (by decide) (by decide) _ _

/-- Whether a notice warns that the payload of a pattern is replaced. -/
def WarnsOverwritten (pattern : String) (notice : Notice) : Prop :=
  notice.level = .warn ∧
    notice.message = "the payload of " ++ quote pattern ++ " is overwritten"

end Notice

namespace Registry

variable {α : Type u}

/-- The registered routes with their payloads. -/
def contents (registry : Registry α) : List (Route × α) :=
  registry.routes.entries

section Lawful

variable {registry : Registry α} {history : History Segment}

theorem Lawful.lookup_contents (h : registry.Lawful history) (key : Route) :
    registry.contents.lookup key = registry.routes.get? key :=
  h.grown.lookup_entries key

theorem Lawful.mem_keys_iff (h : registry.Lawful history) {key : Route} :
    key ∈ registry.contents.map Prod.fst ↔ (registry.routes.get? key).isSome := by
  rw [← Dict.isSome_lookup_iff, h.lookup_contents]

theorem Lawful.isEmpty_iff (h : registry.Lawful history) :
    registry.isEmpty = true ↔ registry.contents = [] := by
  rw [isEmpty, beq_iff_eq, h.size_eq, List.length_eq_zero_iff, contents]

/-- A request that succeeds sets the payload of its normal route and changes no other. -/
theorem Lawful.lookup_contents_register (h : registry.Lawful history) {pattern : String}
    {payload : α} (hok : (registry.register pattern payload).outcome = .ok ()) :
    ∃ r, Route.normal? pattern = some r ∧ ∀ key,
      (registry.register pattern payload).registry.contents.lookup key =
        if key = r then some payload else registry.contents.lookup key := by
  have hafter := h.register pattern payload
  have hstep := registry.step_register pattern payload
  generalize registry.register pattern payload = result at hok hafter hstep
  have hwrite : ∀ r : Route, ∀ size : Nat,
      result.registry = ⟨registry.policy, registry.routes.update (fun _ => payload) r, size⟩ →
      ∀ key, result.registry.contents.lookup key =
        if key = r then some payload else registry.contents.lookup key := by
    intro r size hresult key
    rw [hafter.lookup_contents, h.lookup_contents, hresult, Trie.get?_update]
  -- Only two of the steps succeed, and both write the payload.
  cases hstep with
  | invalid => cases hok
  | duplicate => cases hok
  | @replaced r hroute => exact ⟨r, (route_eq_ok_iff.mp hroute).1, hwrite r _ rfl⟩
  | @added r hroute => exact ⟨r, (route_eq_ok_iff.mp hroute).1, hwrite r _ rfl⟩

/-- What is under a route afterwards, if it is the one that the request writes or another. -/
theorem Lawful.lookup_contents_of_ok (h : registry.Lawful history) {pattern : String}
    {payload : α} {r : Route} (hok : (registry.register pattern payload).outcome = .ok ())
    (hroute : Route.normal? pattern = some r) (key : Route) :
    (registry.register pattern payload).registry.contents.lookup key =
      if key = r then some payload else registry.contents.lookup key := by
  obtain ⟨r', hr', hlookup⟩ := h.lookup_contents_register hok
  obtain rfl := Option.some.inj (hroute.symm.trans hr')
  exact hlookup key

end Lawful

theorem registry_register_of_error {registry : Registry α} {pattern : String} {payload : α}
    {e : RegistrationError}
    (herror : (registry.register pattern payload).outcome = .error e) :
    (registry.register pattern payload).registry = registry := by
  have hstep := registry.step_register pattern payload
  generalize registry.register pattern payload = result at herror hstep
  cases hstep with
  | invalid => rfl
  | duplicate => rfl
  | replaced => cases herror
  | added => cases herror

theorem not_warnsOverwritten_truncation {pattern other : String} {notice : Notice}
    (h : notice ∈ truncation pattern) : ¬ notice.WarnsOverwritten other := by
  rw [truncation] at h
  split at h
  · obtain rfl := List.mem_singleton.mp h
    intro hwarns
    exact Notice.message_truncated_ne pattern other hwarns.2
  · simp at h

theorem not_warnsOverwritten_inserted (pattern other : String) :
    ¬ (Notice.inserted pattern).WarnsOverwritten other := by
  rintro ⟨hlevel, -⟩
  cases hlevel

/-- A request warns about a replaced payload just if it succeeds with a route that is
registered already. -/
theorem exists_warnsOverwritten_iff (registry : Registry α) (pattern : String) (payload : α) :
    (∃ notice ∈ (registry.register pattern payload).notices,
        notice.WarnsOverwritten pattern) ↔
      (registry.register pattern payload).outcome = .ok () ∧
        ∃ r, Route.normal? pattern = some r ∧ (registry.routes.get? r).isSome := by
  have hstep := registry.step_register pattern payload
  generalize registry.register pattern payload = result at hstep
  cases hstep with
  | invalid => simp
  | duplicate =>
    constructor
    · rintro ⟨notice, hmem, hwarns⟩
      exact absurd hwarns (not_warnsOverwritten_truncation hmem)
    · rintro ⟨hok, -⟩
      cases hok
  | @replaced r hroute hpresent =>
    constructor
    · intro
      exact ⟨rfl, r, (route_eq_ok_iff.mp hroute).1, hpresent⟩
    · intro
      exact ⟨.overwritten pattern, by simp, rfl, rfl⟩
  | @added r hroute habsent =>
    constructor
    · -- Neither of the two notices of a new route is such a warning.
      rintro ⟨notice, hmem, hwarns⟩
      rcases List.mem_append.mp hmem with hmem | hmem
      · exact absurd hwarns (not_warnsOverwritten_truncation hmem)
      · obtain rfl := List.mem_singleton.mp hmem
        exact absurd hwarns (not_warnsOverwritten_inserted pattern pattern)
    · rintro ⟨-, r', hr', hpresent⟩
      obtain rfl := Option.some.inj ((route_eq_ok_iff.mp hroute).1.symm.trans hr')
      rw [habsent] at hpresent
      cases hpresent

/-- After every run the contents of a registry are a finite map and its size is the number
of keys. The next request sets the payload of its normal route and changes no other, or it
is refused and changes nothing; it warns about a replaced payload just if it succeeds with
a key that is there. -/
theorem register_updates_contents (policy : Policy) (requests : List (String × α))
    (pattern : String) (payload : α) :
    let before := (ofPolicy policy).registerAll requests
    let result := before.register pattern payload
    (before.contents.map Prod.fst).Nodup ∧
      before.size = before.contents.length ∧
      (before.isEmpty = true ↔ before.contents = []) ∧
      (match result.outcome with
        | .ok () => ∃ r, Route.normal? pattern = some r ∧ ∀ key,
            result.registry.contents.lookup key =
              if key = r then some payload else before.contents.lookup key
        | .error _ => result.registry.contents = before.contents) ∧
      ((∃ notice ∈ result.notices, notice.level = .warn ∧
          notice.message = "the payload of " ++ quote pattern ++ " is overwritten") ↔
        result.outcome = .ok () ∧
          ∃ r ∈ before.contents.map Prod.fst, Route.normal? pattern = some r) := by
  intro before result
  have hlawful : before.Lawful _ := lawful_registerAll policy requests
  refine ⟨hlawful.grown.nodup_map_fst_entries, hlawful.size_eq, hlawful.isEmpty_iff, ?_, ?_⟩
  · -- The contents afterwards, by the outcome.
    split
    · rename_i hok
      exact hlawful.lookup_contents_register hok
    · rename_i herror
      rw [registry_register_of_error herror]
  · -- A key of the contents is a route that has a payload.
    refine (before.exists_warnsOverwritten_iff pattern payload).trans ?_
    apply and_congr_right
    intro _
    apply exists_congr
    intro r
    rw [hlawful.mem_keys_iff, and_comm]

/-- Two patterns that differ behind a catch-all have one key, so the second payload replaces
the first, with a warning. -/
example :
    let before := (ofPolicy {}).registerAll [("/a/*x", 1)]
    let result := before.register "/a/*x/b" 2
    before.contents = [([.literal "a", .catchAll "x"], 1)] ∧
      result.registry.contents = [([.literal "a", .catchAll "x"], 2)] ∧
      result.registry.size = 1 ∧
      result.notices = [.truncated "/a/*x/b", .overwritten "/a/*x/b", .inserted "/a/*x/b"] :=
  ⟨rfl, rfl, rfl, rfl⟩

end Registry

end PathRouting
