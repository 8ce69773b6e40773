import PathRouting.Proofs.Registry.Reading
import PathRouting.Proofs.Trie.Entries

/-!
# Runs of registrations

A registry is what a list of requests makes of an empty one. A request leaves the registry
as it was, or it adds a route, or it replaces the payload of a route; this is said once,
and everything that holds after a run is derived from it.

## Main definitions

* `Registry.Step` — what one request can lead to
* `Registry.registerAll` — the registry after a list of requests
* `Registry.accepted` — the requests that succeed, in order
* `Registry.routeHistory` — their normal routes
* `Registry.Lawful` — what holds after every run

## Main results

* `Registry.step_register` — every request is one of these steps
* `Registry.lawful_registerAll` — after every run the trie has grown from the routes that
  were registered, they are well formed, and the size counts them
-/

namespace PathRouting

universe u

namespace Registry

variable {α : Type u}

/-! ### One request -/

/-- What a request can lead to. -/
inductive Step (registry : Registry α) (pattern : String) (payload : α) : Registration α → Prop
  /-- The pattern is not valid, and nothing happens. -/
  | invalid {e : RegistrationError} (hroute : route registry.policy pattern = .error e) :
    Step registry pattern payload ⟨registry, .error e, []⟩
  /-- The route is registered and has to keep its payload. -/
  | duplicate {r : Route} (hroute : route registry.policy pattern = .ok r)
    (hpresent : (registry.routes.get? r).isSome) (hpolicy : registry.policy.onDuplicate = .reject) :
    Step registry pattern payload
      ⟨registry, .error (.duplicatePattern pattern), truncation pattern⟩
  /-- The route is registered and takes the new payload. -/
  | replaced {r : Route} (hroute : route registry.policy pattern = .ok r)
    (hpresent : (registry.routes.get? r).isSome)
    (hpolicy : registry.policy.onDuplicate = .overwrite) :
    Step registry pattern payload
      ⟨{ registry with routes := registry.routes.update (fun _ => payload) r }, .ok (),
        truncation pattern ++ [.overwritten pattern, .inserted pattern]⟩
  /-- The route is new. -/
  | added {r : Route} (hroute : route registry.policy pattern = .ok r)
    (habsent : registry.routes.get? r = none) :
    Step registry pattern payload
      ⟨{ registry with
          routes := registry.routes.update (fun _ => payload) r, size := registry.size + 1 },
        .ok (), truncation pattern ++ [.inserted pattern]⟩

theorem step_register (registry : Registry α) (pattern : String) (payload : α) :
    registry.Step pattern payload (registry.register pattern payload) := by
  rw [register, read_eq]
  cases hroute : route registry.policy pattern with
  | error e => exact .invalid hroute
  | ok r =>
    cases hget : registry.routes.get? r with
    | none =>
      -- Both policies write the new payload where there is none yet.
      have hwrite : registry.routes.update (registry.policy.onDuplicate.resolve payload) r =
          registry.routes.update (fun _ => payload) r := by
        apply Trie.update_congr
        rw [hget]
        cases registry.policy.onDuplicate <;> rfl
      simp only [hget, hwrite]
      exact .added hroute hget
    | some present =>
      have hpresent : (registry.routes.get? r).isSome := by rw [hget]; rfl
      cases hpolicy : registry.policy.onDuplicate with
      | overwrite =>
        simp only [hget]
        exact .replaced hroute hpresent hpolicy
      | reject =>
        -- The descent meets no missing node, and writes back what it finds.
        have hsame : registry.routes.update (OnDuplicate.reject.resolve payload) r =
            registry.routes := Trie.update_eq_self hget rfl
        simp only [hget, hsame]
        exact .duplicate hroute hpresent hpolicy

theorem policy_register (registry : Registry α) (pattern : String) (payload : α) :
    (registry.register pattern payload).registry.policy = registry.policy := by
  have hstep := registry.step_register pattern payload
  generalize registry.register pattern payload = result at hstep ⊢
  cases hstep <;> rfl

/-- A valid pattern whose route is not registered is added. -/
theorem register_of_absent {registry : Registry α} {pattern : String} {r : Route}
    (hroute : route registry.policy pattern = .ok r) (habsent : registry.routes.get? r = none)
    (payload : α) :
    registry.register pattern payload =
      ⟨{ registry with
          routes := registry.routes.update (fun _ => payload) r, size := registry.size + 1 },
        .ok (), truncation pattern ++ [.inserted pattern]⟩ := by
  have hstep := registry.step_register pattern payload
  generalize registry.register pattern payload = result at hstep ⊢
  cases hstep with
  | invalid hinvalid => cases hroute.symm.trans hinvalid
  | duplicate hroute' hpresent =>
    obtain rfl := Except.ok.inj (hroute.symm.trans hroute')
    rw [habsent] at hpresent
    cases hpresent
  | replaced hroute' hpresent =>
    obtain rfl := Except.ok.inj (hroute.symm.trans hroute')
    rw [habsent] at hpresent
    cases hpresent
  | added hroute' =>
    obtain rfl := Except.ok.inj (hroute.symm.trans hroute')
    rfl

/-! ### A list of requests -/

/-- The registry after a list of requests, each a pattern with a payload. -/
def registerAll (registry : Registry α) (requests : List (String × α)) : Registry α :=
  requests.foldl
    (fun registry (pattern, payload) => (registry.register pattern payload).registry) registry

/-- The requests that succeed, in order. -/
def accepted (registry : Registry α) : List (String × α) → List (String × α)
  | [] => []
  | (pattern, payload) :: rest =>
    let result := registry.register pattern payload
    match result.outcome with
    | .ok () => (pattern, payload) :: accepted result.registry rest
    | .error _ => accepted result.registry rest

/-- The normal routes of the requests that succeed, in order. -/
def routeHistory (registry : Registry α) (requests : List (String × α)) : History Segment :=
  (registry.accepted requests).filterMap fun request => Route.normal? request.1

theorem registerAll_append_singleton (registry : Registry α) (requests : List (String × α))
    (pattern : String) (payload : α) :
    registry.registerAll (requests ++ [(pattern, payload)]) =
      ((registry.registerAll requests).register pattern payload).registry := by
  rw [registerAll, List.foldl_append]
  rfl

theorem policy_registerAll (registry : Registry α) (requests : List (String × α)) :
    (registry.registerAll requests).policy = registry.policy := by
  induction requests using List.reverseRecOn with
  | nil => rfl
  | append_singleton requests request ih =>
    obtain ⟨pattern, payload⟩ := request
    rw [registerAll_append_singleton, policy_register, ih]

theorem accepted_append (registry : Registry α) (requests more : List (String × α)) :
    registry.accepted (requests ++ more) =
      registry.accepted requests ++ (registry.registerAll requests).accepted more := by
  induction requests generalizing registry with
  | nil => rfl
  | cons request rest ih =>
    obtain ⟨pattern, payload⟩ := request
    have hall : registry.registerAll ((pattern, payload) :: rest) =
        (registry.register pattern payload).registry.registerAll rest := rfl
    rw [List.cons_append, accepted, accepted, hall]
    split
    · rw [ih, List.cons_append]
    · rw [ih]

theorem routeHistory_append (registry : Registry α) (requests more : List (String × α)) :
    registry.routeHistory (requests ++ more) =
      registry.routeHistory requests ++ (registry.registerAll requests).routeHistory more := by
  rw [routeHistory, accepted_append, List.filterMap_append]
  rfl

theorem accepted_singleton_of_ok {registry : Registry α} {pattern : String} {payload : α}
    (hok : (registry.register pattern payload).outcome = .ok ()) :
    registry.accepted [(pattern, payload)] = [(pattern, payload)] := by
  rw [accepted, hok, accepted]

theorem accepted_singleton_of_error {registry : Registry α} {pattern : String} {payload : α}
    {e : RegistrationError}
    (herror : (registry.register pattern payload).outcome = .error e) :
    registry.accepted [(pattern, payload)] = [] := by
  rw [accepted, herror, accepted]

theorem routeHistory_singleton_of_ok {registry : Registry α} {pattern : String} {payload : α}
    {r : Route} (hok : (registry.register pattern payload).outcome = .ok ())
    (hr : Route.normal? pattern = some r) :
    registry.routeHistory [(pattern, payload)] = [r] := by
  rw [routeHistory, accepted_singleton_of_ok hok, List.filterMap_cons, hr, List.filterMap_nil]

theorem routeHistory_singleton_of_error {registry : Registry α} {pattern : String}
    {payload : α} {e : RegistrationError}
    (herror : (registry.register pattern payload).outcome = .error e) :
    registry.routeHistory [(pattern, payload)] = [] := by
  rw [routeHistory, accepted_singleton_of_error herror]
  rfl

/-! ### What holds after every run -/

/-- A registry whose trie has grown from well-formed routes, and whose size is the number
of entries. -/
structure Lawful (registry : Registry α) (history : History Segment) : Prop where
  grown : registry.routes.GrownFrom history
  wellFormed : ∀ route ∈ history, Route.WellFormed route
  size_eq : registry.size = registry.routes.entries.length

theorem lawful_ofPolicy (policy : Policy) : (ofPolicy policy : Registry α).Lawful [] :=
  ⟨.empty, by simp, rfl⟩

/-- A route that is written keeps a registry lawful, if the size counts it. -/
theorem Lawful.update {registry : Registry α} {history : History Segment}
    (h : registry.Lawful history) {r : Route} (hr : r.WellFormed) (payload : α) {size : Nat}
    (hsize : size = if (registry.routes.get? r).isSome then registry.size else registry.size + 1) :
    Lawful ⟨registry.policy, registry.routes.update (fun _ => payload) r, size⟩
      (history ++ [r]) := by
  refine ⟨h.grown.update _ r, ?_, ?_⟩
  · intro route hroute
    rcases List.mem_append.mp hroute with hold | hnew
    · exact h.wellFormed route hold
    · obtain rfl := List.mem_singleton.mp hnew
      exact hr
  · rw [h.grown.length_entries_update, ← h.size_eq]
    exact hsize

theorem Lawful.register {registry : Registry α} {history : History Segment}
    (h : registry.Lawful history) (pattern : String) (payload : α) :
    (registry.register pattern payload).registry.Lawful
      (history ++ registry.routeHistory [(pattern, payload)]) := by
  generalize hresult : registry.register pattern payload = result
  have hstep : registry.Step pattern payload result := hresult ▸ registry.step_register _ _
  cases hstep with
  | invalid =>
    -- A request that fails adds nothing to the history.
    rw [routeHistory_singleton_of_error (by rw [hresult]), List.append_nil]
    exact h
  | duplicate =>
    rw [routeHistory_singleton_of_error (by rw [hresult]), List.append_nil]
    exact h
  | replaced hroute hpresent =>
    rw [routeHistory_singleton_of_ok (by rw [hresult]) (route_eq_ok_iff.mp hroute).1]
    exact h.update (wellFormed_of_route hroute) payload (if_pos hpresent).symm
  | added hroute habsent =>
    rw [routeHistory_singleton_of_ok (by rw [hresult]) (route_eq_ok_iff.mp hroute).1]
    exact h.update (wellFormed_of_route hroute) payload (by rw [habsent]; rfl)

/-- A request that succeeds adds its route to the history. -/
theorem Lawful.register_of_ok {registry : Registry α} {history : History Segment}
    (h : registry.Lawful history) {pattern : String} {payload : α} {r : Route}
    (hok : (registry.register pattern payload).outcome = .ok ())
    (hroute : Route.normal? pattern = some r) :
    (registry.register pattern payload).registry.Lawful (history ++ [r]) := by
  rw [← routeHistory_singleton_of_ok hok hroute]
  exact h.register pattern payload

theorem Lawful.tidy {registry : Registry α} {history : History Segment}
    (h : registry.Lawful history) : ∀ route ∈ history, Route.Tidy route :=
  fun route hroute => (h.wellFormed route hroute).toTidy

/-- A registry is empty just if nothing was written to its trie. -/
theorem Lawful.isEmpty_iff_eq_nil {registry : Registry α} {history : History Segment}
    (h : registry.Lawful history) : registry.isEmpty = true ↔ history = [] := by
  rw [isEmpty, beq_iff_eq, h.size_eq, List.length_eq_zero_iff, List.eq_nil_iff_forall_not_mem,
    List.eq_nil_iff_forall_not_mem]
  simp only [← h.grown.mem_map_fst_entries_iff]
  constructor
  · intro hnone route hroute
    obtain ⟨entry, hentry, -⟩ := List.mem_map.mp hroute
    exact hnone entry hentry
  · intro hnone entry hentry
    exact hnone entry.1 (List.mem_map_of_mem hentry)

/-- After every run the trie has grown from the routes that were registered. -/
theorem lawful_registerAll (policy : Policy) (requests : List (String × α)) :
    ((ofPolicy policy).registerAll requests).Lawful
      ((ofPolicy policy).routeHistory requests) := by
  -- The last request is one step from the registry that the others lead to.
  induction requests using List.reverseRecOn with
  | nil => exact lawful_ofPolicy policy
  | append_singleton requests request ih =>
    obtain ⟨pattern, payload⟩ := request
    rw [registerAll_append_singleton, routeHistory_append]
    exact ih.register pattern payload

end Registry

end PathRouting
