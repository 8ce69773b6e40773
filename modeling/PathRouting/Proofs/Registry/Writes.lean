import PathRouting.Proofs.Registry.Contents

/-!
# What a run writes

The requests that succeed are writes to a dictionary of routes, and what a registry holds
after a run is this dictionary: every route that was registered, with the payload of its
last registration. Where the routes are valid and differ, every request succeeds.

## Main definitions

* `Registry.writes` — the normal routes of the requests that succeed, with their payloads

## Main results

* `Registry.contents_perm_ofList` — the contents after a run are what it wrote
* `Registry.accepted_eq_self` — valid requests for different routes all succeed
* `Registry.get?_registerAll_iff` — hence the registry holds what each of them writes
-/

namespace PathRouting.Registry

universe u

variable {α : Type u}

/-- The normal route of a request, with its payload. -/
def write? (request : String × α) : Option (Route × α) :=
  (Route.normal? request.1).map (·, request.2)

/-- The normal routes of the requests that succeed, with their payloads, in order. -/
def writes (registry : Registry α) (requests : List (String × α)) : List (Route × α) :=
  (registry.accepted requests).filterMap write?

theorem writes_append (registry : Registry α) (requests more : List (String × α)) :
    registry.writes (requests ++ more) =
      registry.writes requests ++ (registry.registerAll requests).writes more := by
  rw [writes, accepted_append, List.filterMap_append]
  rfl

theorem Lawful.nodup_contents {registry : Registry α} {history : History Segment}
    (h : registry.Lawful history) : (registry.contents.map Prod.fst).Nodup :=
  h.grown.nodup_map_fst_entries

theorem Lawful.mem_contents_iff {registry : Registry α} {history : History Segment}
    (h : registry.Lawful history) {route : Route} {a : α} :
    (route, a) ∈ registry.contents ↔ registry.contents.lookup route = some a :=
  (Dict.lookup_eq_some_iff_mem h.nodup_contents).symm

/-- A registry holds the last payload that was written for each route. -/
theorem mem_contents_registerAll_iff {policy : Policy} {requests : List (String × α)}
    {route : Route} {a : α} :
    (route, a) ∈ ((ofPolicy policy).registerAll requests).contents ↔
      (route, a) ∈ Dict.ofList ((ofPolicy policy).writes requests) := by
  induction requests using List.reverseRecOn with
  | nil => rfl
  | append_singleton requests request ih =>
    obtain ⟨pattern, payload⟩ := request
    rw [registerAll_append_singleton, writes_append]
    have hlawful := lawful_registerAll policy requests
    generalize (ofPolicy policy).registerAll requests = registry at ih hlawful ⊢
    cases houtcome : (registry.register pattern payload).outcome with
    | ok _ =>
      obtain ⟨r, hr, hlookup⟩ := hlawful.lookup_contents_register houtcome
      have hwrites : registry.writes [(pattern, payload)] = [(r, payload)] := by
        rw [writes, accepted_singleton_of_ok houtcome, List.filterMap_cons, write?, hr]
        rfl
      rw [hwrites, Dict.mem_ofList_append_singleton, ← ih,
        (hlawful.register pattern payload).mem_contents_iff, hlookup, hlawful.mem_contents_iff]
      split
      · rw [Option.some.injEq, eq_comm]
      · rfl
    | error e =>
      have hwrites : registry.writes [(pattern, payload)] = [] := by
        rw [writes, accepted_singleton_of_error houtcome]
        rfl
      rw [registry_register_of_error houtcome, hwrites, List.append_nil, ih]

/-- The contents after a run are, in some order, the dictionary of what it wrote. -/
theorem contents_perm_ofList (policy : Policy) (requests : List (String × α)) :
    ((ofPolicy policy).registerAll requests).contents.Perm
      (Dict.ofList ((ofPolicy policy).writes requests)) := by
  have hcontents := (lawful_registerAll policy requests).nodup_contents
  have hwrites := Dict.nodup_ofList ((ofPolicy policy).writes requests)
  apply (List.perm_ext_iff_of_nodup (.of_map _ hcontents) (.of_map _ hwrites)).mpr
  rintro ⟨route, a⟩
  exact mem_contents_registerAll_iff

/-! ### Runs in which every request succeeds -/

/-- Valid requests for different routes, none of which is registered, all succeed. -/
theorem accepted_eq_self {registry : Registry α} {requests : List (String × α)}
    (hfresh : ∀ request ∈ requests, ∃ r,
      route registry.policy request.1 = .ok r ∧ registry.routes.get? r = none)
    (hdistinct : (requests.map fun request => Route.normal? request.1).Nodup) :
    registry.accepted requests = requests := by
  induction requests generalizing registry with
  | nil => rfl
  | cons request rest ih =>
    obtain ⟨pattern, payload⟩ := request
    obtain ⟨hnew, hrest⟩ := List.nodup_cons.mp hdistinct
    obtain ⟨r, hroute, habsent⟩ := hfresh (pattern, payload) List.mem_cons_self
    have hadded := register_of_absent hroute habsent payload
    rw [accepted, hadded]
    refine congrArg ((pattern, payload) :: ·) (ih ?_ hrest)
    intro request hrequest
    obtain ⟨r', hroute', habsent'⟩ := hfresh request (List.mem_cons_of_mem _ hrequest)
    refine ⟨r', hroute', ?_⟩
    -- The first request has written another route.
    have hne : r' ≠ r := by
      rintro rfl
      have hsame : Route.normal? request.1 = Route.normal? pattern := by
        rw [(route_eq_ok_iff.mp hroute).1, (route_eq_ok_iff.mp hroute').1]
      exact hnew (List.mem_map.mpr ⟨request, hrequest, hsame⟩)
    rw [Trie.get?_update, if_neg hne, habsent']

theorem accepted_ofPolicy_eq_self {policy : Policy} {requests : List (String × α)}
    (hvalid : ∀ request ∈ requests, ∃ r, route policy request.1 = .ok r)
    (hdistinct : (requests.map fun request => Route.normal? request.1).Nodup) :
    (ofPolicy policy : Registry α).accepted requests = requests := by
  refine accepted_eq_self ?_ hdistinct
  intro request hrequest
  obtain ⟨r, hr⟩ := hvalid request hrequest
  exact ⟨r, hr, Trie.get?_empty r⟩

theorem nodup_keys_filterMap_write? {requests : List (String × α)}
    (hdistinct : (requests.map fun request => Route.normal? request.1).Nodup) :
    ((requests.filterMap write?).map Prod.fst).Nodup := by
  have hne : requests.Pairwise fun a b => Route.normal? a.1 ≠ Route.normal? b.1 :=
    List.pairwise_map.mp hdistinct
  refine List.pairwise_map.mpr (List.pairwise_filterMap.mpr (hne.imp ?_))
  intro request request' hne write hwrite write' hwrite' heq
  obtain ⟨r, hr, rfl⟩ := Option.map_eq_some_iff.mp hwrite
  obtain ⟨r', hr', rfl⟩ := Option.map_eq_some_iff.mp hwrite'
  obtain rfl : r = r' := heq
  exact hne (hr.trans hr'.symm)

/-- After valid requests for different routes a registry holds what each of them writes. -/
theorem get?_registerAll_iff {policy : Policy} {requests : List (String × α)}
    (hvalid : ∀ request ∈ requests, ∃ r, route policy request.1 = .ok r)
    (hdistinct : (requests.map fun request => Route.normal? request.1).Nodup)
    {r : Route} {a : α} :
    ((ofPolicy policy).registerAll requests).routes.get? r = some a ↔
      ∃ request ∈ requests, write? request = some (r, a) := by
  have hlawful := lawful_registerAll policy requests
  rw [← hlawful.lookup_contents, ← hlawful.mem_contents_iff, mem_contents_registerAll_iff,
    writes, accepted_ofPolicy_eq_self hvalid hdistinct,
    Dict.ofList_eq_self (nodup_keys_filterMap_write? hdistinct), List.mem_filterMap]

end PathRouting.Registry
