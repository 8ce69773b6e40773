import PathRouting.Proofs.Registry.Contents

/-!
# The outcome of a request

A request fails as the pass over its pattern does. Only a pattern that passes is looked up
among those that are registered, so a pattern that breaks several rules is told about the first
of them.

## Main definitions

* `Notice.WarnsTruncated` — the warning that a pattern goes on after its catch-all

## Main results

* `Registry.outcome_register_eq` — a request is the pass and then the search for a duplicate
* `Registry.outcome_register_iff` — which outcome a request has, after every run
-/

namespace PathRouting

open Text

universe u

/-! ### Reports about a pattern that is cut -/

namespace Notice

/-- Whether a notice warns that a pattern goes on after its catch-all. -/
def WarnsTruncated (pattern : String) (notice : Notice) : Prop :=
  notice.level = .warn ∧
    notice.message = "the segments after the catch-all parameter are ignored: " ++ quote pattern

theorem warnsTruncated_truncated (pattern : String) :
    (truncated pattern).WarnsTruncated pattern :=
  ⟨rfl, rfl⟩

theorem not_warnsTruncated_inserted (pattern other : String) :
    ¬ (inserted pattern).WarnsTruncated other := by
  rintro ⟨hlevel, -⟩
  cases hlevel

theorem not_warnsTruncated_overwritten (pattern other : String) :
    ¬ (overwritten pattern).WarnsTruncated other := by
  rintro ⟨-, hmessage⟩
  exact message_truncated_ne other pattern hmessage.symm

end Notice

namespace Route

theorem exists_ofPattern?_eq_some {pattern : String} (h : pattern.toList.head? = some '/') :
    ∃ segments, ofPattern? pattern = some segments := by
  apply Option.ne_none_iff_exists'.mp
  rw [ne_eq, ofPattern?_eq_none_iff, not_not]
  exact h

/-- Segments are left out only behind a catch-all. -/
theorem getLast?_cut {route : Route} (h : route.excess ≠ []) :
    ∃ name, route.cut.getLast? = some (.catchAll name) := by
  fun_induction cut route with
  | case1 => exact absurd rfl h
  | case2 name rest => exact ⟨name, rfl⟩
  | case3 segment rest hne ih =>
    obtain ⟨name, hlast⟩ := ih (by simpa only [excess] using h)
    refine ⟨name, ?_⟩
    rw [List.getLast?_cons, hlast, Option.getD_some]

end Route

namespace Registry

variable {α : Type u}

/-! ### Requests -/

section Request

variable (registry : Registry α) (pattern : String) (payload : α)

/-- A request fails as the pass does. If the pass succeeds, only the search for a duplicate
is left. -/
theorem outcome_register_eq :
    (registry.register pattern payload).outcome =
      match (read registry.policy pattern).1 with
      | .error e => .error e
      | .ok r =>
        if registry.policy.onDuplicate = .reject ∧ (registry.routes.get? r).isSome then
          .error (.duplicatePattern pattern)
        else .ok () := by
  rw [read_eq]
  have hstep := registry.step_register pattern payload
  generalize registry.register pattern payload = result at hstep ⊢
  cases hstep with
  | invalid hroute => simp [hroute]
  | duplicate hroute hpresent hpolicy => simp [hroute, hpresent, hpolicy]
  | replaced hroute hpresent hpolicy => simp [hroute, hpolicy]
  | added hroute habsent => simp [hroute, habsent]

/-- Of what a request reports, only the first notice can warn that the pattern is cut. -/
theorem exists_warnsTruncated_truncation_append_iff (later : List Notice)
    (hlater : ∀ notice ∈ later, ¬ notice.WarnsTruncated pattern) :
    (∃ notice ∈ truncation pattern ++ later, notice.WarnsTruncated pattern) ↔
      .truncated pattern ∈ truncation pattern := by
  constructor
  · rintro ⟨notice, hmem, hwarns⟩
    rcases List.mem_append.mp hmem with hmem | hmem
    · rw [truncation] at hmem ⊢
      split at hmem
      · rename_i hexcess
        rw [if_pos hexcess]
        exact List.mem_singleton_self _
      · cases hmem
    · exact absurd hwarns (hlater notice hmem)
  · intro hmem
    exact ⟨_, List.mem_append_left _ hmem, Notice.warnsTruncated_truncated pattern⟩

/-- A request warns that the pattern is cut just if the pass does. -/
theorem exists_warnsTruncated_iff :
    (∃ notice ∈ (registry.register pattern payload).notices, notice.WarnsTruncated pattern) ↔
      .truncated pattern ∈ (read registry.policy pattern).2 := by
  rw [read_eq]
  have hstep := registry.step_register pattern payload
  generalize registry.register pattern payload = result at hstep ⊢
  cases hstep with
  | invalid hroute => simp [hroute]
  | duplicate hroute =>
    simp only [hroute]
    have hwarns := exists_warnsTruncated_truncation_append_iff pattern [] (by simp)
    rwa [List.append_nil] at hwarns
  | replaced hroute =>
    simp only [hroute]
    apply exists_warnsTruncated_truncation_append_iff
    simp [Notice.not_warnsTruncated_inserted, Notice.not_warnsTruncated_overwritten]
  | added hroute =>
    simp only [hroute]
    apply exists_warnsTruncated_truncation_append_iff
    simp [Notice.not_warnsTruncated_inserted]

theorem exists_warnsTruncated_iff_of_ofPattern? {segments : Route}
    (hsegments : Route.ofPattern? pattern = some segments) :
    (∃ notice ∈ (registry.register pattern payload).notices, notice.WarnsTruncated pattern) ↔
      segments.cut.hasNameless = false ∧ registry.policy.strictCatchAll = false ∧
        segments.excess ≠ [] := by
  rw [exists_warnsTruncated_iff, read_of_ofPattern? _ hsegments]
  by_cases hnameless : segments.cut.hasNameless
  · simp [hnameless]
  · by_cases hexcess : segments.excess = []
    · simp [hnameless, hexcess]
    · cases registry.policy.strictCatchAll <;> simp [hnameless, hexcess]

end Request

/-! ### Requests after a run -/

/-- A pattern without its leading slash is told so, whatever else it breaks. -/
theorem register_of_ofPattern?_eq_none (registry : Registry α) {pattern : String}
    (h : Route.ofPattern? pattern = none) (payload : α) :
    registry.register pattern payload =
      ⟨registry, .error (.missingLeadingSlash pattern), []⟩ := by
  rw [register, read, h]

theorem pattern_of_outcome_register {registry : Registry α} {pattern : String} {payload : α}
    {e : RegistrationError}
    (herror : (registry.register pattern payload).outcome = .error e) : e.pattern = pattern := by
  have hstep := registry.step_register pattern payload
  generalize registry.register pattern payload = result at herror hstep
  cases hstep with
  | invalid hroute =>
    obtain rfl := Except.error.inj herror
    exact pattern_of_route_eq_error hroute
  | duplicate =>
    obtain rfl := Except.error.inj herror
    rfl
  | replaced => cases herror
  | added => cases herror

/-- The rules that a pattern can break are looked at one after the other. -/
theorem Lawful.outcome_register {registry : Registry α} {history : History Segment}
    (h : registry.Lawful history) {pattern : String} {segments : Route}
    (hsegments : Route.ofPattern? pattern = some segments) (payload : α) :
    (registry.register pattern payload).outcome =
      if segments.cut.hasNameless then .error (.emptyParamName pattern)
      else if registry.policy.strictCatchAll = true ∧ segments.excess ≠ [] then
        .error (.catchAllNotLast pattern)
      else if registry.policy.onDuplicate = .reject ∧ segments.cut ∈ history then
        .error (.duplicatePattern pattern)
      else .ok () := by
  have hpresent : (registry.routes.get? segments.cut).isSome ↔ segments.cut ∈ history :=
    h.grown.isSome_get?_iff
  rw [outcome_register_eq, read_of_ofPattern? _ hsegments]
  by_cases hnameless : segments.cut.hasNameless
  · simp [hnameless]
  · by_cases hexcess : segments.excess = []
    · simp [hnameless, hexcess, hpresent]
    · cases registry.policy.strictCatchAll <;> simp [hnameless, hexcess, hpresent]

/-- A request succeeds or fails with one of four errors, which names the pattern. Which one
it is depends on the segments up to the first catch-all, on whether any follow, on the
policy and on the routes that are registered, and the first rule that is broken counts. A
request warns that the pattern is cut just if it comes to the search for a duplicate with
segments that are left out. -/
theorem outcome_register_iff (policy : Policy) (requests : List (String × α))
    (pattern : String) (payload : α) :
    let before := (ofPolicy policy).registerAll requests
    let result := before.register pattern payload
    (result.outcome = .error (.missingLeadingSlash pattern) ↔
      pattern.toList.head? ≠ some '/') ∧
    (pattern.toList.head? ≠ some '/' → result.notices = []) ∧
    (pattern.toList.head? = some '/' → ∃ segments, Route.ofPattern? pattern = some segments ∧
      let nameless := ∃ segment ∈ segments.cut, segment.name? = some ""
      let cuts := (∃ name, segments.cut.getLast? = some (.catchAll name)) ∧ segments.excess ≠ []
      let refused := policy.strictCatchAll = true ∧ cuts
      let present := segments.cut ∈ (ofPolicy policy : Registry α).routeHistory requests
      (result.outcome = .error (.emptyParamName pattern) ↔ nameless) ∧
      (result.outcome = .error (.catchAllNotLast pattern) ↔ ¬ nameless ∧ refused) ∧
      (result.outcome = .error (.duplicatePattern pattern) ↔
        ¬ nameless ∧ ¬ refused ∧ policy.onDuplicate = .reject ∧ present) ∧
      (result.outcome = .ok () ↔
        ¬ nameless ∧ ¬ refused ∧ ¬ (policy.onDuplicate = .reject ∧ present)) ∧
      ((∃ notice ∈ result.notices, notice.WarnsTruncated pattern) ↔
        ¬ nameless ∧ ¬ refused ∧ policy.strictCatchAll = false ∧ cuts)) ∧
    ∀ e, result.outcome = .error e → e.pattern = pattern := by
  intro before result
  have hlawful : before.Lawful _ := lawful_registerAll policy requests
  have hpolicy : before.policy = policy := policy_registerAll _ requests
  rw [← Route.ofPattern?_eq_none_iff]
  refine ⟨⟨?_, ?_⟩, ?_, ?_, fun e => pattern_of_outcome_register⟩
  · intro herror
    by_contra hsome
    obtain ⟨segments, hsegments⟩ := Option.ne_none_iff_exists'.mp hsome
    rw [hlawful.outcome_register hsegments payload] at herror
    split_ifs at herror <;> cases herror
  · intro hnone
    exact congrArg Registration.outcome (before.register_of_ofPattern?_eq_none hnone payload)
  · intro hnone
    exact congrArg Registration.notices (before.register_of_ofPattern?_eq_none hnone payload)
  · intro hslash
    obtain ⟨segments, hsegments⟩ := Route.exists_ofPattern?_eq_some hslash
    refine ⟨segments, hsegments, ?_⟩
    intro nameless cuts refused present
    have hnameless_iff : nameless ↔ segments.cut.hasNameless = true := Route.hasNameless_iff.symm
    have hcuts_iff : cuts ↔ segments.excess ≠ [] :=
      ⟨And.right, fun hexcess => ⟨Route.getLast?_cut hexcess, hexcess⟩⟩
    have hrefused_iff : refused ↔ policy.strictCatchAll = true ∧ segments.excess ≠ [] :=
      and_congr_right' hcuts_iff
    have hpresent : segments.cut ∈ (ofPolicy policy).routeHistory requests ↔ present := Iff.rfl
    have houtcome := hlawful.outcome_register hsegments payload
    have hwarns := before.exists_warnsTruncated_iff_of_ofPattern? pattern payload hsegments
    rw [hpolicy] at houtcome hwarns
    clear_value nameless cuts refused present
    rw [houtcome, hwarns, hnameless_iff, hrefused_iff, hcuts_iff]
    by_cases hnameless : segments.cut.hasNameless
    · simp [hnameless]
    · by_cases hrefused : policy.strictCatchAll = true ∧ segments.excess ≠ []
      · simp [hnameless, hrefused]
      · by_cases hduplicate : policy.onDuplicate = .reject ∧ present
        · simp [hnameless, hrefused, hduplicate, hpresent]
        · simp [hnameless, hrefused, hduplicate, hpresent]

/-- The route is registered, and the capture without a name stands behind its catch-all:
the pattern is a duplicate, after a warning that it is cut. -/
theorem outcome_register_iff_duplicate :
    let before := (ofPolicy ⟨.reject, false⟩).registerAll [("/a/*rest", 1)]
    let result := before.register "/a/*rest/:" 2
    "/a/*rest/:".toList.head? = some '/' ∧
      result.outcome = .error (.duplicatePattern "/a/*rest/:") ∧
      (∃ notice ∈ result.notices, notice.WarnsTruncated "/a/*rest/:") ∧
      (RegistrationError.duplicatePattern "/a/*rest/:").pattern = "/a/*rest/:" := by
  intro before result
  obtain ⟨-, -, hclassified, hnamed⟩ :=
    outcome_register_iff ⟨.reject, false⟩ [("/a/*rest", 1)] "/a/*rest/:" 2
  obtain ⟨segments, hsegments, -, -, hduplicate, -, hwarns⟩ := hclassified rfl
  obtain rfl : segments = [.literal "a", .catchAll "rest", .param ""] :=
    Option.some.inj (hsegments.symm.trans (by decide))
  have houtcome : result.outcome = .error (.duplicatePattern "/a/*rest/:") :=
    hduplicate.mpr ⟨by decide, by simp, rfl, by decide⟩
  refine ⟨rfl, houtcome, ?_, hnamed _ houtcome⟩
  exact hwarns.mpr ⟨by decide, by simp, rfl, ⟨"rest", rfl⟩, by decide⟩

end Registry

end PathRouting
