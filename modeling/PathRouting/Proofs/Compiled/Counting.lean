import PathRouting.Proofs.Compiled.NormalForm
import PathRouting.Proofs.Compiled.Overwriting
import PathRouting.Proofs.Matcher.Counting
import PathRouting.Proofs.Route.Written

/-!
# Compiling never leaves the word

A compiled matcher counts two for each segment of its deepest route, and one for the end of
the path. A route has no more segments than its pattern has characters, so a word that has
twice the length of each pattern has every depth that is counted on the way: nothing stops,
and the matcher is that of the exact depths.

## Main results

* `Trie.GrownFrom.matcherIn?_eq` — the matcher of a node, if the word has its depth
* `Registry.compileIn_registerAll` — after every run of registrations, if the patterns are
  short enough for the word, compiling in it gives the compiled matcher
-/

namespace PathRouting

universe u

variable {α : Type u} {word : Word}

/-! ### Depths on the way -/

namespace Route

theorem weight_le (route : Route) : weight route ≤ 2 * route.length + 1 := by
  rw [weight]
  split <;> omega

theorem length_le_length_write (route : Route) : route.length ≤ route.write.length := by
  induction route with
  | nil => exact Nat.zero_le _
  | cons segment rest ih =>
    rw [write_cons, String.length_append, String.length_append, List.length_cons]
    have hslash : "/".length = 1 := rfl
    omega

/-- Each segment that is registered takes a slash of the pattern. -/
theorem length_le_of_normal? {pattern : String} {route : Route}
    (h : normal? pattern = some route) : route.length ≤ pattern.length := by
  obtain ⟨segments, hsegments, rfl⟩ := Option.map_eq_some_iff.mp h
  have hcut := congrArg List.length (cut_append_excess segments)
  rw [List.length_append] at hcut
  have hwritten := length_le_length_write segments
  rw [write_of_ofPattern? hsegments] at hwritten
  omega

end Route

/-- What routes have left to go behind a segment is not deeper than the routes. -/
theorem History.depth_behind_le {history : History Segment}
    (htidy : ∀ route ∈ history, Route.Tidy route) (segment : Segment) :
    depth (history.behind segment) ≤ history.depth := by
  rw [depth_le_iff]
  intro rest hrest
  have hmem := mem_behind.mp hrest
  refine le_trans ?_ (weight_le_depth hmem)
  cases segment with
  | literal text => rw [Route.weight_cons rfl]; omega
  | param name => rw [Route.weight_cons rfl]; omega
  | catchAll name =>
    obtain rfl := (htidy _ hmem).eq_nil_of_catchAll
    exact Nat.le_succ 1

/-! ### Candidates -/

theorem Matcher.ofCandidatesIn?_eq {candidates : List (Matcher α)}
    (h : ∀ m, ofCandidates? candidates = some m → m.depth < word.size) :
    ofCandidatesIn? word candidates = .ok (ofCandidates? candidates) := by
  cases candidates with
  | nil => rfl
  | cons first rest =>
    have hmembers : ∀ m ∈ first :: rest, m.depth < word.size := fun m hm =>
      (((Trie.depth_ofCandidates?_le_iff rfl).mp le_rfl) m hm).trans_lt (h _ rfl)
    rw [ofCandidatesIn?, alternativesIn_of_lt hmembers]
    · rfl
    · exact List.cons_ne_nil first rest

theorem Branch.candidatesIn_eq {branch : Branch α}
    (h : ∀ m ∈ branch.candidates, m.depth < word.size) :
    branch.candidatesIn word = .ok branch.candidates := by
  have hdispatchers : branch.dispatchersIn word = .ok branch.dispatchers := by
    rw [dispatchersIn, dispatchers]
    rcases hliterals : branch.literals with _ | ⟨⟨text, child⟩, _ | ⟨next, rest⟩⟩
    · rfl
    · -- The literal text counts as one more than the child, which is still in the word.
      have hmem : Matcher.prefixed text child ∈ branch.candidates := by
        rw [candidates, dispatchers, hliterals]
        exact List.mem_append_left _ (List.mem_append_left _ List.mem_cons_self)
      have hlt := h _ hmem
      rw [Matcher.depth_prefixed] at hlt
      simp only [Matcher.prefixedIn_of_lt hlt, Except.map]
    · rfl
  rw [candidatesIn, hdispatchers]
  rfl

/-! ### Nodes -/

namespace Trie

theorem branchIn_eq {children : List (Segment × Trie Segment α)}
    (h : ∀ segment child, (segment, child) ∈ children →
      child.matcherIn? word = .ok child.matcher?) :
    branchIn word children = .ok (branch children) := by
  induction children with
  | nil => rfl
  | cons entry rest ih =>
    obtain ⟨segment, child⟩ := entry
    rw [branchIn, h segment child List.mem_cons_self,
      ih fun segment child hmem => h segment child (List.mem_cons_of_mem _ hmem)]
    rfl

section

variable {t : Trie Segment α} (hlt : ∀ m, t.matcher? = some m → m.depth < word.size)

include hlt

/-- The candidates stand behind a slash, so they are less deep than the node. -/
theorem depth_succ_lt_of_mem_candidates {c : Matcher α} (hc : c ∈ t.candidates) :
    c.depth + 1 < word.size := by
  obtain ⟨m, hm⟩ := Option.isSome_iff_exists.mp
    (isSome_matcher?_iff.mpr (.inr (List.ne_nil_of_mem hc)))
  exact (((depth_matcher?_le_iff hm).mp le_rfl).2 c hc).trans_lt (hlt m hm)

theorem depth_succ_lt_of_ofCandidates? {m : Matcher α}
    (hm : Matcher.ofCandidates? t.candidates = some m) : m.depth + 1 < word.size := by
  have hne : t.candidates ≠ [] := by
    rintro hnil
    rw [hnil] at hm
    cases hm
  obtain ⟨c, hc⟩ := List.exists_mem_of_ne_nil t.candidates hne
  have hpositive := depth_succ_lt_of_mem_candidates hlt hc
  have hbound : m.depth ≤ word.size - 2 := by
    rw [depth_ofCandidates?_le_iff hm]
    intro c hc
    have hmember := depth_succ_lt_of_mem_candidates hlt hc
    omega
  omega

/-- A node is compiled as it is with exact depths, if its children are and the word has its
depth. -/
theorem matcherIn?_eq_of_below (hbelow : ∀ segment child, (segment, child) ∈ t.children →
      child.matcherIn? word = .ok child.matcher?) :
    t.matcherIn? word = .ok t.matcher? := by
  have hcandidates := fun c => depth_succ_lt_of_mem_candidates hlt (c := c)
  have hinner := fun m => depth_succ_lt_of_ofCandidates? hlt (m := m)
  obtain ⟨payload, children⟩ := t
  -- One fact for each step that counts.
  have hbranch : (branch children).candidatesIn word = .ok (branch children).candidates :=
    Branch.candidatesIn_eq fun c hc => (Nat.lt_succ_self _).trans (hcandidates c hc)
  have hofInner : Matcher.ofCandidatesIn? word (branch children).candidates =
      .ok (Matcher.ofCandidates? (branch children).candidates) :=
    Matcher.ofCandidatesIn?_eq fun m hm => (Nat.lt_succ_self _).trans (hinner m hm)
  have hslash : (Matcher.ofCandidates? (branch children).candidates).toList.mapM
      (Matcher.prefixedIn word "/") =
        .ok ((Matcher.ofCandidates? (branch children).candidates).toList.map (.prefixed "/")) := by
    cases hm : Matcher.ofCandidates? (branch children).candidates with
    | none => rfl
    | some m =>
      rw [Option.toList_some, List.mapM_cons, Matcher.prefixedIn_of_lt (hinner m hm)]
      rfl
  rw [matcher?] at hlt
  rw [matcherIn?, branchIn_eq hbelow, matcher?, ← Matcher.ofCandidatesIn?_eq hlt]
  simp only [bind, Except.bind, hbranch, hofInner, hslash]

end

/-- The matcher of a node is counted exactly, if the word has the depth of the routes. -/
theorem GrownFrom.matcherIn?_eq {history : History Segment} {t : Trie Segment α}
    (h : GrownFrom history t) (htidy : ∀ route ∈ history, Route.Tidy route)
    (hlt : history.depth < word.size) : t.matcherIn? word = .ok t.matcher? := by
  induction t using induction_children generalizing history with
  | node t ih =>
    refine matcherIn?_eq_of_below ?_ ?_
    · intro m hm
      have hne : history ≠ [] := by
        rintro rfl
        obtain rfl := h.eq_empty
        cases hm
      obtain ⟨m', hm', hdepth⟩ := h.exists_matcher? htidy hne
      obtain rfl := Option.some.inj (hm.symm.trans hm')
      rwa [hdepth]
    · intro segment child hmem
      exact ih segment child hmem (h.of_mem hmem) (History.tidy_behind htidy segment)
        ((History.depth_behind_le htidy segment).trans_lt hlt)

end Trie

namespace Registry

theorem accepted_subset (registry : Registry α) (requests : List (String × α)) :
    registry.accepted requests ⊆ requests := by
  induction requests generalizing registry with
  | nil => exact List.Subset.refl _
  | cons request rest ih =>
    obtain ⟨pattern, payload⟩ := request
    rw [accepted]
    split
    · exact List.cons_subset_cons _ (ih _)
    · exact List.subset_cons_of_subset _ (ih _)

/-- After every run of registrations, compiling in a word stops nowhere and gives the compiled
matcher, if the word has twice the length of each pattern. -/
theorem compileIn_registerAll (policy : Policy) (requests : List (String × α))
    (hshort : ∀ request ∈ requests, 2 * request.1.length + 1 < word.size) :
    ((ofPolicy policy).registerAll requests).compileIn word =
      .ok ((ofPolicy policy).registerAll requests).compile := by
  have hlawful := lawful_registerAll policy requests
  have hdepth : History.depth ((ofPolicy policy).routeHistory requests) ≤ word.size - 1 := by
    rw [History.depth_le_iff]
    intro route hroute
    obtain ⟨request, hrequest, hnormal⟩ := List.mem_filterMap.mp hroute
    have hweight := Route.weight_le route
    have hlength := Route.length_le_of_normal? hnormal
    have hrequest := hshort request (accepted_subset _ requests hrequest)
    omega
  have hpositive := word.size_pos
  rw [compileIn, hlawful.grown.matcherIn?_eq hlawful.tidy (by omega)]
  rfl

end Registry

end PathRouting
