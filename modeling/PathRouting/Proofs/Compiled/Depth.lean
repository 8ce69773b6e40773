import Mathlib.Order.Basic
import PathRouting.Proofs.Compiled.Candidates
import PathRouting.Proofs.Route.Depth
import PathRouting.Proofs.Trie.Growth

/-!
# Depth of compiled matchers

A compiled matcher stores depths that were counted while literals were folded and tables
were built. They are the depths of the registered routes: the matcher of a node is as deep
as the deepest route from there, and a matcher that competes at a node is as deep as the
reach of the segments that it serves.

## Main results

* `Trie.GrownFrom.exists_matcher?` — a node that routes lead to has a matcher of their depth
* `Trie.GrownFrom.depth_of_serves` — the depth of a matcher is the reach of what it serves
-/

namespace PathRouting

universe u

variable {α : Type u}

open Matcher (entriesDepth)

namespace Trie

/-! ### Depth of a node -/

theorem depth_ofCandidates?_le_iff {members : List (Matcher α)} {m : Matcher α}
    (h : Matcher.ofCandidates? members = some m) {n : Nat} :
    m.depth ≤ n ↔ ∀ member ∈ members, member.depth ≤ n := by
  cases members with
  | nil => cases h
  | cons first rest =>
    obtain rfl := Option.some.inj h
    exact Matcher.depth_alternatives_le_iff (List.cons_ne_nil first rest)

/-- The slash in front of the candidates makes each of them one deeper. -/
theorem depth_slash_le_iff (candidates : List (Matcher α)) {n : Nat} :
    (∀ m ∈ (Matcher.ofCandidates? candidates).toList.map (Matcher.prefixed "/"), m.depth ≤ n) ↔
      ∀ c ∈ candidates, c.depth + 1 ≤ n := by
  cases candidates with
  | nil => simp [Matcher.ofCandidates?]
  | cons first rest =>
    have hinner : Matcher.ofCandidates? (first :: rest) =
        some (.alternatives (first :: rest)) := rfl
    simp only [Matcher.ofCandidates?, Option.toList_some, List.map_cons, List.map_nil,
      List.forall_mem_singleton, Matcher.depth_prefixed]
    cases n with
    | zero =>
      -- Nothing with a slash in front is that shallow.
      apply iff_of_false (Nat.not_succ_le_zero _)
      intro hall
      exact Nat.not_succ_le_zero _ (hall first List.mem_cons_self)
    | succ n =>
      simp only [Nat.add_le_add_iff_right]
      exact depth_ofCandidates?_le_iff hinner

/-- A node is as deep as what ends there, or as the slash in front of its children. -/
theorem depth_matcher?_le_iff {t : Trie Segment α} {m : Matcher α} (h : t.matcher? = some m)
    {n : Nat} :
    m.depth ≤ n ↔ (t.payload.isSome → 1 ≤ n) ∧ ∀ c ∈ t.candidates, c.depth + 1 ≤ n := by
  obtain ⟨payload, children⟩ := t
  rw [matcher?] at h
  have hdata : (∀ m ∈ payload.toList.map Matcher.data, m.depth ≤ n) ↔
      (payload.isSome → 1 ≤ n) := by
    cases payload <;> simp [Matcher.data, Matcher.depth]
  rw [depth_ofCandidates?_le_iff h, List.forall_mem_append, depth_slash_le_iff, hdata, and_comm]
  rfl

theorem isSome_matcher?_iff {t : Trie Segment α} :
    t.matcher?.isSome ↔ t.payload.isSome ∨ t.candidates ≠ [] := by
  obtain ⟨payload, children⟩ := t
  rw [matcher?, candidates]
  cases (branch children).candidates <;> cases payload <;> simp [Matcher.ofCandidates?]

/-- The depth of a table is the greatest depth among the literal children. -/
theorem entriesDepth_filterMap {children : List (Segment × Trie Segment α)}
    {depthOf : Segment → Nat}
    (h : ∀ segment child, (segment, child) ∈ children →
      ∃ m, child.matcher? = some m ∧ m.depth = depthOf segment) :
    entriesDepth (children.filterMap literalMatcher?) =
      (((children.map Prod.fst).filter Segment.isLiteral).map depthOf).foldr max 0 := by
  induction children with
  | nil => rfl
  | cons entry rest ih =>
    obtain ⟨segment, child⟩ := entry
    have hrest := ih fun segment child hmem => h segment child (List.mem_cons_of_mem _ hmem)
    -- Only literal children have an entry in the table.
    cases segment with
    | literal text =>
      obtain ⟨m, hm, hdepth⟩ := h _ child List.mem_cons_self
      have hliteral : (Segment.literal text).isLiteral = true := rfl
      simp [literalMatcher?, hm, entriesDepth, hliteral, hrest, hdepth]
    | param name => simpa [List.filterMap_cons, literalMatcher?, Segment.isLiteral] using hrest
    | catchAll name => simpa [List.filterMap_cons, literalMatcher?, Segment.isLiteral] using hrest

theorem depth_of_mem_dispatchers {branch : Branch α} {m : Matcher α}
    (hm : m ∈ branch.dispatchers) (hnodup : (branch.literals.map Prod.fst).Nodup) :
    m.depth = entriesDepth branch.literals + 1 := by
  rcases mem_dispatchers_cases hm with ⟨text, child, hliterals, rfl⟩ | ⟨-, rfl⟩
  · rw [Matcher.depth_prefixed, hliterals, entriesDepth, entriesDepth, Nat.max_zero]
  · rw [Matcher.table, Dict.ofList_eq_self hnodup, Matcher.depth]

/-! ### Depth of the routes -/

section

variable {history : History Segment} {t : Trie Segment α}

/-- A catch-all that routes go on with has a payload, since they end there. -/
theorem GrownFrom.exists_payload_of_catchAll (h : GrownFrom history t)
    (htidy : ∀ route ∈ history, Route.Tidy route) {name : String} {child : Trie Segment α}
    (hmem : (.catchAll name, child) ∈ t.children) : ∃ payload, child.payload = some payload := by
  obtain ⟨rest, hrest⟩ := History.mem_heads.mp (h.mem_heads_of_mem hmem)
  obtain rfl := (htidy _ hrest).eq_nil_of_catchAll
  rw [← Option.isSome_iff_exists]
  exact (h.of_mem hmem).isSome_payload_iff.mpr (History.mem_behind.mpr hrest)

section

variable (h : GrownFrom history t)
  (hbelow : ∀ segment child, (segment, child) ∈ t.children →
    ∃ m, child.matcher? = some m ∧ m.depth = History.depth (history.behind segment))

include h hbelow

/-- The depth of a matcher, if the children are as deep as the routes behind them. -/
theorem depth_eq_reach {m : Matcher α} {segment : Segment} (hm : m ∈ t.candidates)
    (hserves : m.Serves segment) : m.depth = history.reach segment := by
  rcases mem_candidates.mp hm with hm | hm | hm
  · -- A dispatch is as deep as its deepest child, whichever literal it serves.
    obtain ⟨text, rfl⟩ := (serves_of_mem_dispatchers hm).mp hserves
    rw [depth_of_mem_dispatchers hm (nodup_literals h.nodup_keys), branch_eq,
      entriesDepth_filterMap hbelow, h.keys]
    rfl
  · obtain ⟨name, child, inner, hchild, hinner, rfl⟩ := mem_wilds.mp hm
    obtain rfl := Matcher.serves_wild_iff.mp hserves
    obtain ⟨m, hm, hdepth⟩ := hbelow _ child hchild
    obtain rfl := Option.some.inj (hinner.symm.trans hm)
    rw [Matcher.depth, hdepth, History.reach]
  · obtain ⟨name, child, payload, hchild, hpayload, rfl⟩ := mem_catchAlls.mp hm
    obtain rfl := Matcher.serves_catchAll_iff.mp hserves
    rfl

/-- A segment that routes go on with has a matcher that competes for it. -/
theorem exists_candidate_of_mem_heads (htidy : ∀ route ∈ history, Route.Tidy route)
    {segment : Segment} (hsegment : segment ∈ history.heads) :
    ∃ m ∈ t.candidates, m.Serves segment := by
  obtain ⟨child, hchild⟩ := h.exists_mem_of_mem_heads hsegment
  obtain ⟨inner, hinner, -⟩ := hbelow _ child hchild
  cases segment with
  | literal text =>
    obtain ⟨m, hm⟩ := exists_mem_dispatchers
      (List.ne_nil_of_mem (mem_literals.mpr ⟨child, hchild, hinner⟩))
    exact ⟨m, mem_candidates.mpr (.inl hm), (serves_of_mem_dispatchers hm).mpr ⟨text, rfl⟩⟩
  | param name =>
    have hm := mem_wilds.mpr ⟨name, child, inner, hchild, hinner, rfl⟩
    exact ⟨_, mem_candidates.mpr (.inr (.inl hm)), Matcher.serves_wild_iff.mpr rfl⟩
  | catchAll name =>
    obtain ⟨payload, hpayload⟩ := h.exists_payload_of_catchAll htidy hchild
    have hm := mem_catchAlls.mpr ⟨name, child, payload, hchild, hpayload, rfl⟩
    exact ⟨_, mem_candidates.mpr (.inr (.inr hm)), Matcher.serves_catchAll_iff.mpr rfl⟩

omit hbelow in
/-- Every matcher that competes serves a segment that routes go on with. -/
theorem exists_serves_of_mem_candidates {m : Matcher α} (hm : m ∈ t.candidates) :
    ∃ segment ∈ history.heads, m.Serves segment := by
  rcases mem_candidates.mp hm with hm | hm | hm
  · obtain ⟨⟨text, inner⟩, hentry⟩ :=
      List.exists_mem_of_ne_nil _ (literals_ne_nil_of_mem_dispatchers hm)
    obtain ⟨child, hchild, -⟩ := mem_literals.mp hentry
    exact ⟨_, h.mem_heads_of_mem hchild, (serves_of_mem_dispatchers hm).mpr ⟨text, rfl⟩⟩
  · obtain ⟨name, child, inner, hchild, -, rfl⟩ := mem_wilds.mp hm
    exact ⟨_, h.mem_heads_of_mem hchild, Matcher.serves_wild_iff.mpr rfl⟩
  · obtain ⟨name, child, payload, hchild, -, rfl⟩ := mem_catchAlls.mp hm
    exact ⟨_, h.mem_heads_of_mem hchild, Matcher.serves_catchAll_iff.mpr rfl⟩

/-- A node to which routes lead has a matcher of their depth, if its children have. -/
theorem exists_matcher?_of_below (htidy : ∀ route ∈ history, Route.Tidy route)
    (hne : history ≠ []) : ∃ m, t.matcher? = some m ∧ m.depth = history.depth := by
  have hpayload := h.isSome_payload_iff
  -- Matchers and segments bound each other, since each serves or is served.
  have hcandidates : ∀ n, (∀ c ∈ t.candidates, c.depth + 1 ≤ n) ↔
      ∀ segment ∈ history.heads, history.reach segment + 1 ≤ n := by
    intro n
    constructor
    · intro hall segment hsegment
      obtain ⟨c, hc, hserves⟩ := exists_candidate_of_mem_heads h hbelow htidy hsegment
      rw [← depth_eq_reach h hbelow hc hserves]
      exact hall c hc
    · intro hall c hc
      obtain ⟨segment, hsegment, hserves⟩ := exists_serves_of_mem_candidates h hc
      rw [depth_eq_reach h hbelow hc hserves]
      exact hall segment hsegment
  have hsome : t.matcher?.isSome := by
    rw [isSome_matcher?_iff]
    obtain ⟨route, hroute⟩ := List.exists_mem_of_ne_nil _ hne
    cases route with
    | nil => exact .inl (hpayload.mpr hroute)
    | cons segment rest =>
      obtain ⟨c, hc, -⟩ := exists_candidate_of_mem_heads h hbelow htidy
        (History.mem_heads.mpr ⟨rest, hroute⟩)
      exact .inr (List.ne_nil_of_mem hc)
  obtain ⟨m, hm⟩ := Option.isSome_iff_exists.mp hsome
  refine ⟨m, hm, ?_⟩
  -- Both depths have the same bounds.
  apply eq_of_forall_ge_iff
  intro n
  rw [depth_matcher?_le_iff hm, hcandidates, hpayload, History.depth_le_iff_reach htidy]

end

/-- A node to which routes lead has a matcher, which is as deep as the deepest of them. -/
theorem GrownFrom.exists_matcher? (h : GrownFrom history t)
    (htidy : ∀ route ∈ history, Route.Tidy route) (hne : history ≠ []) :
    ∃ m, t.matcher? = some m ∧ m.depth = history.depth := by
  induction h with
  | @node history payload children payload_iff keys_eq child ih =>
    have h : GrownFrom history ⟨payload, children⟩ := .node payload_iff keys_eq child
    refine exists_matcher?_of_below h ?_ htidy hne
    intro segment t hmem
    exact ih segment t ((Dict.lookup_eq_some_iff_mem h.nodup_keys).mpr hmem)
      (History.tidy_behind htidy segment) (h.behind_ne_nil_of_mem hmem)

/-- A matcher that competes at a node is as deep as the segments that it serves reach. -/
theorem GrownFrom.depth_of_serves (h : GrownFrom history t)
    (htidy : ∀ route ∈ history, Route.Tidy route) {m : Matcher α} {segment : Segment}
    (hm : m ∈ t.candidates) (hserves : m.Serves segment) : m.depth = history.reach segment := by
  refine depth_eq_reach h ?_ hm hserves
  intro other child hmem
  exact (h.of_mem hmem).exists_matcher? (History.tidy_behind htidy other)
    (h.behind_ne_nil_of_mem hmem)

end

end Trie

end PathRouting
