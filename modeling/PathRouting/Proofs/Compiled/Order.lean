import PathRouting.Proofs.Compiled.Depth
import PathRouting.Proofs.Route.Precedence

/-!
# Order of compiled matchers

The matchers that compete at a node stand in the order of the children, literals first and
catch-alls last, and the sort by rank keeps this order among equal ranks. What is tried
first is therefore what the routes prefer.

## Main definitions

* `History.StandsBefore` — the order in which matchers stand before they are sorted

## Main results

* `Trie.GrownFrom.candidates_pairwise` — matchers stand in this order
* `Trie.GrownFrom.prefers_of_sortByRank` — what is tried first serves the preferred segments
-/

namespace PathRouting

universe u

variable {α : Type u} {history : History Segment}

open Matcher (sortByRank)

/-- The order in which the matchers of segments stand before they are sorted. All literals
share one matcher. -/
def History.StandsBefore (history : History Segment) : Segment → Segment → Prop
  | .literal _, .param _ => True
  | .literal _, .catchAll _ => True
  | .param _, .catchAll _ => True
  | .param a, .param b => history.firstUse (.param a) < history.firstUse (.param b)
  | .catchAll a, .catchAll b => history.firstUse (.catchAll a) < history.firstUse (.catchAll b)
  | _, _ => False

/-- One matcher stands before another if its segments stand before those of the other. -/
def Matcher.StandsBefore (history : History Segment) (a b : Matcher α) : Prop :=
  ∀ s s', a.Serves s → b.Serves s' → history.StandsBefore s s'

/-- Two segments with the same matcher are the same, unless both are literals. -/
theorem Matcher.Serves.eq_or_isLiteral {m : Matcher α} {s s' : Segment} (hs : m.Serves s)
    (hs' : m.Serves s') : s = s' ∨ s.isLiteral = true ∧ s'.isLiteral = true := by
  cases m <;> cases s <;> cases s' <;> simp_all [Matcher.Serves, Segment.isLiteral]

namespace Trie

variable {t : Trie Segment α}

theorem dispatchers_pairwise (branch : Branch α) {before : Matcher α → Matcher α → Prop} :
    branch.dispatchers.Pairwise before := by
  rw [Branch.dispatchers]
  split
  · exact .nil
  · exact List.pairwise_singleton _ _
  · exact List.pairwise_singleton _ _

theorem GrownFrom.candidates_pairwise (h : GrownFrom history t) :
    t.candidates.Pairwise (Matcher.StandsBefore history) := by
  have hchildren : t.children.Pairwise fun a b =>
      history.firstUse a.1 < history.firstUse b.1 := by
    rw [← List.pairwise_map (f := Prod.fst)
      (R := fun a b => history.firstUse a < history.firstUse b), h.keys]
    exact history.heads_pairwise
  rw [candidates, Branch.candidates, List.pairwise_append, List.pairwise_append]
  refine ⟨⟨dispatchers_pairwise _, ?_, ?_⟩, ?_, ?_⟩
  · -- Parameters among each other.
    rw [branch_eq]
    refine List.pairwise_filterMap.mpr (hchildren.imp ?_)
    rintro ⟨segment, child⟩ ⟨segment', child'⟩ hlt a ha b hb s s' hs hs'
    obtain ⟨name, inner, rfl, -, rfl⟩ := paramMatcher?_eq_some_iff.mp ha
    obtain ⟨name', inner', rfl, -, rfl⟩ := paramMatcher?_eq_some_iff.mp hb
    obtain rfl := Matcher.serves_wild_iff.mp hs
    obtain rfl := Matcher.serves_wild_iff.mp hs'
    exact hlt
  · -- Literals before parameters.
    intro a ha b hb s s' hs hs'
    obtain ⟨text, rfl⟩ := (serves_of_mem_dispatchers ha).mp hs
    obtain ⟨name, child, inner, -, -, rfl⟩ := mem_wilds.mp hb
    obtain rfl := Matcher.serves_wild_iff.mp hs'
    exact trivial
  · -- Catch-alls among each other.
    rw [branch_eq]
    refine List.pairwise_filterMap.mpr (hchildren.imp ?_)
    rintro ⟨segment, child⟩ ⟨segment', child'⟩ hlt a ha b hb s s' hs hs'
    obtain ⟨name, payload, rfl, -, rfl⟩ := catchAllMatcher?_eq_some_iff.mp ha
    obtain ⟨name', payload', rfl, -, rfl⟩ := catchAllMatcher?_eq_some_iff.mp hb
    obtain rfl := Matcher.serves_catchAll_iff.mp hs
    obtain rfl := Matcher.serves_catchAll_iff.mp hs'
    exact hlt
  · -- Literals and parameters before catch-alls.
    intro a ha b hb s s' hs hs'
    obtain ⟨name, child, payload, -, -, rfl⟩ := mem_catchAlls.mp hb
    obtain rfl := Matcher.serves_catchAll_iff.mp hs'
    rcases List.mem_append.mp ha with ha | ha
    · obtain ⟨text, rfl⟩ := (serves_of_mem_dispatchers ha).mp hs
      exact trivial
    · obtain ⟨name', child', inner, -, -, rfl⟩ := mem_wilds.mp ha
      obtain rfl := Matcher.serves_wild_iff.mp hs
      exact trivial

/-- What the rank of a matcher says about the segments that it serves. -/
theorem GrownFrom.rank_of_serves (h : GrownFrom history t)
    (htidy : ∀ route ∈ history, Route.Tidy route) {m : Matcher α} {segment : Segment}
    (hm : m ∈ t.candidates) (hserves : m.Serves segment) :
    m.rank.isCatchAll = segment.isCatchAll ∧ m.rank.depth = history.reach segment ∧
      (segment.isLiteral = false → m.rank.literalLength = 0) := by
  refine ⟨?_, h.depth_of_serves htidy hm hserves, ?_⟩
  · cases m <;> cases segment <;> first | rfl | exact hserves.elim
  · intro hliteral
    cases m with
    | literal text depth child =>
      cases segment with
      | literal text => cases hliteral
      | param name => exact hserves.elim
      | catchAll name => exact hserves.elim
    | dispatch entries => rfl
    | wild name child => rfl
    | catchAll name payload => rfl
    | leaf payload => rfl
    | choice members => rfl

/-- Of two matchers, one that has the lower rank serves the preferred segments, and so does
one that has the same rank and stands first. -/
theorem GrownFrom.prefers_of_rank (h : GrownFrom history t)
    (htidy : ∀ route ∈ history, Route.Tidy route) {a b : Matcher α} {s s' : Segment}
    (ha : a ∈ t.candidates) (hb : b ∈ t.candidates) (hs : a.Serves s) (hs' : b.Serves s')
    (hliteral : s.isLiteral = true → s'.isLiteral = false) (hle : a.rank.le b.rank = true)
    (horder : Matcher.StandsBefore history a b ∨ b.rank.le a.rank = false) :
    history.Prefers s s' := by
  obtain ⟨haKind, haDepth, haLength⟩ := h.rank_of_serves htidy ha hs
  obtain ⟨hbKind, hbDepth, -⟩ := h.rank_of_serves htidy hb hs'
  rw [Matcher.Rank.le_iff, haKind, hbKind, haDepth, hbDepth] at hle
  rw [← Bool.not_eq_true, Matcher.Rank.le_iff, haKind, hbKind, haDepth, hbDepth] at horder
  have hdepth : s.isCatchAll = false → s'.isCatchAll = false →
      history.reach s' < history.reach s ∨ history.reach s = history.reach s' := by
    intro hkind hkind'
    rcases hle with ⟨-, hcatchAll⟩ | ⟨-, hlt | ⟨heq, -⟩⟩
    · rw [hkind'] at hcatchAll
      cases hcatchAll
    · exact .inl hlt
    · exact .inr heq
  -- At equal depth the length of literal text can only bring a literal forward, and literals
  -- stand first anyway.
  have hstands : s.isCatchAll = s'.isCatchAll → history.reach s = history.reach s' →
      s.isLiteral = false → history.StandsBefore s s' := by
    intro hkind heq hother
    rcases horder with hbefore | hrank
    · exact hbefore s s' hs hs'
    · exact absurd (.inr ⟨hkind.symm, .inr ⟨heq.symm, haLength hother ▸ Nat.zero_le _⟩⟩) hrank
  cases s with
  | literal text =>
    cases s' with
    | literal text' => exact absurd (hliteral rfl) Bool.noConfusion
    | param name =>
      rcases hdepth rfl rfl with hlt | heq
      · exact .deeper rfl rfl hlt
      · exact .literalFirst heq
    | catchAll name => exact .catchAllLast rfl
  | param name =>
    cases s' with
    | literal text =>
      rcases hdepth rfl rfl with hlt | heq
      · exact .deeper rfl rfl hlt
      · exact (hstands rfl heq rfl).elim
    | param name' =>
      rcases hdepth rfl rfl with hlt | heq
      · exact .deeper rfl rfl hlt
      · exact .earlierParam heq (hstands rfl heq rfl)
    | catchAll name' => exact .catchAllLast rfl
  | catchAll name =>
    cases s' with
    | literal text => simp [Segment.isCatchAll] at hle
    | param name' => simp [Segment.isCatchAll] at hle
    | catchAll name' => exact .earlierCatchAll (hstands rfl rfl rfl)

/-- What is tried first serves the preferred segments. -/
theorem GrownFrom.prefers_of_sortByRank (h : GrownFrom history t)
    (htidy : ∀ route ∈ history, Route.Tidy route) {front back : List (Matcher α)}
    {a b : Matcher α} {s s' : Segment} (hsplit : sortByRank t.candidates = front ++ a :: back)
    (hb : b ∈ back) (hs : a.Serves s) (hs' : b.Serves s')
    (hliteral : s.isLiteral = true → s'.isLiteral = false) : history.Prefers s s' := by
  have hmem : ∀ m ∈ a :: back, m ∈ t.candidates := by
    intro m hm
    rw [← Matcher.mem_sortByRank, hsplit]
    exact List.mem_append_right _ hm
  have hsorted : (sortByRank t.candidates).Pairwise _ :=
    Matcher.Rank.sortBy_stable Matcher.rank h.candidates_pairwise
  rw [hsplit, List.pairwise_append] at hsorted
  obtain ⟨hle, horder⟩ := List.rel_of_pairwise_cons hsorted.2.1 hb
  exact h.prefers_of_rank htidy (hmem a List.mem_cons_self) (hmem b (List.mem_cons_of_mem _ hb))
    hs hs' hliteral hle (horder.imp_right And.right)

end Trie

end PathRouting
