import PathRouting.Proofs.Route.Precedence
import PathRouting.Proofs.Trie.Nodes

/-!
# One more route

Which of two routes comes first depends on all routes that are registered, so one more route
can change it, although it takes part in neither. It can do so in one way only: on its way
it passes places where the two may part, and what goes on there may reach deeper than
before. Where nothing does, the order of the others stays as it was. A route that is
registered a second time reaches no deeper anywhere.

## Main definitions

* `History.KeepsReach` — nothing reaches deeper on the way of one more route

## Main results

* `History.depth_congr`, `History.reach_congr` — depths depend on which routes there are, not
  on their order
* `History.keepsReach_of_mem` — a route that is there already keeps all depths
* `History.precedes_append_iff` — the order of the others stays as it was
-/

namespace PathRouting.History

/-! ### Depths of the same routes -/

section Congruence

variable {history history' : History Segment}

theorem depth_congr (h : ∀ route, route ∈ history ↔ route ∈ history') :
    history.depth = history'.depth := by
  apply eq_of_forall_ge_iff
  intro n
  rw [depth_le_iff, depth_le_iff]
  exact forall_congr' fun route => by rw [h]

theorem reach_congr (h : ∀ route, route ∈ history ↔ route ∈ history') (segment : Segment) :
    history.reach segment = history'.reach segment := by
  have hbehind : ∀ other, depth (history.behind other) = depth (history'.behind other) := by
    intro other
    apply depth_congr
    intro route
    rw [mem_behind, mem_behind, h]
  cases segment with
  | literal text =>
    have hheads : ∀ other, other ∈ history.heads ↔ other ∈ history'.heads := by
      intro other
      rw [mem_heads, mem_heads]
      exact exists_congr fun rest => h _
    have hliteral : history.literalDepth = history'.literalDepth := by
      apply eq_of_forall_ge_iff
      intro n
      rw [literalDepth_le_iff, literalDepth_le_iff]
      exact forall_congr' fun other => by rw [hheads, hbehind]
    rw [reach, reach, hliteral]
  | param name => rw [reach, reach, hbehind]
  | catchAll name => rfl

end Congruence

/-! ### The way of one more route -/

variable {history : History Segment} {route : Route}

/-- One more route is a new one only if it was not there before. -/
theorem mem_append_singleton_iff {other : Route} (h : other = route → other ∈ history) :
    other ∈ history ++ [route] ↔ other ∈ history := by
  rw [List.mem_append, List.mem_singleton, or_iff_left_iff_imp]
  exact h

theorem tidy_behindAll (htidy : ∀ other ∈ history, Route.Tidy other) (front : Route) :
    ∀ other ∈ history.behindAll front, Route.Tidy other := by
  induction front generalizing history with
  | nil => exact htidy
  | cons segment front ih => exact ih (tidy_behind htidy segment)

/-- On the way of one more route, the segments that routes go on with reach as deep as
before. -/
def KeepsReach (history : History Segment) (route : Route) : Prop :=
  ∀ front, front <+: route → ∀ segment ∈ (history.behindAll front).heads,
    reach (behindAll (history ++ [route]) front) segment =
      reach (history.behindAll front) segment

/-- A route that is there already reaches no deeper a second time. -/
theorem keepsReach_of_mem (h : route ∈ history) : history.KeepsReach route := by
  intro front _ segment _
  apply reach_congr
  intro rest
  rw [mem_behindAll, mem_behindAll]
  exact mem_append_singleton_iff fun hsame => hsame ▸ h

namespace KeepsReach

theorem reach_eq (h : history.KeepsReach route) {segment : Segment}
    (hsegment : segment ∈ history.heads) :
    reach (history ++ [route]) segment = history.reach segment :=
  h [] List.nil_prefix segment hsegment

/-- Behind the first segment of the route nothing reaches deeper either. -/
theorem behind {segment : Segment} {rest : Route} (h : history.KeepsReach (segment :: rest)) :
    KeepsReach (history.behind segment) rest := by
  intro front hfront
  have hkeeps := h (segment :: front) (List.cons_prefix_cons.mpr ⟨rfl, hfront⟩)
  rwa [behindAll_cons, behindAll_cons, behind_append_cons, if_pos rfl] at hkeeps

end KeepsReach

/-- Which of two segments comes first depends on their reach and on when they were first
used. -/
theorem Prefers.congr {history' : History Segment} {a b : Segment}
    (ha : history'.reach a = history.reach a) (hb : history'.reach b = history.reach b)
    (hfirst : history'.firstUse a = history.firstUse a)
    (hsecond : history'.firstUse b = history.firstUse b) (h : history.Prefers a b) :
    history'.Prefers a b := by
  cases h with
  | catchAllLast hkind => exact .catchAllLast hkind
  | deeper hkind hkind' hlt =>
    apply Prefers.deeper hkind hkind'
    rwa [ha, hb]
  | literalFirst heq =>
    apply Prefers.literalFirst
    rwa [ha, hb]
  | earlierParam heq hlt =>
    apply Prefers.earlierParam
    · rwa [ha, hb]
    · rwa [hfirst, hsecond]
  | earlierCatchAll hlt =>
    apply Prefers.earlierCatchAll
    rwa [hfirst, hsecond]

theorem prefers_append_iff (h : history.KeepsReach route) {a b : Segment}
    (ha : a ∈ history.heads) (hb : b ∈ history.heads) :
    Prefers (history ++ [route]) a b ↔ history.Prefers a b := by
  have hfirst := firstUse_append_of_mem ha [route]
  have hsecond := firstUse_append_of_mem hb [route]
  constructor
  · exact .congr (h.reach_eq ha).symm (h.reach_eq hb).symm hfirst.symm hsecond.symm
  · exact .congr (h.reach_eq ha) (h.reach_eq hb) hfirst hsecond

/-- Where nothing reaches deeper, one more route leaves the order of the others as it was. -/
theorem precedes_append_iff (h : history.KeepsReach route) {p q : Route} (hp : p ∈ history)
    (hq : q ∈ history) : Precedes (history ++ [route]) p q ↔ history.Precedes p q := by
  -- The induction follows the two routes to the place where they part. The new route may
  -- leave them before.
  induction p generalizing history route q with
  | nil => cases q <;> exact Iff.rfl
  | cons a p ih =>
    cases q with
    | nil => exact Iff.rfl
    | cons b q =>
      by_cases hab : a = b
      · subst hab
        rw [precedes_cons_self, precedes_cons_self]
        cases route with
        | nil => rw [behind_append_nil]
        | cons first rest =>
          rw [behind_append_cons]
          by_cases hfirst : first = a
          · subst hfirst
            rw [if_pos rfl]
            exact ih h.behind (mem_behind.mpr hp) (mem_behind.mpr hq)
          · rw [if_neg hfirst]
      · rw [precedes_cons_of_ne hab, precedes_cons_of_ne hab]
        exact prefers_append_iff h (mem_heads.mpr ⟨p, hp⟩) (mem_heads.mpr ⟨q, hq⟩)

end PathRouting.History
