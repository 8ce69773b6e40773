import PathRouting.Proofs.Compiled.Order
import PathRouting.Proofs.Route.Captures

/-!
# The route that takes a path

The first way of a compiled matcher belongs to one registered route: it has the payload and
the captures of this route, and the route precedes every other one that matches. If there
is no way at all, no route matches. This is shown from the nodes at the ends upwards, for
any place in a path.

## Main definitions

* `Trie.Selects` — what the first way says about the routes behind a place

## Main results

* `Trie.Selects.through` — a segment in front, with the part of the path that it takes
* `Trie.GrownFrom.selects_ways` — every node selects the route that precedes the others
-/

namespace PathRouting

universe u

variable {α : Type u} {history : History Segment}

open Matcher (Way memberWays sortByRank)

namespace Trie

/-- What the first way says about the routes behind a place: the way is that of a route which
precedes all others that capture something, or there is none of these. -/
def Selects (history : History Segment) (t : Trie Segment α)
    (captures? : Route → Option (List (String × String))) : Option (Way α) → Prop
  | none => ∀ route ∈ history, captures? route = none
  | some way => ∃ route, t.get? route = some way.payload ∧
      captures? route = some way.captures ∧
      ∀ other ∈ history, (captures? other).isSome → other ≠ route → history.Precedes route other

variable {t : Trie Segment α}

namespace Selects

variable {captures? : Route → Option (List (String × String))} {way? : Option (Way α)}

/-- There is a way if a route captures something. -/
theorem isSome (h : Selects history t captures? way?) {route : Route} (hroute : route ∈ history)
    (hcaptures : (captures? route).isSome) : way?.isSome := by
  cases way? with
  | some way => rfl
  | none =>
    rw [h route hroute] at hcaptures
    exact hcaptures

/-- One more capture in front changes the captures of all routes alike. -/
theorem capture (h : Selects history t captures? way?) (name : String) (part : List Char) :
    Selects history t (fun route => (captures? route).map ((name, String.ofList part) :: ·))
      (way?.map (.capture name part)) := by
  cases way? with
  | none =>
    intro route hroute
    exact congrArg (Option.map _) (h route hroute)
  | some way =>
    obtain ⟨route, hget, hcaptures, hothers⟩ := h
    refine ⟨route, hget, congrArg (Option.map _) hcaptures, ?_⟩
    intro other hother hsome
    rw [Option.isSome_map] at hsome
    exact hothers other hother hsome

theorem of_forall_eq_none (h : ∀ route, captures? route = none) :
    Selects history t captures? none :=
  fun route _ => h route

/-- A segment in front takes a part of the path, or none of the routes behind it matches. -/
theorem through {segment : Segment} {part : List Char} {more : List (List Char)}
    (hgrown : GrownFrom history t) (htidy : ∀ route ∈ history, Route.Tidy (segment :: route))
    (h : Selects history t (Route.captures? · more) (t.ways (Path.join more)).head?) :
    Selects history t (fun route => Route.captures? (segment :: route) (part :: more))
      (t.waysThrough segment part more).head? := by
  cases segment with
  | literal text =>
    simp only [Route.captures?_literal, waysThrough]
    split
    · exact h
    · exact of_forall_eq_none fun _ => rfl
  | param name =>
    simp only [Route.captures?_param, waysThrough]
    split
    · exact of_forall_eq_none fun _ => rfl
    · rw [List.head?_map]
      exact h.capture name part
  | catchAll name =>
    -- Behind a catch-all there is nothing but the end of its route.
    have hnil : ∀ route ∈ history, route = [] := fun route hroute =>
      (htidy route hroute).eq_nil_of_catchAll
    rw [waysThrough]
    cases hpayload : t.payload with
    | none =>
      intro route hroute
      obtain rfl := hnil route hroute
      have hsome := hgrown.isSome_payload_iff.mpr hroute
      rw [hpayload] at hsome
      exact absurd hsome Bool.false_ne_true
    | some payload =>
      refine ⟨[], hpayload, rfl, ?_⟩
      intro other hother _ hne
      exact absurd (hnil other hother) hne

end Selects

theorem captures?_isSome_cons {route : Route} {part : List Char} {more : List (List Char)}
    (h : (Route.captures? route (part :: more)).isSome) :
    ∃ segment rest, route = segment :: rest := by
  cases route with
  | nil => cases h
  | cons segment rest => exact ⟨segment, rest, rfl⟩

/-- At the end of a path a node selects what is registered there. -/
theorem selects_ways_nil (h : GrownFrom history t) :
    Selects history t (Route.captures? · []) (t.ways []).head? := by
  rw [ways_nil]
  cases hpayload : t.payload with
  | none =>
    intro route hroute
    cases route with
    | nil =>
      have hsome := h.isSome_payload_iff.mpr hroute
      rw [hpayload] at hsome
      exact absurd hsome Bool.false_ne_true
    | cons segment rest => exact Route.captures?_cons_nil segment rest
  | some payload =>
    refine ⟨[], hpayload, rfl, ?_⟩
    intro other _ hother hne
    cases other with
    | nil => exact absurd rfl hne
    | cons segment rest =>
      have hnone := Route.captures?_cons_nil segment rest
      exact absurd hother (Option.not_isSome_iff_eq_none.mpr hnone)

theorem GrownFrom.slash_notMem (h : GrownFrom history t)
    (htidy : ∀ route ∈ history, Route.Tidy route) {text : String} {child : Trie Segment α}
    (hchild : (.literal text, child) ∈ t.children) : '/' ∉ text.toList := by
  obtain ⟨rest, hrest⟩ := History.mem_heads.mp (h.mem_heads_of_mem hchild)
  exact (htidy _ hrest).slash_notMem

/-- Different segments that both take a part are not both literals. -/
theorem isLiteral_eq_false_of_ne {s s' : Segment} {rest rest' : Route} {part : List Char}
    {more : List (List Char)} (hs : (Route.captures? (s :: rest) (part :: more)).isSome)
    (hs' : (Route.captures? (s' :: rest') (part :: more)).isSome) (hne : s ≠ s')
    (hliteral : s.isLiteral = true) : s'.isLiteral = false := by
  have htext : ∀ {text : String} {route : Route},
      (Route.captures? (.literal text :: route) (part :: more)).isSome → part = text.toList := by
    intro text route hsome
    by_contra hpart
    rw [Route.captures?_literal, if_neg hpart] at hsome
    cases hsome
  cases s with
  | literal text =>
    cases s' with
    | literal text' =>
      have hsame : text = text' := String.toList_inj.mp ((htext hs).symm.trans (htext hs'))
      exact absurd (congrArg Segment.literal hsame) hne
    | param name => rfl
    | catchAll name => rfl
  | param name => cases hliteral
  | catchAll name => cases hliteral

section Children

variable (h : GrownFrom history t) (htidy : ∀ route ∈ history, Route.Tidy route)
  {part : List Char} (hpart : '/' ∉ part) {more : List (List Char)}
  (hchildren : ∀ segment child, (segment, child) ∈ t.children →
    Selects (history.behind segment) child
      (fun route => Route.captures? (segment :: route) (part :: more))
      (child.waysThrough segment part more).head?)

include h htidy hpart hchildren

/-- A route that matches has a matcher that finds a way. -/
theorem exists_candidate_of_captures? {segment : Segment} {rest : Route}
    (hroute : segment :: rest ∈ history)
    (hsome : (Route.captures? (segment :: rest) (part :: more)).isSome) :
    ∃ m ∈ t.candidates, m.Serves segment ∧ (m.ways (part ++ Path.join more)).head? ≠ none := by
  obtain ⟨child, hchild⟩ := h.exists_mem_of_mem_heads (History.mem_heads.mpr ⟨rest, hroute⟩)
  have hway := (hchildren segment child hchild).isSome (History.mem_behind.mpr hroute) hsome
  have hne : child.waysThrough segment part more ≠ [] := by
    intro hnil
    rw [hnil] at hway
    cases hway
  obtain ⟨m, hm, hserves, heq⟩ := exists_candidate h.nodup_keys
    (fun _ _ hmem => h.slash_notMem htidy hmem) hpart more hchild hne
  refine ⟨m, hm, hserves, ?_⟩
  rw [heq]
  exact Option.isSome_iff_ne_none.mp hway

/-- A matcher that finds a way serves a segment with which a route goes on that captures
what the way does. -/
theorem exists_route_of_candidate {m : Matcher α} (hm : m ∈ t.candidates) {way : Way α}
    (hway : (m.ways (part ++ Path.join more)).head? = some way) :
    ∃ segment rest, m.Serves segment ∧ t.get? (segment :: rest) = some way.payload ∧
      Route.captures? (segment :: rest) (part :: more) = some way.captures ∧
      ∀ rest', segment :: rest' ∈ history →
        (Route.captures? (segment :: rest') (part :: more)).isSome → rest' ≠ rest →
        History.Precedes (history.behind segment) rest rest' := by
  have hne : m.ways (part ++ Path.join more) ≠ [] := by
    intro hnil
    rw [hnil] at hway
    cases hway
  obtain ⟨segment, child, hchild, hserves, heq⟩ := exists_child h.nodup_keys
    (fun _ _ hmem => h.slash_notMem htidy hmem) hpart more hm hne
  have hselect := hchildren segment child hchild
  rw [← heq, hway] at hselect
  obtain ⟨rest, hget, hcaptures, hothers⟩ := hselect
  refine ⟨segment, rest, hserves, ?_, hcaptures, ?_⟩
  · rw [get?, (Dict.lookup_eq_some_iff_mem h.nodup_keys).mpr hchild, Option.bind_some, hget]
  · intro rest' hrest'
    exact hothers rest' (History.mem_behind.mpr hrest')

/-- Before a part a node selects among its children: the first matcher that finds a way
serves the segment with which the winner goes on. -/
theorem selects_ways_cons :
    Selects history t (Route.captures? · (part :: more))
      (t.ways (Path.join (part :: more))).head? := by
  rw [Path.join_cons, ways_slash]
  have hsorted : ∀ {m}, m ∈ sortByRank t.candidates ↔ m ∈ t.candidates := Matcher.mem_sortByRank
  cases hhead : (memberWays (sortByRank t.candidates) (part ++ Path.join more)).head? with
  | none =>
    intro route hroute
    by_contra hsome
    have hmatch := Option.isSome_iff_ne_none.mpr hsome
    obtain ⟨segment, rest, rfl⟩ := captures?_isSome_cons hmatch
    obtain ⟨m, hm, -, hway⟩ :=
      exists_candidate_of_captures? h htidy hpart hchildren hroute hmatch
    exact hway (Matcher.head?_memberWays_eq_none hhead m (hsorted.mpr hm))
  | some way =>
    obtain ⟨front, m, back, hsplit, hfront, hway⟩ := Matcher.head?_memberWays_eq_some hhead
    have hm : m ∈ t.candidates := by
      rw [← hsorted, hsplit]
      exact List.mem_append_right _ List.mem_cons_self
    obtain ⟨segment, rest, hserves, hget, hcaptures, hothers⟩ :=
      exists_route_of_candidate h htidy hpart hchildren hm hway
    refine ⟨segment :: rest, hget, hcaptures, ?_⟩
    intro other hother hsome hdiffer
    obtain ⟨segment', rest', rfl⟩ := captures?_isSome_cons hsome
    by_cases hsegment : segment = segment'
    · -- Both go on with one segment, and the child has decided between them.
      subst hsegment
      rw [History.precedes_cons_self]
      apply hothers rest' hother hsome
      rintro rfl
      exact hdiffer rfl
    · -- They part here, so the order of the matchers decides.
      rw [History.precedes_cons_of_ne hsegment]
      have hliteral := isLiteral_eq_false_of_ne (Option.isSome_of_eq_some hcaptures) hsome hsegment
      obtain ⟨m', hm', hserves', hway'⟩ :=
        exists_candidate_of_captures? h htidy hpart hchildren hother hsome
      -- The other matcher finds a way too, so it does not stand before the first that does.
      have hback : m' ∈ back := by
        rw [← hsorted, hsplit, List.mem_append, List.mem_cons] at hm'
        rcases hm' with hm' | rfl | hm'
        · exact absurd (hfront m' hm') hway'
        · rcases hserves.eq_or_isLiteral hserves' with hsame | ⟨hfirst, hsecond⟩
          · exact absurd hsame hsegment
          · rw [hliteral hfirst] at hsecond
            cases hsecond
        · exact hm'
      exact h.prefers_of_sortByRank htidy hsplit hback hserves hserves' hliteral

end Children

/-- Every node selects the route that precedes the others that match. -/
theorem GrownFrom.selects_ways (h : GrownFrom history t)
    (htidy : ∀ route ∈ history, Route.Tidy route) {parts : List (List Char)}
    (hparts : ∀ part ∈ parts, '/' ∉ part) :
    Selects history t (Route.captures? · parts) (t.ways (Path.join parts)).head? := by
  -- The induction is on the nodes, with the parts of the path that are left to each.
  induction h generalizing parts with
  | @node history payload children payload_iff keys_eq child ih =>
    have h : GrownFrom history ⟨payload, children⟩ := .node payload_iff keys_eq child
    cases parts with
    | nil => exact selects_ways_nil h
    | cons part more =>
      obtain ⟨hpart, hmore⟩ := List.forall_mem_cons.mp hparts
      apply selects_ways_cons h htidy hpart
      intro segment t hmem
      have hlookup := (Dict.lookup_eq_some_iff_mem h.nodup_keys).mpr hmem
      apply Selects.through (h.of_mem hmem)
      · intro route hroute
        exact htidy _ (History.mem_behind.mp hroute)
      · exact ih segment t hlookup (History.tidy_behind htidy segment) hmore

end Trie

end PathRouting
