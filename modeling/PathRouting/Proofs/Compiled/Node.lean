import PathRouting.Proofs.Matcher.Ranking
import PathRouting.Registry.Compiled

/-!
# Ways from a node of a trie

The matcher of a node stands for a place after a part of a path. What remains of the path
there is empty, and then the payload of the node is all there is; or it goes on with a slash,
and then the children compete for what follows.

## Main definitions

* `Trie.ways` — the ways from a node along a path
* `Trie.candidates` — the matchers of its children

## Main results

* `Trie.matcher?_cases` — what the matcher of a node is made of
* `Trie.ways_nil`, `Trie.ways_slash` — the ways at the end of a path and behind a slash
* `Trie.ways_of_ne_slash` — there are none in the middle of a part
-/

namespace PathRouting

universe u

variable {α : Type u}

open Matcher (Way memberWays sortByRank)

namespace Trie

/-- The ways from a node along a path. A node without a matcher has none. -/
def ways (t : Trie Segment α) (path : List Char) : List (Way α) :=
  match t.matcher? with
  | some m => m.ways path
  | none => []

/-- The matchers that compete for the next part of a path. -/
def candidates (t : Trie Segment α) : List (Matcher α) :=
  (branch t.children).candidates

/-- The matcher of a node is that of its children behind a slash, the end of the path, or the
choice of both. -/
theorem matcher?_cases {t : Trie Segment α} {m : Matcher α} (h : t.matcher? = some m) :
    (∃ payload, m = .data payload) ∨
      (t.candidates ≠ [] ∧ (m = .prefixed "/" (.alternatives t.candidates) ∨
        ∃ payload, m = .alternatives
          [.prefixed "/" (.alternatives t.candidates), .data payload])) := by
  obtain ⟨payload, children⟩ := t
  rw [matcher?] at h
  rw [candidates]
  cases hcandidates : (branch children).candidates with
  | nil =>
    rw [hcandidates] at h
    cases payload with
    | none => cases h
    | some payload => exact .inl ⟨payload, (Option.some.inj h).symm⟩
  | cons first rest =>
    rw [hcandidates] at h
    refine .inr ⟨List.cons_ne_nil first rest, ?_⟩
    cases payload with
    | none => exact .inl (Option.some.inj h).symm
    | some payload => exact .inr ⟨payload, (Option.some.inj h).symm⟩

theorem ways_ofCandidates? (members : List (Matcher α)) (path : List Char) :
    (match Matcher.ofCandidates? members with
      | some m => m.ways path
      | none => []) = memberWays (sortByRank members) path := by
  cases members with
  | nil => rw [sortByRank, Matcher.Rank.sortBy, List.foldr_nil, memberWays, Matcher.ofCandidates?]
  | cons m rest => exact Matcher.ways_alternatives (m :: rest) path

theorem ways_prefixed_slash (m : Matcher α) (path : List Char) :
    (Matcher.prefixed "/" m).ways path =
      match path with
      | [] => []
      | c :: rest => if c = '/' then m.ways rest else [] := by
  have hslash : "/".toList = ['/'] := rfl
  rw [Matcher.ways_prefixed, hslash]
  cases path with
  | nil => rfl
  | cons c rest =>
    rw [List.isPrefixOf?]
    by_cases hc : c = '/'
    · rw [if_pos (beq_iff_eq.mpr hc.symm)]
      cases rest <;> exact (if_pos hc).symm
    · rw [if_neg (mt beq_iff_eq.mp (Ne.symm hc))]
      exact (if_neg hc).symm

theorem ways_data (payload : α) (path : List Char) :
    (Matcher.data payload).ways path = if path = [] then [⟨payload, []⟩] else [] := by
  rw [Matcher.data, Matcher.ways]
  cases path <;> rfl

/-- Where only one of two matchers has a way, their order does not matter. -/
theorem memberWays_sortByRank_pair {a b : Matcher α} {path : List Char}
    (h : a.ways path = [] ∨ b.ways path = []) :
    memberWays (sortByRank [a, b]) path = a.ways path ++ b.ways path := by
  rw [sortByRank, Matcher.Rank.sortBy, List.foldr_cons, List.foldr_cons, List.foldr_nil,
    Matcher.Rank.insertBy, Matcher.Rank.insertBy]
  split
  · rw [memberWays, memberWays, memberWays, List.append_nil]
  · rw [Matcher.Rank.insertBy, memberWays, memberWays, memberWays, List.append_nil]
    rcases h with h | h <;> rw [h] <;> simp

/-- What goes on behind a slash and what ends at a node never compete. -/
theorem ways_eq (t : Trie Segment α) (path : List Char) :
    t.ways path =
      match path with
      | [] => t.payload.toList.map (⟨·, []⟩)
      | c :: rest => if c = '/' then memberWays (sortByRank t.candidates) rest else [] := by
  obtain ⟨payload, children⟩ := t
  have hinner : ∀ rest, memberWays (sortByRank (branch children).candidates) rest =
      match Matcher.ofCandidates? (branch children).candidates with
      | some m => m.ways rest
      | none => [] :=
    fun rest => (ways_ofCandidates? _ rest).symm
  rw [ways, matcher?, ways_ofCandidates?]
  simp only [candidates, hinner]
  -- Each of the two may be missing. If both are there, the path decides between them.
  cases Matcher.ofCandidates? (branch children).candidates with
  | none =>
    cases payload with
    | none => cases path <;> simp [Matcher.Rank.sortBy, memberWays]
    | some payload =>
      cases path <;> simp [Matcher.Rank.sortBy, memberWays, Matcher.Rank.insertBy, ways_data]
  | some m =>
    cases payload with
    | none =>
      cases path <;>
        simp [Matcher.Rank.sortBy, Matcher.Rank.insertBy, memberWays, ways_prefixed_slash]
    | some payload =>
      change memberWays (sortByRank [.prefixed "/" m, .data payload]) path = _
      rw [memberWays_sortByRank_pair, ways_prefixed_slash, ways_data]
      · cases path <;> simp
      · rw [ways_prefixed_slash, ways_data]
        cases path <;> simp

@[simp] theorem ways_nil (t : Trie Segment α) :
    t.ways [] = t.payload.toList.map (⟨·, []⟩) :=
  t.ways_eq []

@[simp] theorem ways_slash (t : Trie Segment α) (rest : List Char) :
    t.ways ('/' :: rest) = memberWays (sortByRank t.candidates) rest :=
  t.ways_eq ('/' :: rest)

/-- A node stands behind a whole part, so it has no ways in the middle of one. -/
theorem ways_of_ne_slash (t : Trie Segment α) {c : Char} (h : c ≠ '/') (rest : List Char) :
    t.ways (c :: rest) = [] := by
  rw [ways_eq]
  exact if_neg h

end Trie

end PathRouting
