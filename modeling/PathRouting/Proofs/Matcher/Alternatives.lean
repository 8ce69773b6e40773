import Mathlib.Data.List.Perm.Subperm
import PathRouting.Proofs.Matcher.Counting

/-!
# Alternatives are a union with a fixed precedence

Of several matchers the one that is tried first is settled by what they are: those that
capture all of the rest come last, the deeper ones first, and of equally deep ones those with
the longer literal. Only matchers that are alike in all of this keep the order in which they
were given. There is one such order, and the alternatives match where some member does, as
the first one in this order that matches.

The depths that count here are those that are counted in the word at hand. Where a count
stops, there is no order and nothing to look up.

## Main definitions

* `Matcher.Rank.MayPrecede` — a matcher of one rank may be tried before one of another
* `Matcher.Rank.Rearranged` — the same values, with those of each rank in the same order
* `Matcher.Rank.StableOrder` — the values by precedence, with those of each rank as given
* `Matcher.RankedBy` — what the counted ranks of alternatives are

## Main results

* `Matcher.Rank.stableOrder_iff` — sorting by rank gives the one stable order
* `Matcher.Rank.sortBy_eq_iff` — which lists are sorted alike
* `Matcher.head?_memberWays_append_catchAll` — nothing behind a catch-all is tried
* `Matcher.alternatives_union` — what alternatives are, and what they match
-/

namespace PathRouting

universe u

namespace Matcher

namespace Rank

/-! ### The order of ranks -/

theorem le_refl (r : Rank) : r.le r = true := by
  simpa using r.le_total r

theorem le_antisymm {a b : Rank} (hab : a.le b = true) (hba : b.le a = true) : a = b := by
  obtain ⟨ca, da, la⟩ := a
  obtain ⟨cb, db, lb⟩ := b
  simp only [le_iff] at hab hba
  rw [mk.injEq]
  cases ca <;> cases cb <;> simp only [true_and, false_and, and_true, and_false, or_false, false_or,
    reduceCtorEq] at hab hba ⊢ <;> omega

/-- Whether a matcher of one rank may be tried before one of another: catch-alls come last,
the deeper one comes first, and of equally deep ones the one with the longer literal. -/
def MayPrecede (a b : Rank) : Prop :=
  (a.isCatchAll = false ∧ b.isCatchAll = true) ∨
    (a.isCatchAll = b.isCatchAll ∧
      (b.depth < a.depth ∨ (a.depth = b.depth ∧ b.literalLength ≤ a.literalLength)))

theorem mayPrecede_iff {a b : Rank} : a.MayPrecede b ↔ a.le b = true :=
  le_iff.symm

/-! ### The order of the members -/

variable {β : Type u}

/-- Two lists have the same values, each as often, and those of each rank stand in the same
order. -/
structure Rearranged (rank : β → Rank) (xs ys : List β) : Prop where
  perm : xs.Perm ys
  filter_eq : ∀ r : Rank, (xs.filter fun x => rank x = r) = ys.filter fun y => rank y = r

/-- The values in an order in which each may precede those behind it, and in which values of
one rank stand as they were given. -/
structure StableOrder (rank : β → Rank) (xs order : List β) : Prop where
  rearranged : Rearranged rank xs order
  mayPrecede : order.Pairwise fun a b => (rank a).MayPrecede (rank b)

variable {rank : β → Rank}

namespace Rearranged

variable {xs ys zs : List β}

theorem symm (h : Rearranged rank xs ys) : Rearranged rank ys xs :=
  ⟨h.perm.symm, fun r => (h.filter_eq r).symm⟩

theorem trans (h : Rearranged rank xs ys) (h' : Rearranged rank ys zs) : Rearranged rank xs zs :=
  ⟨h.perm.trans h'.perm, fun r => (h.filter_eq r).trans (h'.filter_eq r)⟩

/-- Lists that begin with the same value are rearranged in what follows it. -/
theorem of_cons {x : β} (h : Rearranged rank (x :: xs) (x :: ys)) : Rearranged rank xs ys := by
  refine ⟨h.perm.cons_inv, ?_⟩
  intro r
  have hfilter := h.filter_eq r
  rw [List.filter_cons, List.filter_cons] at hfilter
  split at hfilter
  · exact (List.cons.inj hfilter).2
  · exact hfilter

/-- Lists that begin with values of one rank begin with the same value. -/
theorem head_eq {x y : β} (h : Rearranged rank (x :: xs) (y :: ys)) (hrank : rank x = rank y) :
    x = y := by
  have hfilter := h.filter_eq (rank x)
  rw [List.filter_cons_of_pos (by simp), List.filter_cons_of_pos (by simp [hrank])] at hfilter
  exact (List.cons.inj hfilter).1

/-- Two orders of the same values by precedence are one. -/
theorem eq_of_pairwise (h : Rearranged rank xs ys)
    (hxs : xs.Pairwise fun a b => (rank a).MayPrecede (rank b))
    (hys : ys.Pairwise fun a b => (rank a).MayPrecede (rank b)) : xs = ys := by
  induction xs generalizing ys with
  | nil => exact h.perm.nil_eq
  | cons x xs ih =>
    cases ys with
    | nil => exact h.perm.eq_nil
    | cons y ys =>
      obtain ⟨hx, hxrest⟩ := List.pairwise_cons.mp hxs
      obtain ⟨hy, hyrest⟩ := List.pairwise_cons.mp hys
      -- Each of the two first values stands in the other list, so neither rank is lower.
      have hle : (rank x).le (rank y) = true := by
        rcases List.mem_cons.mp (h.perm.mem_iff.mpr List.mem_cons_self) with heq | hmem
        · rw [heq]
          exact le_refl _
        · exact mayPrecede_iff.mp (hx y hmem)
      have hle' : (rank y).le (rank x) = true := by
        rcases List.mem_cons.mp (h.perm.mem_iff.mp List.mem_cons_self) with heq | hmem
        · rw [heq]
          exact le_refl _
        · exact mayPrecede_iff.mp (hy x hmem)
      obtain rfl := h.head_eq (le_antisymm hle hle')
      rw [ih h.of_cons hxrest hyrest]

end Rearranged

/-- A value is put before all others of its rank, as it stood before. -/
theorem filter_insertBy (x : β) (xs : List β) (r : Rank) :
    ((insertBy rank x xs).filter fun y => rank y = r) = (x :: xs).filter fun y => rank y = r := by
  induction xs with
  | nil => rfl
  | cons y rest ih =>
    rw [insertBy]
    split
    · rfl
    · -- The two change places, so they differ in rank and one of them is left out.
      rename_i hnot
      have hne : ¬ (rank x = r ∧ rank y = r) := by
        rintro ⟨hx, hy⟩
        rw [hx, hy] at hnot
        exact hnot (le_refl r)
      rw [List.filter_cons, ih]
      simp only [List.filter_cons, decide_eq_true_eq]
      grind

theorem stableOrder_sortBy (rank : β → Rank) (xs : List β) :
    StableOrder rank xs (sortBy rank xs) := by
  refine ⟨⟨(sortBy_perm rank xs).symm, ?_⟩, ?_⟩
  · intro r
    induction xs with
    | nil => rfl
    | cons x rest ih =>
      change _ = (insertBy rank x (sortBy rank rest)).filter _
      rw [filter_insertBy, List.filter_cons, List.filter_cons, ih]
  · exact (sortBy_pairwise rank xs).imp mayPrecede_iff.mpr

/-- There is one stable order. -/
theorem stableOrder_iff {xs order : List β} :
    StableOrder rank xs order ↔ order = sortBy rank xs := by
  have hsorted := stableOrder_sortBy rank xs
  constructor
  · intro h
    exact (h.rearranged.symm.trans hsorted.rearranged).eq_of_pairwise h.mayPrecede
      hsorted.mayPrecede
  · rintro rfl
    exact hsorted

/-- Lists are sorted alike just if they have the same values, with those of each rank in the
same order. -/
theorem sortBy_eq_iff {xs ys : List β} :
    sortBy rank xs = sortBy rank ys ↔ Rearranged rank xs ys := by
  have hxs := stableOrder_sortBy rank xs
  have hys := stableOrder_sortBy rank ys
  constructor
  · intro h
    rw [h] at hxs
    exact hxs.rearranged.trans hys.rearranged.symm
  · intro h
    exact stableOrder_iff.mp ⟨h.symm.trans hxs.rearranged, hxs.mayPrecede⟩

end Rank

variable {α : Type u}

/-- Whether a matcher may be tried before another one, by their exact ranks. -/
def MayPrecede (a b : Matcher α) : Prop :=
  a.rank.MayPrecede b.rank

theorem mayPrecede_iff {a b : Matcher α} : a.MayPrecede b ↔ a.rank.le b.rank = true :=
  Rank.mayPrecede_iff

/-- What the ranks of alternatives are, as they are counted in a word. A single one has no
rank to be counted. -/
def RankedBy (word : Word) (rank : Matcher α → Rank) (members : List (Matcher α)) : Prop :=
  2 ≤ members.length → ∀ m ∈ members, m.rankIn word = .ok (rank m)

/-! ### What they match -/

theorem isSome_lookup_iff {m : Matcher α} {path : String} :
    (m.lookup path).isSome ↔ (m.ways path.toList).head?.isSome := by
  rw [lookup_eq, Option.isSome_map]

theorem lookupLogged_of_head?_eq_none {m : Matcher α} {path : String}
    (h : (m.ways path.toList).head? = none) : m.lookupLogged path = (none, []) := by
  rw [lookupLogged, find_eq, h]
  rfl

/-- The members are tried until one matches. -/
theorem head?_memberWays (members : List (Matcher α)) (path : String) :
    (memberWays members path.toList).head? =
      (members.find? fun m => (m.lookup path).isSome).bind fun m =>
        (m.ways path.toList).head? := by
  induction members with
  | nil => rw [memberWays]; rfl
  | cons m rest ih =>
    rw [memberWays, List.head?_append, List.find?_cons]
    cases hm : (m.ways path.toList).head? with
    | none =>
      have hfails : (m.lookup path).isSome = false := by
        rw [← Bool.not_eq_true, isSome_lookup_iff, hm]
        simp
      rw [hfails, ih]
      rfl
    | some way =>
      have hmatches : (m.lookup path).isSome = true := isSome_lookup_iff.mpr (by rw [hm]; rfl)
      rw [hmatches]
      simp [hm]

theorem memberWays_append (front back : List (Matcher α)) (path : List Char) :
    memberWays (front ++ back) path = memberWays front path ++ memberWays back path := by
  induction front with
  | nil => rw [memberWays]; rfl
  | cons m front ih => rw [List.cons_append, memberWays, memberWays, ih, List.append_assoc]

/-- A catch-all matches every path, so nothing behind it is tried. -/
theorem head?_memberWays_append_catchAll (front back rest : List (Matcher α)) (name : String)
    (payload : α) (path : List Char) :
    (memberWays (front ++ .catchAll name payload :: back) path).head? =
      (memberWays (front ++ .catchAll name payload :: rest) path).head? := by
  rw [memberWays_append, memberWays_append, memberWays, memberWays, ways]
  simp only [List.head?_append, List.head?_cons, Option.some_or]

/-- Matchers that are tried in turn match as the first of them does that matches. -/
theorem lookupLogged_inTurn (order : List (Matcher α)) (path : String) :
    (inTurn order).lookupLogged path =
      match order.find? fun m => (m.lookup path).isSome with
      | some m => m.lookupLogged path
      | none => (none, []) := by
  have hfirst : ((inTurn order).ways path.toList).head? = _ :=
    (congrArg List.head? (ways_inTurn order path.toList)).trans (head?_memberWays order path)
  cases hfound : order.find? fun m => (m.lookup path).isSome with
  | none =>
    rw [hfound] at hfirst
    exact lookupLogged_of_head?_eq_none hfirst
  | some m =>
    rw [hfound] at hfirst
    exact lookupLogged_congr hfirst

theorem isSome_lookup_inTurn_iff (order : List (Matcher α)) (path : String) :
    ((inTurn order).lookup path).isSome ↔ ∃ m ∈ order, (m.lookup path).isSome := by
  rw [← List.find?_isSome (p := fun m : Matcher α => (m.lookup path).isSome), lookup,
    lookupLogged_inTurn]
  cases hfound : order.find? fun m => (m.lookup path).isSome with
  | none => simp
  | some m => simpa [lookup] using List.find?_some hfound

/-! ### Counted ranks -/

variable {word : Word} {rank : Matcher α → Rank} {members : List (Matcher α)}

/-- The ranks of alternatives are counted, or the word is checked, it does not have all of
the depths, and there are no alternatives. -/
theorem rankedBy_or_error (word : Word) (members : List (Matcher α)) :
    (∃ rank, RankedBy word rank members) ∨
      (word.checked = true ∧ 2 ≤ members.length ∧ (∃ m ∈ members, word.size ≤ m.depth) ∧
        alternativesIn word members = .error .next) := by
  by_cases hstop : 2 ≤ members.length ∧ ∃ m ∈ members, m.depthIn word = .error .next
  · have herror := alternativesIn_eq_error_iff.mpr hstop
    obtain ⟨hlength, m, hm, hdepth⟩ := hstop
    rcases returns_depthIn word m with ⟨n, hn, -⟩ | ⟨hchecked, hlarge, -⟩
    · rw [hn] at hdepth
      cases hdepth
    · exact .inr ⟨hchecked, hlength, ⟨m, hm, hlarge⟩, herror⟩
  · refine .inl ⟨fun m => (m.rankIn word).toOption.getD m.rank, ?_⟩
    intro hlength m hm
    cases hrank : m.rankIn word with
    | ok r =>
      change Except.ok r = .ok ((m.rankIn word).toOption.getD m.rank)
      rw [hrank]
      rfl
    | error e => exact absurd ⟨hlength, m, hm, rankIn_eq_error_iff.mp hrank⟩ hstop

namespace RankedBy

theorem alternativesIn_eq (h : RankedBy word rank members) :
    alternativesIn word members = .ok (inTurn (Rank.sortBy rank members)) :=
  alternativesIn_eq_ok h

/-- Fewer members have the same ranks. -/
theorem subset {members' : List (Matcher α)} (h : RankedBy word rank members)
    (hlength : members'.length ≤ members.length) (hsubset : members' ⊆ members) :
    RankedBy word rank members' :=
  fun htwo m hm => h (Nat.le_trans htwo hlength) m (hsubset hm)

theorem perm {members' : List (Matcher α)} (h : RankedBy word rank members)
    (hperm : members.Perm members') : RankedBy word rank members' :=
  h.subset (Nat.le_of_eq hperm.length_eq.symm) hperm.symm.subset

end RankedBy

/-- The ranks of alternatives are counted, or there are none: the word is checked and does
not have all of the depths. Once they are counted, there is one stable order of the members,
and alternatives are tried in this order, each member once. They match just where some member
does, with the result and the reports of the first one in the order that matches. Lists that
have the same members, with those of each rank in the same order, make the same matcher.
Members behind the first catch-all can be removed, from the result or from what it is made
of, and it still finds the same. -/
theorem alternatives_union (word : Word) (members : List (Matcher α)) :
    ((∃ rank, RankedBy word rank members) ∨
      (word.checked = true ∧ 2 ≤ members.length ∧ (∃ m ∈ members, word.size ≤ m.depth) ∧
        alternativesIn word members = .error .next)) ∧
      ∀ rank, RankedBy word rank members →
        (∃! order, Rank.StableOrder rank members order) ∧
        ∀ order, Rank.StableOrder rank members order →
          alternativesIn word members = .ok (inTurn order) ∧
          (∀ path, ((inTurn order).lookup path).isSome ↔
            ∃ m ∈ members, (m.lookup path).isSome) ∧
          (∀ path, (inTurn order).lookupLogged path =
            match order.find? fun m => (m.lookup path).isSome with
            | some m => m.lookupLogged path
            | none => (none, [])) ∧
          (∀ members', Rank.Rearranged rank members members' →
            alternativesIn word members' = alternativesIn word members) ∧
          ∀ front name payload back, order = front ++ .catchAll name payload :: back →
            ∀ rest, rest.Sublist back →
              Agree (choice (front ++ .catchAll name payload :: rest)) (inTurn order) ∧
              ∀ kept, Rank.StableOrder rank kept (front ++ .catchAll name payload :: rest) →
                ∃ m, alternativesIn word kept = .ok m ∧ Agree m (inTurn order) := by
  refine ⟨rankedBy_or_error word members, ?_⟩
  intro rank hranked
  refine ⟨⟨_, Rank.stableOrder_sortBy rank members, fun _ => Rank.stableOrder_iff.mp⟩, ?_⟩
  intro order horder
  have hmem : ∀ {m}, m ∈ members ↔ m ∈ order := horder.rearranged.perm.mem_iff
  obtain rfl := Rank.stableOrder_iff.mp horder
  refine ⟨hranked.alternativesIn_eq, ?_, lookupLogged_inTurn _, ?_, ?_⟩
  · intro path
    simp only [isSome_lookup_inTurn_iff, hmem]
  · intro members' h
    rw [hranked.alternativesIn_eq, (hranked.perm h.perm).alternativesIn_eq,
      Rank.sortBy_eq_iff.mpr h]
  · intro front name payload back hsplit rest hrest
    have hways : ∀ path, (memberWays (front ++ .catchAll name payload :: rest) path).head? =
        ((inTurn (Rank.sortBy rank members)).ways path).head? := by
      intro path
      rw [ways_inTurn, hsplit]
      exact head?_memberWays_append_catchAll front rest back name payload path
    refine ⟨.of_ways ?_, ?_⟩
    · intro path
      rw [ways, hways]
    · intro kept hkept
      -- What is kept is among the members, so its ranks are counted as well.
      have hsublist : (front ++ .catchAll name payload :: rest).Sublist
          (Rank.sortBy rank members) := by
        rw [hsplit]
        exact (hrest.cons_cons _).append_left front
      have hsubperm := hkept.rearranged.perm.subperm.trans
        (hsublist.subperm.trans (Rank.sortBy_perm rank members).subperm)
      refine ⟨_, (hranked.subset hsubperm.length_le hsubperm.subset).alternativesIn_eq, ?_⟩
      apply Agree.of_ways
      intro path
      rw [ways_inTurn, ← Rank.stableOrder_iff.mp hkept, hways]

/-- The greatest depth of a word is stored below a parameter. In an unchecked word the
parameter has depth zero, so it is tried after the literal. The catch-all that was given last
is never tried, and the others may be given in another order. In a checked word there are no
alternatives. -/
theorem alternatives_union_two_catchAlls :
    let word : Word := ⟨64, false⟩
    let rank : Matcher Nat → Rank
      | .literal _ _ _ => ⟨false, 2, 1⟩
      | .wild _ _ => ⟨false, 0, 0⟩
      | _ => ⟨true, 1, 0⟩
    let a : Matcher Nat := .literal "a" 2 (.leaf (some 1))
    let x : Matcher Nat := .wild "x" (.literal "" 0xFFFFFFFFFFFFFFFF (.leaf (some 2)))
    let rest : Matcher Nat := .catchAll "rest" 3
    let all : Matcher Nat := .catchAll "all" 4
    RankedBy word rank [rest, x, a, all] ∧
      Rank.StableOrder rank [rest, x, a, all] [a, x, rest, all] ∧
      Rank.Rearranged rank [rest, x, a, all] [x, rest, a, all] ∧
      alternativesIn word [x, rest, a, all] = .ok (.choice [a, x, rest, all]) ∧
      Rank.StableOrder rank [rest, x, a] [a, x, rest] ∧
      (∃ m, alternativesIn word [rest, x, a] = .ok m ∧ Agree m (.choice [a, x, rest, all])) ∧
      (Matcher.choice [a, x, rest, all]).lookup "a" = some ⟨1, ⟨[]⟩⟩ ∧
      alternativesIn ⟨64, true⟩ [rest, x, a, all] = .error .next := by
  intro word rank a x rest all
  have hranked : RankedBy word rank [rest, x, a, all] := by
    intro _ m hm
    simp only [List.mem_cons, List.not_mem_nil, or_false] at hm
    rcases hm with rfl | rfl | rfl | rfl <;> decide
  have horder : Rank.StableOrder rank [rest, x, a, all] [a, x, rest, all] :=
    Rank.stableOrder_iff.mpr rfl
  have hrearranged : Rank.Rearranged rank [rest, x, a, all] [x, rest, a, all] :=
    Rank.sortBy_eq_iff.mp rfl
  have hkept : Rank.StableOrder rank [rest, x, a] [a, x, rest] := Rank.stableOrder_iff.mpr rfl
  obtain ⟨-, hunion⟩ := (alternatives_union word [rest, x, a, all]).2 rank hranked
  obtain ⟨hchoice, -, -, hsame, hremove⟩ := hunion _ horder
  refine ⟨hranked, horder, hrearranged, (hsame _ hrearranged).trans hchoice, hkept, ?_, ?_, rfl⟩
  · exact (hremove [a, x] "rest" 3 [all] rfl [] (List.nil_sublist _)).2 _ hkept
  · decide +kernel

end Matcher

end PathRouting
