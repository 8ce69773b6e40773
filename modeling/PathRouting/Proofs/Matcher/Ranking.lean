import Mathlib.Data.List.Forall2
import PathRouting.Proofs.Matcher.Ways

/-!
# Ways through the smart constructors

The smart constructors fold literals and sort alternatives. Folding changes no way, and
sorting changes only their order: of two alternatives, the one with the lower rank is tried
first, and members of one rank are tried in the given order.

## Main definitions

* `Matcher.folded`, `Matcher.inTurn` — what the smart constructors make once depths are counted

## Main results

* `Matcher.ways_prefixed` — a folded literal has the ways of its two halves in turn
* `Matcher.ways_alternatives` — alternatives have the ways of their members by rank
* `Matcher.Rank.sortBy_stable` — values that change places differ in rank
* `Matcher.Rank.forall₂_sortBy` — values of the same ranks are sorted alike
* `Matcher.head?_memberWays_eq_some` — the first way is that of the first member with one
* `Matcher.depth_prefixed`, `Matcher.depth_alternatives_le_iff` — depths, by bounds
-/

namespace PathRouting

theorem isPrefixOf?_append (front back : List Char) (path : List Char) :
    (front ++ back).isPrefixOf? path = (front.isPrefixOf? path).bind back.isPrefixOf? := by
  -- Both sides take the front off character by character.
  induction front generalizing path with
  | nil => cases path <;> rfl
  | cons c front ih =>
    cases path with
    | nil => rfl
    | cons d path =>
      rw [List.cons_append, List.isPrefixOf?, List.isPrefixOf?]
      split
      · exact ih path
      · rfl

namespace Matcher

universe u v

variable {α : Type u}

/-! ### Smart constructors -/

/-- The literal of `text` in front of a matcher, as deep as is said. A literal is folded into
it. -/
def folded (text : String) (depth : Nat) : Matcher α → Matcher α
  | literal more _ child => literal (text ++ more) depth child
  | child => literal text depth child

/-- The matcher that tries the given ones in turn. One needs no choice, and none never
match. -/
def inTurn : List (Matcher α) → Matcher α
  | [] => leaf none
  | [m] => m
  | order => choice order

theorem inTurn_of_two_le {order : List (Matcher α)} (h : 2 ≤ order.length) :
    inTurn order = choice order := by
  match order, h with
  | _ :: _ :: _, _ => rfl

theorem prefixed_eq_folded (text : String) (m : Matcher α) :
    prefixed text m = folded text (m.depth + 1) m := by
  cases m <;> rfl

theorem alternatives_eq_inTurn (members : List (Matcher α)) :
    alternatives members = inTurn (sortByRank members) := by
  match members with
  | [] => rfl
  | [m] => rfl
  | m :: n :: rest =>
    -- Sorting keeps the number of members.
    have hlength := (Rank.sortBy_perm rank (m :: n :: rest)).length_eq
    exact (inTurn_of_two_le (by rw [hlength]; simp)).symm

/-! ### Ways -/

theorem ways_literal (text : String) (depth : Nat) (child : Matcher α) (path : List Char) :
    (literal text depth child).ways path =
      match text.toList.isPrefixOf? path with
      | some rest => child.ways rest
      | none => [] := by
  cases hpath : text.toList.isPrefixOf? path <;> simp only [ways, hpath]

theorem ways_folded (text : String) (depth : Nat) (m : Matcher α) (path : List Char) :
    (folded text depth m).ways path =
      match text.toList.isPrefixOf? path with
      | some rest => m.ways rest
      | none => [] := by
  cases m with
  | literal more depth' child =>
    -- The folded text is a prefix just if both texts are, one after the other.
    rw [folded, ways_literal, String.toList_append, isPrefixOf?_append]
    cases text.toList.isPrefixOf? path with
    | none => rfl
    | some rest => exact (ways_literal more depth' child rest).symm
  | dispatch entries => exact ways_literal text _ _ path
  | wild name child => exact ways_literal text _ _ path
  | catchAll name payload => exact ways_literal text _ _ path
  | leaf payload => exact ways_literal text _ _ path
  | choice members => exact ways_literal text _ _ path

theorem ways_prefixed (text : String) (m : Matcher α) (path : List Char) :
    (prefixed text m).ways path =
      match text.toList.isPrefixOf? path with
      | some rest => m.ways rest
      | none => [] := by
  rw [prefixed_eq_folded, ways_folded]

theorem entryWays_eq (entries : List (String × Matcher α)) (part : String) (path : List Char) :
    entryWays entries part path =
      match entries.lookup part with
      | some child => child.ways path
      | none => [] := by
  induction entries with
  | nil => rw [entryWays, List.lookup_nil]
  | cons entry rest ih =>
    obtain ⟨key, child⟩ := entry
    rw [entryWays]
    by_cases hkey : part = key
    · rw [if_pos hkey, hkey, List.lookup_cons_self]
    · rw [if_neg hkey, List.lookup_cons, beq_eq_false_iff_ne.mpr hkey, ih]

theorem ways_inTurn (order : List (Matcher α)) (path : List Char) :
    (inTurn order).ways path = memberWays order path := by
  match order with
  | [] => simp [inTurn, ways, memberWays]
  | [m] => rw [inTurn, memberWays, memberWays, List.append_nil]
  | m :: n :: rest => rw [inTurn_of_two_le (by simp), ways]

theorem ways_alternatives (members : List (Matcher α)) (path : List Char) :
    (alternatives members).ways path = memberWays (sortByRank members) path := by
  rw [alternatives_eq_inTurn, ways_inTurn]

theorem head?_memberWays_eq_none {members : List (Matcher α)} {path : List Char}
    (h : (memberWays members path).head? = none) :
    ∀ m ∈ members, (m.ways path).head? = none := by
  induction members with
  | nil => simp
  | cons m rest ih =>
    rw [memberWays, List.head?_append, Option.or_eq_none_iff] at h
    exact List.forall_mem_cons.mpr ⟨h.1, ih h.2⟩

/-- The first way is that of the first member that has one. -/
theorem head?_memberWays_eq_some {members : List (Matcher α)} {path : List Char} {way : Way α}
    (h : (memberWays members path).head? = some way) :
    ∃ front m back, members = front ++ m :: back ∧
      (∀ n ∈ front, (n.ways path).head? = none) ∧ (m.ways path).head? = some way := by
  induction members with
  | nil => simp [memberWays] at h
  | cons m rest ih =>
    rw [memberWays, List.head?_append] at h
    cases hm : (m.ways path).head? with
    | some first =>
      -- The first member has a way, so the front is empty.
      rw [hm] at h
      exact ⟨[], m, rest, rfl, by simp, hm.trans h⟩
    | none =>
      rw [hm] at h
      obtain ⟨front, n, back, rfl, hfront, hn⟩ := ih h
      exact ⟨m :: front, n, back, rfl, List.forall_mem_cons.mpr ⟨hm, hfront⟩, hn⟩

/-! ### Order -/

namespace Rank

variable {β : Type u} (rank : β → Rank)

theorem insertBy_stable {before : β → β → Prop} {x : β} {xs : List β}
    (h : xs.Pairwise fun a b => (rank a).le (rank b) = true ∧
      (before a b ∨ before b a ∧ (rank b).le (rank a) = false))
    (hx : ∀ y ∈ xs, before x y) :
    (insertBy rank x xs).Pairwise fun a b => (rank a).le (rank b) = true ∧
      (before a b ∨ before b a ∧ (rank b).le (rank a) = false) := by
  -- The invariant says of every two values how they came to stand in this order.
  induction xs with
  | nil => exact List.pairwise_singleton _ _
  | cons y rest ih =>
    obtain ⟨hy, hrest⟩ := List.pairwise_cons.mp h
    obtain ⟨hxy, hxrest⟩ := List.forall_mem_cons.mp hx
    rw [insertBy]
    split
    · -- The new value goes in front, where it stood before.
      rename_i hle
      refine List.pairwise_cons.mpr ⟨?_, h⟩
      intro z hz
      refine ⟨?_, .inl (hx z hz)⟩
      rcases List.mem_cons.mp hz with rfl | hz
      · exact hle
      · exact le_trans hle (hy z hz).1
    · -- The new value moves behind `y`, so its rank is higher.
      rename_i hnot
      refine List.pairwise_cons.mpr ⟨?_, ih hrest hxrest⟩
      intro z hz
      rcases List.mem_cons.mp ((insertBy_perm rank x rest).mem_iff.mp hz) with rfl | hz
      · have htotal := le_total (rank z) (rank y)
        rw [Bool.not_eq_true] at hnot
        rw [hnot, Bool.false_or] at htotal
        exact ⟨htotal, .inr ⟨hxy, hnot⟩⟩
      · exact hy z hz

/-- Sorting puts values of lower rank first, and values that change places differ in rank. -/
theorem sortBy_stable {before : β → β → Prop} {xs : List β} (h : xs.Pairwise before) :
    (sortBy rank xs).Pairwise fun a b => (rank a).le (rank b) = true ∧
      (before a b ∨ before b a ∧ (rank b).le (rank a) = false) := by
  induction xs with
  | nil => exact .nil
  | cons x rest ih =>
    obtain ⟨hx, hrest⟩ := List.pairwise_cons.mp h
    apply insertBy_stable rank (ih hrest)
    intro y hy
    exact hx y ((sortBy_perm rank rest).mem_iff.mp hy)

variable {rank} {γ : Type v} {rank' : γ → Rank}

/-- Values that are related by a relation that keeps ranks are sorted alike. -/
theorem forall₂_sortBy {R : β → γ → Prop} (hrank : ∀ {x y}, R x y → rank x = rank' y)
    {xs : List β} {ys : List γ} (h : List.Forall₂ R xs ys) :
    List.Forall₂ R (sortBy rank xs) (sortBy rank' ys) := by
  have hinsert : ∀ {x y} {xs : List β} {ys : List γ}, R x y → List.Forall₂ R xs ys →
      List.Forall₂ R (insertBy rank x xs) (insertBy rank' y ys) := by
    intro x y xs ys hxy h
    induction h with
    | nil => exact .cons hxy .nil
    | cons hhead htail ih =>
      rw [insertBy, insertBy, hrank hxy, hrank hhead]
      split
      · exact .cons hxy (.cons hhead htail)
      · exact .cons hhead ih
  induction h with
  | nil => exact .nil
  | cons hhead _ ih => exact hinsert hhead ih

/-- Values may be replaced by others of their ranks before or after they are sorted. -/
theorem map_sortBy {f : β → γ} (hrank : ∀ x, rank' (f x) = rank x) (xs : List β) :
    (sortBy rank xs).map f = sortBy rank' (xs.map f) := by
  have himages : List.Forall₂ (fun x y => f x = y) xs (xs.map f) :=
    List.forall₂_map_right_iff.mpr (List.forall₂_same.mpr fun _ _ => rfl)
  have hsorted : List.Forall₂ (fun x y => f x = y) (sortBy rank xs) (sortBy rank' (xs.map f)) := by
    refine forall₂_sortBy ?_ himages
    rintro x _ rfl
    exact (hrank x).symm
  exact List.forall₂_eq_eq_eq ▸ List.forall₂_map_left_iff.mpr hsorted

end Rank

/-! ### Depth -/

theorem depth_prefixed (text : String) (m : Matcher α) :
    (prefixed text m).depth = m.depth + 1 := by
  cases m <;> simp [prefixed, depth]

theorem entriesDepth_le_iff {entries : List (String × Matcher α)} {n : Nat} :
    entriesDepth entries ≤ n ↔ ∀ entry ∈ entries, entry.2.depth ≤ n := by
  induction entries with
  | nil => simp [entriesDepth]
  | cons entry rest ih => rw [entriesDepth, Nat.max_le, ih, List.forall_mem_cons]

theorem membersDepth_le_iff {members : List (Matcher α)} {n : Nat} :
    membersDepth members ≤ n ↔ ∀ m ∈ members, m.depth ≤ n := by
  induction members with
  | nil => simp [membersDepth]
  | cons m rest ih => rw [membersDepth, Nat.max_le, ih, List.forall_mem_cons]

theorem depth_alternatives_le_iff {members : List (Matcher α)} (h : members ≠ []) {n : Nat} :
    (alternatives members).depth ≤ n ↔ ∀ m ∈ members, m.depth ≤ n := by
  match members with
  | [] => exact absurd rfl h
  | [m] => simp [alternatives]
  | m :: m' :: rest =>
    change (choice (sortByRank (m :: m' :: rest))).depth ≤ n ↔ _
    rw [depth, membersDepth_le_iff]
    exact forall_congr' fun x => by rw [(Rank.sortBy_perm rank _).mem_iff]

end Matcher

end PathRouting
