import PathRouting.Dict

/-!
# Matchers

A matcher is a tree that is walked along a path. Inner nodes take text off the front of the
path and hand on the rest; the nodes at the ends hold payloads. Any tree can be written
down; the smart constructors fold literals into one and put choices in order. Depths are exact
here; how they are counted in machine words is in `PathRouting.Matcher.Word`.

## Main definitions

* `Matcher` — the tree
* `Matcher.depth` — the length of its longest chain of nodes, before literals are folded
* `Matcher.prefixed`, `Matcher.table`, `Matcher.data`, `Matcher.alternatives` — the smart
  constructors
* `Matcher.Rank` — the order in which alternatives are tried
* `Matcher.Rank.sortBy` — the stable sort by ranks

## Main results

* `Matcher.Rank.sortBy_perm` — sorting keeps every value
* `Matcher.Rank.sortBy_pairwise` — sorting puts values of lower rank first
* `Matcher.Rank.le_total`, `Matcher.Rank.le_trans` — ranks are in a total order
-/

namespace PathRouting

universe u

/-- A tree that is walked along a path to a payload. -/
inductive Matcher (α : Type u) where
  /-- Text that the path has to begin with. The stored depth is that of the chain of
  literals that were folded into the text. -/
  | literal (text : String) (depth : Nat) (child : Matcher α)
  /-- A choice by the whole text up to the next slash. -/
  | dispatch (entries : List (String × Matcher α))
  /-- A parameter, which captures the text up to the next slash if there is any. -/
  | wild (name : String) (child : Matcher α)
  /-- A parameter that captures what remains of the path. -/
  | catchAll (name : String) (payload : α)
  /-- The end of the path. Without a payload it never matches. -/
  | leaf (payload : Option α)
  /-- Matchers that are tried in turn. -/
  | choice (members : List (Matcher α))

namespace Matcher

variable {α : Type u}

/-! ### Depth -/

mutual

/-- The length of the longest chain of nodes, before literals were folded, as the stored depths
tell it. A choice is not a node of its own. -/
def depth : Matcher α → Nat
  | literal _ depth _ => depth
  | dispatch entries => entriesDepth entries + 1
  | wild _ child => depth child + 1
  | catchAll _ _ => 1
  | leaf _ => 1
  | choice members => membersDepth members

/-- The greatest depth among the entries of a table, zero if there are none. -/
def entriesDepth : List (String × Matcher α) → Nat
  | [] => 0
  | (_, child) :: rest => max (depth child) (entriesDepth rest)

/-- The greatest depth among matchers, zero if there are none. -/
def membersDepth : List (Matcher α) → Nat
  | [] => 0
  | member :: rest => max (depth member) (membersDepth rest)

end

/-- The number of bytes of the literal text that a matcher begins with. -/
def literalLength : Matcher α → Nat
  | literal text _ _ => text.utf8ByteSize
  | _ => 0

/-- Whether a matcher captures what remains of the path, whatever it is. -/
def isCatchAll : Matcher α → Bool
  | catchAll _ _ => true
  | _ => false

/-! ### Precedence -/

/-- The place of a matcher among alternatives. -/
structure Rank where
  /-- Catch-alls come last. -/
  isCatchAll : Bool
  /-- The deeper of two matchers comes first. -/
  depth : Nat
  /-- Of two equally deep ones, the one with the longer literal text comes first. -/
  literalLength : Nat
deriving DecidableEq

namespace Rank

/-- Whether a matcher of rank `a` may stand before one of rank `b`. -/
def le (a b : Rank) : Bool :=
  if a.isCatchAll = b.isCatchAll then
    if a.depth = b.depth then decide (b.literalLength ≤ a.literalLength)
    else decide (b.depth < a.depth)
  else b.isCatchAll

/-- Catch-alls come last. Among others, and among catch-alls, the depth decides first and then the
length of the literal. -/
theorem le_iff {a b : Rank} :
    le a b = true ↔
      (a.isCatchAll = false ∧ b.isCatchAll = true) ∨
        (a.isCatchAll = b.isCatchAll ∧
          (b.depth < a.depth ∨ (a.depth = b.depth ∧ b.literalLength ≤ a.literalLength))) := by
  obtain ⟨ca, da, la⟩ := a
  obtain ⟨cb, db, lb⟩ := b
  by_cases hd : da = db <;> cases ca <;> cases cb <;> simp [le, hd]

/-- Any two ranks can be compared. -/
theorem le_total (a b : Rank) : (le a b || le b a) = true := by
  rw [Bool.or_eq_true, le_iff, le_iff]
  cases a.isCatchAll <;> cases b.isCatchAll <;> simp <;> omega

theorem le_trans {a b c : Rank} (hab : le a b = true) (hbc : le b c = true) :
    le a c = true := by
  rw [le_iff] at hab hbc ⊢
  cases ha : a.isCatchAll <;> cases hb : b.isCatchAll <;> cases hc : c.isCatchAll <;>
    simp only [ha, hb, hc, true_and, false_and, and_true, and_false, or_false, false_or,
      reduceCtorEq] at hab hbc ⊢ <;> omega

/-! ### Sorting -/

variable {β : Type u} (rank : β → Rank)

/-- Puts a value before the first one that it may stand before, by their ranks. -/
def insertBy (x : β) : List β → List β
  | [] => [x]
  | y :: rest => if (rank x).le (rank y) then x :: y :: rest else y :: insertBy x rest

/-- The values in the order of their ranks. Values of one rank keep their order. -/
def sortBy (xs : List β) : List β :=
  xs.foldr (insertBy rank) []

/-- The value is put in once, and no other is lost. -/
theorem insertBy_perm (x : β) (xs : List β) : (insertBy rank x xs).Perm (x :: xs) := by
  induction xs with
  | nil => exact .refl _
  | cons y rest ih =>
    unfold insertBy
    split
    · exact .refl _
    · exact (ih.cons y).trans (.swap x y rest)

/-- Sorting keeps every value. -/
theorem sortBy_perm (xs : List β) : (sortBy rank xs).Perm xs := by
  induction xs with
  | nil => exact .refl _
  | cons x rest ih => exact (insertBy_perm rank x _).trans (ih.cons x)

/-- Where a value is put, those before it and those behind it are in order with it. -/
theorem insertBy_pairwise (x : β) {xs : List β}
    (h : xs.Pairwise fun a b => (rank a).le (rank b)) :
    (insertBy rank x xs).Pairwise fun a b => (rank a).le (rank b) := by
  induction xs with
  | nil => simp [insertBy]
  | cons y rest ih =>
    obtain ⟨hy, hrest⟩ := List.pairwise_cons.mp h
    unfold insertBy
    split
    · rename_i hxy
      refine List.pairwise_cons.mpr ⟨?_, h⟩
      intro z hz
      rcases List.mem_cons.mp hz with rfl | hz
      · exact hxy
      · exact le_trans hxy (hy z hz)
    · -- Ranks are total, so what may not stand before `y` may stand behind it.
      rename_i hxy
      refine List.pairwise_cons.mpr ⟨?_, ih hrest⟩
      intro z hz
      rcases List.mem_cons.mp ((insertBy_perm rank x rest).mem_iff.mp hz) with rfl | hz
      · have := le_total (rank z) (rank y)
        simp_all
      · exact hy z hz

/-- Sorting puts values of lower rank first. -/
theorem sortBy_pairwise (xs : List β) :
    (sortBy rank xs).Pairwise fun a b => (rank a).le (rank b) := by
  induction xs with
  | nil => exact .nil
  | cons x rest ih => exact insertBy_pairwise rank x ih

end Rank

/-- The rank of a matcher. -/
def rank (m : Matcher α) : Rank :=
  ⟨m.isCatchAll, m.depth, m.literalLength⟩

/-- The matchers in the order of their ranks. Matchers of one rank keep their order. -/
abbrev sortByRank (members : List (Matcher α)) : List (Matcher α) :=
  Rank.sortBy rank members

/-- Sorting keeps the members. -/
theorem mem_sortByRank {m : Matcher α} {members : List (Matcher α)} :
    m ∈ sortByRank members ↔ m ∈ members :=
  (Rank.sortBy_perm rank members).mem_iff

/-! ### Smart constructors -/

/-- The matcher for `text` and then `child`. A literal child is folded into one literal,
which counts as deep as both. -/
def prefixed (text : String) : Matcher α → Matcher α
  | literal more depth child => literal (text ++ more) (depth + 1) child
  | child => literal text (child.depth + 1) child

/-- The table with the given entries. A repeated key keeps its first place and takes its
last child. -/
def table (entries : List (String × Matcher α)) : Matcher α :=
  dispatch (Dict.ofList entries)

/-- The end of a path, with a payload. -/
def data (payload : α) : Matcher α :=
  leaf (some payload)

/-- The matcher that tries the given ones by rank. One matcher needs no choice, and no
matchers never match. -/
def alternatives : List (Matcher α) → Matcher α
  | [] => leaf none
  | [m] => m
  | members => choice (sortByRank members)

end Matcher

end PathRouting
