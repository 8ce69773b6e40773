import PathRouting.Matcher
import PathRouting.Proofs.Dict.Keys

/-!
# Matchers inside of a matcher

A matcher is a tree, and what holds at every node of it is said of the matchers that stand
inside of it. The smart constructors build one new node at most, so what stands inside of
their result is that node or stood inside of what they were given.

## Main definitions

* `Matcher.Within` — a matcher is another one or stands inside of it
* `Matcher.Alive` — no leaf without a payload stands inside

## Main results

* `Matcher.Within.of_prefixed`, `Matcher.Within.of_alternatives`, `Matcher.Within.of_table` —
  what stands inside of the result of a smart constructor
* `Matcher.Alive.prefixed`, `Matcher.Alive.alternatives`, `Matcher.Alive.table` — they are alive
  if what they were given is
-/

namespace PathRouting

universe u

namespace Matcher

variable {α : Type u}

/-- A matcher is another one or stands inside of it. -/
inductive Within : Matcher α → Matcher α → Prop
  | self {m : Matcher α} : Within m m
  | literal {text : String} {depth : Nat} {m child : Matcher α} (h : Within m child) :
    Within m (.literal text depth child)
  | dispatch {entries : List (String × Matcher α)} {key : String} {m child : Matcher α}
    (hentry : (key, child) ∈ entries) (h : Within m child) : Within m (.dispatch entries)
  | wild {name : String} {m child : Matcher α} (h : Within m child) :
    Within m (.wild name child)
  | choice {members : List (Matcher α)} {m member : Matcher α} (hmember : member ∈ members)
    (h : Within m member) : Within m (.choice members)

namespace Within

variable {m n : Matcher α}

theorem of_prefixed {text : String} (h : n.Within (prefixed text m)) :
    n = prefixed text m ∨ n.Within m := by
  have hnew : ∀ {depth : Nat} {child : Matcher α}, n.Within (.literal text depth child) →
      n = .literal text depth child ∨ n.Within child := by
    intro depth child h
    cases h with
    | self => exact .inl rfl
    | literal h => exact .inr h
  cases m with
  | literal more depth child =>
    -- The literal that was folded away is gone, and its child is the child of the new one.
    cases h with
    | self => exact .inl rfl
    | literal h => exact .inr (.literal h)
  | dispatch entries => exact hnew h
  | wild name child => exact hnew h
  | catchAll name payload => exact hnew h
  | leaf payload => exact hnew h
  | choice members => exact hnew h

theorem of_alternatives {members : List (Matcher α)} (hne : members ≠ [])
    (h : n.Within (alternatives members)) :
    n = .choice (sortByRank members) ∨ ∃ m ∈ members, n.Within m := by
  match members with
  | [] => exact absurd rfl hne
  | [m] => exact .inr ⟨m, List.mem_singleton_self m, h⟩
  | m :: m' :: rest =>
    cases h with
    | self => exact .inl rfl
    | choice hmember h => exact .inr ⟨_, mem_sortByRank.mp hmember, h⟩

theorem of_table {entries : List (String × Matcher α)} (h : n.Within (table entries)) :
    n = table entries ∨ ∃ entry ∈ entries, n.Within entry.2 := by
  cases h with
  | self => exact .inl rfl
  | dispatch hentry h => exact .inr ⟨_, Dict.mem_of_mem_ofList hentry, h⟩

end Within

/-! ### Leaves without a payload -/

/-- Every leaf that stands inside has a payload. -/
def Alive (m : Matcher α) : Prop :=
  ¬ Within (.leaf none) m

variable {m : Matcher α}

theorem exists_prefixed_eq (text : String) (m : Matcher α) :
    ∃ text' depth child, prefixed text m = .literal text' depth child := by
  cases m <;> exact ⟨_, _, _, rfl⟩

namespace Alive

theorem prefixed (h : m.Alive) (text : String) : (Matcher.prefixed text m).Alive := by
  intro hleaf
  rcases hleaf.of_prefixed with heq | hwithin
  · obtain ⟨text', depth, child, hliteral⟩ := exists_prefixed_eq text m
    rw [hliteral] at heq
    cases heq
  · exact h hwithin

theorem alternatives {members : List (Matcher α)} (hne : members ≠ [])
    (h : ∀ m ∈ members, m.Alive) : (Matcher.alternatives members).Alive := by
  intro hleaf
  rcases hleaf.of_alternatives hne with heq | ⟨m, hm, hwithin⟩
  · cases heq
  · exact h m hm hwithin

theorem table {entries : List (String × Matcher α)} (h : ∀ entry ∈ entries, entry.2.Alive) :
    (Matcher.table entries).Alive := by
  intro hleaf
  rcases hleaf.of_table with heq | ⟨entry, hentry, hwithin⟩
  · cases heq
  · exact h entry hentry hwithin

theorem wild (h : m.Alive) (name : String) : (Matcher.wild name m).Alive := by
  intro hleaf
  cases hleaf with
  | wild hwithin => exact h hwithin

theorem catchAll (name : String) (payload : α) : (Matcher.catchAll name payload).Alive := by
  intro hleaf
  cases hleaf

theorem data (payload : α) : (Matcher.data payload).Alive := by
  intro hleaf
  cases hleaf

end Alive

end Matcher

end PathRouting
