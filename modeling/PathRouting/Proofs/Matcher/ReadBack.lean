import PathRouting.Proofs.Dict.Keys
import PathRouting.Matcher

/-!
# Patterns of a matcher

A matcher can be read back as the patterns that it stands for: a walk from the root gathers
text, and a payload is found under all that was gathered on the way to it. The smart
constructors only join texts and sort, so they keep what is read back, up to order.

## Main definitions

* `Matcher.readBack` — the patterns of a matcher with their payloads

## Main results

* `Matcher.readBack_prefixed` — a folded literal is read back as its two halves
* `Matcher.readBack_table`, `Matcher.readBack_alternatives_perm` — tables and alternatives
  are read back as their entries and members
-/

namespace PathRouting.Matcher

universe u

variable {α : Type u}

mutual

/-- The patterns that a matcher stands for, each behind `front`, with their payloads. -/
def readBack : Matcher α → String → List (String × α)
  | literal text _ child, front => readBack child (front ++ text)
  | dispatch entries, front => entriesReadBack entries front
  | wild name child, front => readBack child (front ++ ":" ++ name)
  | catchAll name payload, front => [(front ++ "*" ++ name, payload)]
  | leaf payload, front => payload.toList.map (front, ·)
  | choice members, front => membersReadBack members front

/-- The patterns of all entries of a table, each behind the key of its entry. -/
def entriesReadBack : List (String × Matcher α) → String → List (String × α)
  | [], _ => []
  | (key, child) :: rest, front => readBack child (front ++ key) ++ entriesReadBack rest front

/-- The patterns of all the given matchers. -/
def membersReadBack : List (Matcher α) → String → List (String × α)
  | [], _ => []
  | member :: rest, front => readBack member front ++ membersReadBack rest front

end

theorem entriesReadBack_eq (entries : List (String × Matcher α)) (front : String) :
    entriesReadBack entries front =
      entries.flatMap fun (key, child) => child.readBack (front ++ key) := by
  induction entries with
  | nil => rw [entriesReadBack, List.flatMap_nil]
  | cons entry rest ih => rw [entriesReadBack, ih, List.flatMap_cons]

theorem membersReadBack_eq (members : List (Matcher α)) (front : String) :
    membersReadBack members front = members.flatMap (readBack · front) := by
  induction members with
  | nil => rw [membersReadBack, List.flatMap_nil]
  | cons member rest ih => rw [membersReadBack, ih, List.flatMap_cons]

/-! ### Smart constructors -/

theorem readBack_literal (text : String) (depth : Nat) (child : Matcher α) (front : String) :
    (literal text depth child).readBack front = child.readBack (front ++ text) := by
  rw [readBack]

theorem readBack_prefixed (text : String) (m : Matcher α) (front : String) :
    (prefixed text m).readBack front = m.readBack (front ++ text) := by
  cases m with
  | literal more depth child =>
    rw [prefixed, readBack_literal, readBack_literal, String.append_assoc]
  | dispatch entries => exact readBack_literal text _ _ front
  | wild name child => exact readBack_literal text _ _ front
  | catchAll name payload => exact readBack_literal text _ _ front
  | leaf payload => exact readBack_literal text _ _ front
  | choice members => exact readBack_literal text _ _ front

theorem readBack_table {entries : List (String × Matcher α)}
    (h : (entries.map Prod.fst).Nodup) (front : String) :
    (table entries).readBack front =
      entries.flatMap fun (key, child) => child.readBack (front ++ key) := by
  rw [table, Dict.ofList_eq_self h, readBack, entriesReadBack_eq]

theorem readBack_alternatives_perm (members : List (Matcher α)) (front : String) :
    ((alternatives members).readBack front).Perm (members.flatMap (readBack · front)) := by
  match members with
  | [] => simp [alternatives, readBack]
  | [m] => simp [alternatives]
  | m :: n :: rest =>
    change ((choice (sortByRank (m :: n :: rest))).readBack front).Perm _
    rw [readBack, membersReadBack_eq]
    exact (Rank.sortBy_perm rank _).flatMap_right _

end PathRouting.Matcher
