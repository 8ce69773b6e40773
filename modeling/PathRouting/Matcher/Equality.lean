import PathRouting.Matcher

/-!
# Equality of matchers

Two matchers are equal if they have the same nodes in the same order. Only the order of the
entries of a table does not count, since a table is looked up by key.

## Main definitions

* `Matcher.beq` — the comparison, which is the meaning of `==` on matchers
-/

namespace PathRouting.Matcher

universe u

variable {α : Type u} [BEq α]

mutual

/-- Whether two matchers are equal, tables as maps and choices member by member. -/
def beq : Matcher α → Matcher α → Bool
  | literal text depth child, literal text' depth' child' =>
    text == text' && depth == depth' && beq child child'
  | dispatch entries, dispatch entries' =>
    entries.length == entries'.length && entriesWithin entries entries'
  | wild name child, wild name' child' => name == name' && beq child child'
  | catchAll name payload, catchAll name' payload' => name == name' && payload == payload'
  | leaf payload, leaf payload' => payload == payload'
  | choice members, choice members' => membersBeq members members'
  | _, _ => false

/-- Whether a table has all the given entries. -/
def entriesWithin : List (String × Matcher α) → List (String × Matcher α) → Bool
  | [], _ => true
  | (key, child) :: rest, entries =>
    (match entries.lookup key with
      | some child' => beq child child'
      | none => false) && entriesWithin rest entries

/-- Whether two lists have equal matchers in the same order. -/
def membersBeq : List (Matcher α) → List (Matcher α) → Bool
  | [], [] => true
  | member :: rest, member' :: rest' => beq member member' && membersBeq rest rest'
  | _, _ => false

end

instance : BEq (Matcher α) := ⟨beq⟩

end PathRouting.Matcher
