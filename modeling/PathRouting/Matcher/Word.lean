import PathRouting.Matcher

/-!
# Counting depths in machine words

Depths are numbers of machine words, and a literal may store any of them. Where a count would
leave its word, it stops with an error if sums are checked, and goes on from zero if they are
not. So the smart constructors that count a depth may stop, and may put matchers in another
order than their depths call for. As long as nothing leaves the word, all of them do what they
do with exact depths.

## Main definitions

* `Word` — the numbers that are counted with
* `Word.size`, `Word.next` — how many numbers there are, and the number after another one
* `Matcher.depthIn`, `Matcher.rankIn` — depth and rank, counted in a word
* `Matcher.prefixedIn`, `Matcher.alternativesIn` — the smart constructors that count depths
-/

namespace PathRouting

universe u

/-- The numbers below a power of two. -/
structure Word where
  /-- The power. -/
  bits : Nat
  /-- Whether a count that leaves the word stops. Otherwise it goes on from zero. -/
  checked : Bool
deriving DecidableEq

/-- A count has left its word. -/
inductive Overflow where
  /-- The number after the greatest one was asked for. -/
  | next
deriving DecidableEq

/-- The wording of the error. -/
def Overflow.message (_ : Overflow) : String :=
  "attempt to add with overflow"

namespace Word

/-- The least number that is not in the word. -/
def size (word : Word) : Nat :=
  Nat.pow 2 word.bits

/-- The number after `n`. -/
def next (word : Word) (n : Nat) : Except Overflow Nat :=
  if n + 1 < word.size then .ok (n + 1)
  else if word.checked then .error .next
  else .ok ((n + 1) % word.size)

end Word

namespace Matcher

variable {α : Type u} (word : Word)

mutual

/-- The depth of a matcher, counted in a word. Only tables and parameters count on: a literal
stores its depth. -/
def depthIn : Matcher α → Except Overflow Nat
  | literal _ depth _ => .ok depth
  | dispatch entries => (entriesDepthIn entries).bind word.next
  | wild _ child => (depthIn child).bind word.next
  | catchAll _ _ => .ok 1
  | leaf _ => .ok 1
  | choice members => membersDepthIn members

/-- The greatest depth among the entries of a table, zero if there are none. -/
def entriesDepthIn : List (String × Matcher α) → Except Overflow Nat
  | [] => .ok 0
  | (_, child) :: rest => do return max (← depthIn child) (← entriesDepthIn rest)

/-- The greatest depth among matchers, zero if there are none. -/
def membersDepthIn : List (Matcher α) → Except Overflow Nat
  | [] => .ok 0
  | member :: rest => do return max (← depthIn member) (← membersDepthIn rest)

end

/-- The rank of a matcher by its counted depth. -/
def rankIn (m : Matcher α) : Except Overflow Rank :=
  (m.depthIn word).map (⟨m.isCatchAll, ·, m.literalLength⟩)

/-- The matcher for `text` and then `child`, with its depth counted on. A literal child is
folded into one literal. -/
def prefixedIn (text : String) : Matcher α → Except Overflow (Matcher α)
  | literal more depth child => (word.next depth).map (literal (text ++ more) · child)
  | child => ((child.depthIn word).bind word.next).map (literal text · child)

/-- The given matchers with their counted ranks. -/
def rankedIn (members : List (Matcher α)) : Except Overflow (List (Rank × Matcher α)) :=
  members.mapM fun m => (m.rankIn word).map (·, m)

/-- The matcher that tries the given ones by counted ranks. Where there is nothing to put in
order, no depth is counted. -/
def alternativesIn : List (Matcher α) → Except Overflow (Matcher α)
  | [] => .ok (leaf none)
  | [m] => .ok m
  | members => do
    -- Each rank is counted once, before any two members are compared.
    let ranked ← rankedIn word members
    return choice ((Rank.sortBy Prod.fst ranked).map Prod.snd)

end Matcher

end PathRouting
