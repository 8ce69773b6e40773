import PathRouting.CapturedValue
import PathRouting.Captures
import PathRouting.Matcher
import PathRouting.Path

/-!
# Looking up a path

A matcher is walked along a path. The walk gathers captures and notices in a trail; a
capture joins the trail once everything behind it has matched, so the innermost capture
comes first, and what a failed attempt was about to capture never shows.

## Main definitions

* `Matcher.Trail` — what a walk has gathered
* `Matcher.find` — the walk from some place of a path, with the trail so far
* `Match` — a payload with the captures of its parameters
* `Matcher.lookup`, `Matcher.lookupLogged` — the match of a path, and with its notices
-/

namespace PathRouting

universe u

/-- The payload that a path leads to, with the values of the parameters on the way. -/
structure Match (α : Type u) where
  /-- The payload. -/
  payload : α
  /-- The values of the parameters. -/
  captures : Captures
deriving DecidableEq

namespace Matcher

variable {α : Type u}

/-- What a walk has gathered. -/
structure Trail where
  /-- The captures so far. -/
  captures : Captures
  /-- The notices so far. -/
  notices : List Notice

namespace Trail

/-- The trail at the start of a walk. -/
def empty : Trail := ⟨.empty, []⟩

/-- Adds a capture. Its notices are added even where an inner capture has the same name. -/
def keep (name : String) (value : CapturedValue) (trail : Trail) : Trail :=
  ⟨trail.captures.keep name value.text, trail.notices ++ value.notices⟩

end Trail

mutual

/-- The payload that the rest of a path leads to, with the trail afterwards. -/
def find : Matcher α → List Char → Trail → Option α × Trail
  | literal text _ child, path, trail =>
    match text.toList.isPrefixOf? path with
    | some rest => find child rest trail
    | none => (none, trail)
  | dispatch entries, path, trail =>
    let (part, rest) := Path.frontPart path
    findEntry entries (String.ofList part) rest trail
  | wild name child, path, trail =>
    match Path.scanPart path with
    | ([], _, _) => (none, trail)
    | (part, rest, hasPercent) =>
      -- The capture joins the trail only once all behind it has matched.
      match find child rest trail with
      | (some payload, trail) =>
        (some payload, trail.keep name (.decodeFlagged (String.ofList part) hasPercent))
      | (none, trail) => (none, trail)
  | catchAll name payload, path, trail =>
    (some payload, trail.keep name (.decode (String.ofList path)))
  | leaf payload, path, trail => (if path.isEmpty then payload else none, trail)
  | choice members, path, trail => findMember members path trail

/-- The payload that the rest of a path leads to through the entry of a table with the
given key. -/
def findEntry :
    List (String × Matcher α) → String → List Char → Trail → Option α × Trail
  | [], _, _, trail => (none, trail)
  | (key, child) :: rest, part, path, trail =>
    if part = key then find child path trail else findEntry rest part path trail

/-- The payload that the rest of a path leads to through the first matcher that finds
one. -/
def findMember : List (Matcher α) → List Char → Trail → Option α × Trail
  | [], _, trail => (none, trail)
  | member :: rest, path, trail =>
    match find member path trail with
    | (some payload, trail) => (some payload, trail)
    | (none, trail) => findMember rest path trail

end

/-- The match of a path, with what was reported. -/
def lookupLogged (m : Matcher α) (path : String) : Option (Match α) × List Notice :=
  let (payload, trail) := m.find path.toList .empty
  (payload.map (⟨·, trail.captures⟩), trail.notices)

/-- The match of a path. -/
def lookup (m : Matcher α) (path : String) : Option (Match α) :=
  (m.lookupLogged path).1

end Matcher

end PathRouting
