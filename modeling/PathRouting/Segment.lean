/-!
# Segments of a path pattern

A pattern is cut at its slashes into segments. The first character of a segment says what
it stands for: `:` names one part of a path, `*` names all that remains of it, and any
other segment is literal text. Both marks mean themselves in every other place.

## Main definitions

* `Segment` — literal text, a parameter, or a catch-all
* `Segment.parse` / `Segment.write` — the segment of a text, and its text
* `Segment.name?` — the name under which a segment captures

## Main results

* `Segment.write_parse` — every text is the written form of the segment it is read as
-/

namespace PathRouting

/-- A segment of a path pattern. -/
inductive Segment where
  /-- Text that is matched as it stands. -/
  | literal (text : String)
  /-- A parameter, which captures one part of a path that is not empty. -/
  | param (name : String)
  /-- A catch-all parameter, which captures the remainder of a path. -/
  | catchAll (name : String)
deriving DecidableEq

namespace Segment

/-- The segment that a text between two slashes stands for. -/
def parse (text : String) : Segment :=
  match text.toList with
  | ':' :: name => .param (String.ofList name)
  | '*' :: name => .catchAll (String.ofList name)
  | _ => .literal text

/-- The text of a segment in a pattern. -/
def write : Segment → String
  | .literal text => text
  | .param name => String.ofList (':' :: name.toList)
  | .catchAll name => String.ofList ('*' :: name.toList)

/-- The name under which a segment captures a value, if it does. -/
def name? : Segment → Option String
  | .literal _ => none
  | .param name => some name
  | .catchAll name => some name

/-- Whether a segment captures under a name without characters. -/
def isNameless (s : Segment) : Bool :=
  s.name? == some ""

/-- Whether a segment takes the remainder of a path. -/
def isCatchAll : Segment → Bool
  | .catchAll _ => true
  | _ => false

/-- A segment keeps the text that it was read from, with the sign that tells its kind. -/
theorem write_parse (text : String) : (parse text).write = text := by
  unfold parse
  split <;> simp_all [write, ← String.toList_inj]

end Segment

end PathRouting
