/-!
# Paths

A path is a text that slashes cut into parts. What a walk along a path has still to read is
a list of characters; it takes a part off its front at a time.

## Main definitions

* `Path.parts` / `Path.join` — the texts between the slashes, and the path they make
* `Path.frontPart` — the text up to the next slash, and what follows it
* `Path.scanPart` — the same in one pass, with whether the text has a percent sign

## Main results

* `Path.join_parts` — cutting a text at its slashes loses nothing
-/

namespace PathRouting.Path

/-- The texts between the slashes of a text. There is always at least one, and a text that
ends with a slash has an empty last part. -/
def parts : List Char → List (List Char)
  | [] => [[]]
  | c :: rest =>
    if c = '/' then [] :: parts rest
    else
      -- There is always a part that the character can join.
      match parts rest with
      | [] => [[c]]
      | part :: more => (c :: part) :: more

/-- The path with the given parts, each led by a slash. -/
def join (ps : List (List Char)) : List Char :=
  ps.flatMap ('/' :: ·)

/-- The text up to the next slash or the end, and what follows it. -/
def frontPart (path : List Char) : List Char × List Char :=
  (path.takeWhile (· != '/'), path.dropWhile (· != '/'))

/-- The text up to the next slash or the end, what follows it, and whether that text has a
percent sign. -/
def scanPart : List Char → List Char × List Char × Bool
  | [] => ([], [], false)
  | c :: rest =>
    if c = '/' then ([], c :: rest, false)
    else
      let (part, after, hasPercent) := scanPart rest
      (c :: part, after, c == '%' || hasPercent)

/-- Even the empty text has a part, which is empty. -/
theorem parts_ne_nil (text : List Char) : parts text ≠ [] := by
  cases text with
  | nil => simp [parts]
  | cons c rest =>
    unfold parts
    repeat' split
    all_goals simp

/-- Joining leads each part with a slash, and cutting takes the slashes between them. -/
theorem join_parts (text : List Char) : join (parts text) = '/' :: text := by
  induction text with
  | nil => rfl
  | cons c rest ih =>
    unfold parts
    split
    · simp_all [join]
    · cases h : parts rest with
      | nil => exact absurd h (parts_ne_nil rest)
      | cons part more => simp_all [join]

end PathRouting.Path
