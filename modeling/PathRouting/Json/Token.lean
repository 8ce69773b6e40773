import PathRouting.Json.Fault

/-!
# Blanks, words and separators of a JSON document

Readers take a token off the front of a text and return the text that is left.

## Main definitions

* `Json.skipBlanks` — the text after the blanks at its front
* `Json.readWord` — the text after a given word
* `Json.readColon` — the text after the colon between a key and its value

## Main results

* `Json.skipBlanks_suffix`, `Json.readWord_suffix`, `Json.readColon_suffix` — what is left is
  an end of the text
-/

namespace PathRouting.Json

/-- The characters that may stand between tokens. -/
def isBlank (c : Char) : Bool :=
  c == ' ' || c == '\t' || c == '\r' || c == '\n'

/-- The text after the blanks at its front. -/
def skipBlanks (text : List Char) : List Char :=
  text.dropWhile isBlank

/-- The text after the given word, which is read character by character. -/
def readWord : List Char → List Char → Except Fault (List Char)
  | [], text => .ok text
  | _ :: _, [] => faultAt .endInValue []
  | w :: word, c :: rest =>
    if c = w then readWord word rest else faultAfter 1 .expectedWord (c :: rest)

/-- The text after the colon between a key and its value. -/
def readColon (text : List Char) : Except Fault (List Char) :=
  match skipBlanks text with
  | [] => faultAt .endInObject []
  | c :: rest => if c = ':' then .ok rest else faultAfter 1 .expectedColon (c :: rest)

/-- Blanks are taken off the front only. -/
theorem skipBlanks_suffix (text : List Char) : skipBlanks text <:+ text :=
  List.dropWhile_suffix _

/-- A word is taken off letter by letter. -/
theorem readWord_suffix {word text rest : List Char} (h : readWord word text = .ok rest) :
    rest <:+ text := by
  fun_induction readWord word text with
  | case1 => simp_all
  | case2 => simp at h
  | case3 _ _ _ ih => exact (ih h).trans (List.suffix_cons _ _)
  | case4 => simp at h

theorem readColon_suffix {text rest : List Char} (h : readColon text = .ok rest) :
    rest <:+ text := by
  unfold readColon at h
  split at h
  · simp at h
  · rename_i c after hblank
    split at h
    · obtain rfl : after = rest := by simpa using h
      exact (List.suffix_cons _ _).trans (hblank ▸ skipBlanks_suffix text)
    · simp at h

end PathRouting.Json
