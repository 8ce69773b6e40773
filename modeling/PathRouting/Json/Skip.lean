import PathRouting.Json.Numeral
import PathRouting.Json.StringToken
import PathRouting.Json.Token

/-!
# Values that are passed over

The value of a member that means nothing is followed to its end and forgotten. Lists and
objects may be nested to any depth: what is still open is kept in a list of frames, the
innermost first.

## Main definitions

* `Json.Frame` — an open list or object
* `Json.skipScalar` — the text after a value that encloses no other
* `Json.Due` — what has to come next
* `Json.skip` — the text after all that is due
* `Json.skipValue` — the text after a value

## Main results

* `Json.skip_le`, `Json.skipValue_le` — what is left is not longer than the text
-/

namespace PathRouting.Json

/-- A list or an object that is not closed yet. -/
inductive Frame where
  /-- A list. -/
  | list
  /-- An object. -/
  | object
deriving DecidableEq

namespace Frame

/-- The bracket that closes a frame. -/
def closing : Frame → Char
  | list => ']'
  | object => '\x7d'

/-- The fault of a text that ends inside a frame. -/
def endCause : Frame → Cause
  | list => .endInList
  | object => .endInObject

/-- The fault of a text that has neither a comma nor the bracket after an item. -/
def separatorCause : Frame → Cause
  | list => .expectedListEnd
  | object => .expectedObjectEnd

/-- The text after what stands before the value of an item: nothing in a list, a key and a
colon in an object. -/
def skipKey (frame : Frame) (text : List Char) : Except Fault (List Char) :=
  match frame with
  | list => .ok text
  | object =>
    match skipBlanks text with
    | [] => faultAt .endInObject []
    | c :: rest =>
      if c = '"' then do
        let rest ← skipString rest
        readColon rest
      else faultAfter 1 .keyNotString (c :: rest)

end Frame

/-- The text after a word, a text or a number. -/
def skipScalar (text : List Char) : Except Fault (List Char) :=
  match text with
  | [] => faultAt .endInValue []
  | c :: rest =>
    if c = 'n' then readWord ['u', 'l', 'l'] rest
    else if c = 't' then readWord ['r', 'u', 'e'] rest
    else if c = 'f' then readWord ['a', 'l', 's', 'e'] rest
    else if c = '"' then skipString rest
    else if c = '-' then do
      let (_, rest) ← readNumeral .invalidNumber rest
      .ok rest
    else if c.isDigit then do
      let (_, rest) ← readNumeral .invalidNumber (c :: rest)
      .ok rest
    else faultAfter 1 .expectedValue (c :: rest)

/-- What has to come next. -/
inductive Due where
  /-- A value, and then what the open frames need. -/
  | value
  /-- What the open frames need; the innermost is empty so far if `isFirst` holds. -/
  | item (isFirst : Bool)
deriving DecidableEq

/-! ### What is left -/

theorem readWord_le {word text rest : List Char} (h : readWord word text = .ok rest) :
    rest.length ≤ text.length :=
  (readWord_suffix h).length_le

theorem skipKey_le {frame : Frame} {text rest : List Char}
    (h : frame.skipKey text = .ok rest) : rest.length ≤ text.length := by
  unfold Frame.skipKey at h
  split at h
  · obtain rfl : text = rest := by simpa using h
    exact Nat.le_refl _
  · split at h
    · simp at h
    · rename_i c after hblank
      split at h
      · obtain ⟨left, hskip, h⟩ := bind_eq_ok_iff.mp h
        have h1 := (readColon_suffix h).length_le
        have h2 := (skipString_suffix hskip).length_le
        have h3 := (hblank ▸ skipBlanks_suffix text : c :: after <:+ text).length_le
        simp only [List.length_cons] at h3
        omega
      · simp at h

/-- A value that holds no others takes at least one character off the text. -/
theorem skipScalar_lt {text rest : List Char} (h : skipScalar text = .ok rest) :
    rest.length < text.length := by
  unfold skipScalar at h
  split at h
  · simp at h
  · rename_i c after
    rw [List.length_cons]
    split at h
    · exact Nat.lt_succ_of_le (readWord_le h)
    split at h
    · exact Nat.lt_succ_of_le (readWord_le h)
    split at h
    · exact Nat.lt_succ_of_le (readWord_le h)
    split at h
    · exact Nat.lt_succ_of_le (skipString_suffix h).length_le
    split at h
    · obtain ⟨⟨n, left⟩, hread, h⟩ := bind_eq_ok_iff.mp h
      obtain rfl : left = rest := by simpa using h
      have := readNumeral_lt hread
      omega
    split at h
    · obtain ⟨⟨n, left⟩, hread, h⟩ := bind_eq_ok_iff.mp h
      obtain rfl : left = rest := by simpa using h
      exact readNumeral_lt hread
    · simp at h

theorem length_le_of_skipBlanks {text rest : List Char} (h : skipBlanks text = rest) :
    rest.length ≤ text.length :=
  h ▸ (skipBlanks_suffix text).length_le

theorem length_lt_of_skipBlanks {text rest : List Char} {c : Char}
    (h : skipBlanks text = c :: rest) : rest.length < text.length := by
  have := length_le_of_skipBlanks h
  simp only [List.length_cons] at this
  omega

/-! ### Passing over -/

/-- The text after all that is due. -/
def skip (due : Due) (frames : List Frame) (text : List Char) : Except Fault (List Char) :=
  match due with
  | .value =>
    match _hblank : skipBlanks text with
    | [] => faultAt .endInValue []
    | c :: rest =>
      if c = '[' then skip (.item true) (.list :: frames) rest
      else if c = '\x7b' then skip (.item true) (.object :: frames) rest
      else
        match _hskip : skipScalar (c :: rest) with
        | .error fault => .error fault
        | .ok rest => skip (.item false) frames rest
  | .item isFirst =>
    match frames with
    | [] => .ok text
    | frame :: outer =>
      match _hblank : skipBlanks text with
      | [] => faultAt frame.endCause []
      | c :: rest =>
        if c = frame.closing then skip (.item false) outer rest
        else if isFirst then
          match _hkey : frame.skipKey (c :: rest) with
          | .error fault => .error fault
          | .ok rest => skip .value (frame :: outer) rest
        else if c = ',' then
          match _hkey : frame.skipKey rest with
          | .error fault => .error fault
          | .ok rest => skip .value (frame :: outer) rest
        else faultAfter 1 frame.separatorCause (c :: rest)
termination_by (text.length, if due = .value then 0 else 1)
decreasing_by
  -- A bracket, a scalar or a comma is taken off the text.
  · exact Prod.Lex.left _ _ (length_lt_of_skipBlanks _hblank)
  · exact Prod.Lex.left _ _ (length_lt_of_skipBlanks _hblank)
  · exact Prod.Lex.left _ _
      (Nat.lt_of_lt_of_le (skipScalar_lt _hskip) (length_le_of_skipBlanks _hblank))
  · exact Prod.Lex.left _ _ (length_lt_of_skipBlanks _hblank)
  -- A first item may begin where the text does: the text stays, and a value is due.
  · rcases Nat.lt_or_eq_of_le (Nat.le_trans (skipKey_le _hkey) (length_le_of_skipBlanks _hblank))
      with hlt | heq
    · exact Prod.Lex.left _ _ hlt
    · rw [heq]
      exact Prod.Lex.right _ (by simp)
  · exact Prod.Lex.left _ _
      (Nat.lt_of_le_of_lt (skipKey_le _hkey) (length_lt_of_skipBlanks _hblank))

/-- The text after a value. -/
def skipValue (text : List Char) : Except Fault (List Char) :=
  skip .value [] text

/-- What is left after all that was due is no longer than the text. -/
theorem skip_le {due : Due} {frames : List Frame} {text rest : List Char}
    (h : skip due frames text = .ok rest) : rest.length ≤ text.length := by
  fun_induction skip due frames text with
  | case1 => simp at h
  | case2 _ _ _ hblank ih =>
    exact Nat.le_trans (ih h) (Nat.le_of_lt (length_lt_of_skipBlanks hblank))
  | case3 _ _ _ hblank _ ih =>
    exact Nat.le_trans (ih h) (Nat.le_of_lt (length_lt_of_skipBlanks hblank))
  | case4 => simp at h
  | case5 _ _ _ _ hblank _ _ _ hskip ih =>
    have := length_le_of_skipBlanks hblank
    have := skipScalar_lt hskip
    have := ih h
    omega
  | case6 text =>
    obtain rfl : text = rest := by simpa using h
    exact Nat.le_refl _
  | case7 => simp at h
  | case8 _ _ _ _ _ hblank ih =>
    exact Nat.le_trans (ih h) (Nat.le_of_lt (length_lt_of_skipBlanks hblank))
  | case9 => simp at h
  | case10 _ _ _ _ _ hblank _ _ hkey ih =>
    exact Nat.le_trans (ih h) (Nat.le_trans (skipKey_le hkey) (length_le_of_skipBlanks hblank))
  | case11 => simp at h
  | case12 _ _ _ _ _ _ _ hkey hblank _ ih =>
    have := length_lt_of_skipBlanks hblank
    have := skipKey_le hkey
    have := ih h
    omega
  | case13 => simp at h

theorem skipValue_le {text rest : List Char} (h : skipValue text = .ok rest) :
    rest.length ≤ text.length :=
  skip_le h

end PathRouting.Json
