import PathRouting.Json.Fault

/-!
# Texts in a JSON document

A text stands between quotation marks. A backslash begins an escape: one character for the
marks and the common controls, or `u` and four hexadecimal digits for a UTF-16 unit, of which
a character outside of the first plane takes two.

A text that matters is decoded; a text that is passed over is only followed to its end, and
its escapes may then stand for halves of characters.

## Main definitions

* `Json.readEscape` / `Json.skipEscape` — what follows a backslash
* `Json.readString` / `Json.skipString` — what follows an opening quotation mark

## Main results

* `Json.readString_suffix`, `Json.skipString_suffix` — what is left is an end of the text
-/

namespace PathRouting.Json

/-- The value of a hexadecimal digit. -/
def hexDigit? (c : Char) : Option Nat :=
  if '0' ≤ c && c ≤ '9' then some (c.toNat - '0'.toNat)
  else if 'a' ≤ c && c ≤ 'f' then some (c.toNat - 'a'.toNat + 10)
  else if 'A' ≤ c && c ≤ 'F' then some (c.toNat - 'A'.toNat + 10)
  else none

/-- The unit that four hexadecimal digits at the front of a text give. Four bytes are taken
before they are looked at, and where there are fewer, all that is left. -/
def readUnit (text : List Char) : Except Fault (Nat × List Char) :=
  match text with
  | a :: b :: c :: d :: rest =>
    match hexDigit? a, hexDigit? b, hexDigit? c, hexDigit? d with
    | some a, some b, some c, some d => .ok (((a * 16 + b) * 16 + c) * 16 + d, rest)
    | _, _, _, _ => noUnit text
  | _ => noUnit text
where
  /-- The fault of a text that does not begin with four digits. -/
  noUnit (text : List Char) : Except Fault (Nat × List Char) :=
    -- The place is counted in bytes, so it may lie inside of a character.
    if byteLength text < 4 then faultAt .endInString []
    else faultAfter 4 .invalidEscape text

/-- Whether a unit is the first half of a character. -/
def isHighSurrogate (unit : Nat) : Bool :=
  0xD800 ≤ unit && unit ≤ 0xDBFF

/-- Whether a unit is the second half of a character. -/
def isLowSurrogate (unit : Nat) : Bool :=
  0xDC00 ≤ unit && unit ≤ 0xDFFF

/-- The character whose first half is `high`, with the escape of the second half at the front
of a text. -/
def readSecondHalf (high : Nat) (text : List Char) : Except Fault (Char × List Char) :=
  match text with
  | [] => faultAt .endInString []
  | c :: rest =>
    if c = '\\' then
      match rest with
      | [] => faultAt .endInString []
      | u :: after =>
        if u = 'u' then do
          let (low, after) ← readUnit after
          if isLowSurrogate low then
            .ok (Char.ofNat (0x10000 + (high - 0xD800) * 0x400 + (low - 0xDC00)), after)
          else faultAt .loneSurrogate after
        else faultAfter 1 .missingSurrogate rest
    else faultAfter 1 .missingSurrogate text

/-- The character that an escape of one character stands for. -/
def shortEscape? (c : Char) : Option Char :=
  if c = '"' then some '"'
  else if c = '\\' then some '\\'
  else if c = '/' then some '/'
  else if c = 'b' then some '\x08'
  else if c = 'f' then some '\x0c'
  else if c = 'n' then some '\n'
  else if c = 'r' then some '\r'
  else if c = 't' then some '\t'
  else none

/-- The character of an escape, after its backslash. -/
def readEscape (text : List Char) : Except Fault (Char × List Char) :=
  match text with
  | [] => faultAt .endInString []
  | c :: rest =>
    if c = 'u' then do
      let (unit, rest) ← readUnit rest
      if isLowSurrogate unit then faultAt .loneSurrogate rest
      else if isHighSurrogate unit then readSecondHalf unit rest
      else .ok (Char.ofNat unit, rest)
    else
      match shortEscape? c with
      | some x => .ok (x, rest)
      | none => faultAfter 1 .invalidEscape text

/-- The text after an escape, after its backslash; what the escape stands for is not looked
at. -/
def skipEscape (text : List Char) : Except Fault (List Char) :=
  match text with
  | [] => faultAt .endInString []
  | c :: rest =>
    if c = 'u' then do
      let (_, rest) ← readUnit rest
      .ok rest
    else
      match shortEscape? c with
      | some _ => .ok rest
      | none => faultAfter 1 .invalidEscape text

/-! ### What is left -/

theorem noUnit_ne_ok {text : List Char} {found : Nat × List Char} :
    readUnit.noUnit text ≠ .ok found := by
  unfold readUnit.noUnit
  split <;> simp

/-- The four digits of a unit are taken off the front. -/
theorem readUnit_suffix {text rest : List Char} {unit : Nat}
    (h : readUnit text = .ok (unit, rest)) : rest <:+ text := by
  unfold readUnit at h
  split at h
  · rename_i a b c d after
    split at h
    · obtain ⟨-, rfl⟩ : _ ∧ after = rest := by simpa using h
      exact ⟨[a, b, c, d], rfl⟩
    · exact absurd h noUnit_ne_ok
  · exact absurd h noUnit_ne_ok

/-- The second half of a pair is taken off the front, as an escape of its own. -/
theorem readSecondHalf_suffix {high : Nat} {text rest : List Char} {x : Char}
    (h : readSecondHalf high text = .ok (x, rest)) : rest <:+ text := by
  unfold readSecondHalf at h
  split at h
  · simp at h
  · split at h
    · split at h
      · simp at h
      · split at h
        · rename_i c _ _ u after _
          obtain ⟨⟨low, left⟩, hunit, h⟩ := bind_eq_ok_iff.mp h
          dsimp only at h
          split at h
          · obtain ⟨-, rfl⟩ : _ ∧ left = rest := by simpa using h
            exact (readUnit_suffix hunit).trans ⟨[c, u], rfl⟩
          · simp at h
        · simp at h
    · simp at h

theorem readEscape_suffix {text rest : List Char} {x : Char}
    (h : readEscape text = .ok (x, rest)) : rest <:+ text := by
  unfold readEscape at h
  split at h
  · simp at h
  · rename_i c after
    split at h
    · obtain ⟨⟨unit, left⟩, hunit, h⟩ := bind_eq_ok_iff.mp h
      have hleft : left <:+ c :: after :=
        (readUnit_suffix hunit).trans (List.suffix_cons _ _)
      dsimp only at h
      split at h
      · simp at h
      · split at h
        · exact (readSecondHalf_suffix h).trans hleft
        · obtain ⟨-, rfl⟩ : _ ∧ left = rest := by simpa using h
          exact hleft
    · split at h
      · obtain ⟨-, rfl⟩ : _ ∧ after = rest := by simpa using h
        exact List.suffix_cons _ _
      · simp at h

theorem skipEscape_suffix {text rest : List Char} (h : skipEscape text = .ok rest) :
    rest <:+ text := by
  unfold skipEscape at h
  split at h
  · simp at h
  · rename_i c after
    split at h
    · obtain ⟨⟨unit, left⟩, hunit, h⟩ := bind_eq_ok_iff.mp h
      obtain rfl : left = rest := by simpa using h
      exact (readUnit_suffix hunit).trans (List.suffix_cons _ _)
    · split at h
      · obtain rfl : after = rest := by simpa using h
        exact List.suffix_cons _ _
      · simp at h

/-! ### Whole texts -/

/-- The characters of a text, after its opening quotation mark. A control character has to be
escaped. -/
def readString (text : List Char) : Except Fault (List Char × List Char) :=
  match text with
  | [] => faultAt .endInString []
  | c :: rest =>
    if c = '"' then .ok ([], rest)
    else if c = '\\' then
      match _h : readEscape rest with
      | .error fault => .error fault
      | .ok (x, after) => do
        let (xs, left) ← readString after
        .ok (x :: xs, left)
    else if c < ' ' then faultAfter 1 .controlCharacter (c :: rest)
    else do
      let (xs, left) ← readString rest
      .ok (c :: xs, left)
termination_by text.length
decreasing_by
  · have := (readEscape_suffix _h).length_le
    simp only [List.length_cons]
    omega
  · simp

/-- The text after another text, after the opening quotation mark of that one. A control
character has to be escaped. -/
def skipString (text : List Char) : Except Fault (List Char) :=
  match text with
  | [] => faultAt .endInString []
  | c :: rest =>
    if c = '"' then .ok rest
    else if c = '\\' then
      match _h : skipEscape rest with
      | .error fault => .error fault
      | .ok after => skipString after
    else if c < ' ' then faultAt .controlCharacter (c :: rest)
    else skipString rest
termination_by text.length
decreasing_by
  · have := (skipEscape_suffix _h).length_le
    simp only [List.length_cons]
    omega
  · simp

/-- What is left behind a string is an end of the text, so its length tells where it begins. -/
theorem readString_suffix {text rest xs : List Char} (h : readString text = .ok (xs, rest)) :
    rest <:+ text := by
  fun_induction readString text generalizing xs with
  | case1 => simp at h
  | case2 after =>
    obtain ⟨-, rfl⟩ : _ ∧ after = rest := by simpa using h
    exact List.suffix_cons _ _
  | case3 => simp at h
  | case4 after x tail hescape _ ih =>
    obtain ⟨⟨ys, left⟩, hread, h⟩ := bind_eq_ok_iff.mp h
    obtain ⟨-, rfl⟩ : _ ∧ left = rest := by simpa using h
    exact (ih hread).trans ((readEscape_suffix hescape).trans (List.suffix_cons _ _))
  | case5 => simp at h
  | case6 c after _ _ _ ih =>
    obtain ⟨⟨ys, left⟩, hread, h⟩ := bind_eq_ok_iff.mp h
    obtain ⟨-, rfl⟩ : _ ∧ left = rest := by simpa using h
    exact (ih hread).trans (List.suffix_cons _ _)

/-- The same holds of a string whose characters are not gathered. -/
theorem skipString_suffix {text rest : List Char} (h : skipString text = .ok rest) :
    rest <:+ text := by
  fun_induction skipString text with
  | case1 => simp at h
  | case2 after =>
    obtain rfl : after = rest := by simpa using h
    exact List.suffix_cons _ _
  | case3 => simp at h
  | case4 after tail hescape _ ih =>
    exact (ih h).trans ((skipEscape_suffix hescape).trans (List.suffix_cons _ _))
  | case5 => simp at h
  | case6 c after _ _ _ ih => exact (ih h).trans (List.suffix_cons _ _)

end PathRouting.Json
