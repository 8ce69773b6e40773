import PathRouting.Proofs.Json.Grammar

/-!
# Reading tokens

Each reader takes just the token of its kind off the front of a text, whatever follows it. A
number is the one token that does not show its own end, so there the text behind it matters.

## Main definitions

* `Json.MayFollow` — a text may stand behind a value

## Main results

* `Json.readString_append` — a spelled text is read as the text that it spells
* `Json.skipString_append` — anything between quotation marks is passed over
* `Json.readNumeral_append` — a number is read to its end
* `Json.IsKey.exists_read` — the parts of a key, as the readers come upon them
-/

namespace PathRouting.Json

open Text.Percent (IsDigit)

variable {rest : List Char}

/-! ### Blanks, words and colons -/

theorem isBlank_iff {c : Char} : isBlank c = true ↔ c ∈ [' ', '\t', '\r', '\n'] := by
  simp [isBlank, or_assoc]

theorem isBlank_eq_false_iff {c : Char} : isBlank c = false ↔ c ∉ [' ', '\t', '\r', '\n'] := by
  rw [← Bool.not_eq_true, isBlank_iff]

namespace IsBlanks

variable {blanks : List Char}

theorem nil : IsBlanks [] := by
  simp [IsBlanks]

theorem skipBlanks_append (h : IsBlanks blanks) (rest : List Char) :
    skipBlanks (blanks ++ rest) = skipBlanks rest :=
  List.dropWhile_append_of_pos fun c hc => isBlank_iff.mpr (h c hc)

theorem skipBlanks_eq_nil (h : IsBlanks blanks) : skipBlanks blanks = [] := by
  rw [← List.append_nil blanks, h.skipBlanks_append]
  rfl

theorem skipBlanks_append_cons (h : IsBlanks blanks) {c : Char} (hc : isBlank c = false)
    (rest : List Char) : skipBlanks (blanks ++ c :: rest) = c :: rest := by
  rw [h.skipBlanks_append, skipBlanks, List.dropWhile_cons_of_neg (by simp [hc])]

end IsBlanks

theorem readWord_append (word rest : List Char) : readWord word (word ++ rest) = .ok rest := by
  induction word with
  | nil => rw [List.nil_append, readWord]
  | cons c word ih => rw [List.cons_append, readWord, if_pos rfl, ih]

theorem readColon_append {blanks : List Char} (h : IsBlanks blanks) (rest : List Char) :
    readColon (blanks ++ ':' :: rest) = .ok rest := by
  rw [readColon, h.skipBlanks_append_cons rfl]
  rfl

/-! ### Escapes -/

/-- The two notions of a hexadecimal digit agree. -/
theorem hexDigit?_eq {n : Fin 16} {digit : Char} (h : IsDigit n.val digit) :
    hexDigit? digit = some n.val :=
  IsDigit.of_forall (p := fun n digit => hexDigit? digit = some n) (by decide) n.isLt h

theorem readUnit_append {unit : Nat} {digits : List Char} (h : UnitDigits unit digits)
    (rest : List Char) : readUnit (digits ++ rest) = .ok (unit, rest) := by
  obtain ⟨ha, hb, hc, hd⟩ := h
  simp only [List.cons_append, List.nil_append, readUnit]
  rw [hexDigit?_eq ha, hexDigit?_eq hb, hexDigit?_eq hc, hexDigit?_eq hd]

theorem shortEscape?_eq {mark c : Char} (h : (mark, c) ∈ marks) : shortEscape? mark = some c :=
  (by decide : ∀ escape ∈ marks, shortEscape? escape.1 = some escape.2) (mark, c) h

/-- No mark is the letter before the digits of a unit. -/
theorem ne_of_mem_marks {mark c : Char} (h : (mark, c) ∈ marks) : mark ≠ 'u' :=
  (by decide : ∀ escape ∈ marks, escape.1 ≠ 'u') (mark, c) h

/-- Two steps of reading, the first of which succeeds. -/
theorem ok_bind {β γ : Type} (b : β) (f : β → Except Fault γ) :
    (Except.ok b : Except Fault β) >>= f = f b :=
  rfl

theorem isLowSurrogate_iff {unit : Nat} :
    isLowSurrogate unit = true ↔ 0xDC00 ≤ unit ∧ unit ≤ 0xDFFF := by
  simp [isLowSurrogate]

theorem isHighSurrogate_iff {unit : Nat} :
    isHighSurrogate unit = true ↔ 0xD800 ≤ unit ∧ unit ≤ 0xDBFF := by
  simp [isHighSurrogate]

/-- A character is no half of one, and is not beyond the last plane. -/
theorem toNat_valid (c : Char) :
    c.toNat < 0xD800 ∨ 0xDFFF < c.toNat ∧ c.toNat < 0x110000 :=
  c.valid

/-- The halves of a character carry its twenty bits above the first plane. -/
theorem readSecondHalf_append {c : Char} (hc : 0x10000 ≤ c.toNat) {low : List Char}
    (hlow : UnitDigits (0xDC00 + (c.toNat - 0x10000) % 0x400) low) (rest : List Char) :
    readSecondHalf (0xD800 + (c.toNat - 0x10000) / 0x400) ('\\' :: 'u' :: (low ++ rest))
      = .ok (c, rest) := by
  have hvalid := toNat_valid c
  have hlast : isLowSurrogate (0xDC00 + (c.toNat - 0x10000) % 0x400) = true :=
    isLowSurrogate_iff.mpr (by omega)
  have hjoin : 0x10000 + (0xD800 + (c.toNat - 0x10000) / 0x400 - 0xD800) * 0x400
      + (0xDC00 + (c.toNat - 0x10000) % 0x400 - 0xDC00) = c.toNat := by
    omega
  rw [readSecondHalf, if_pos rfl]
  dsimp only
  rw [if_pos rfl, readUnit_append hlow, ok_bind]
  dsimp only
  rw [if_pos hlast, hjoin, Char.ofNat_toNat]

theorem readEscape_append {c : Char} {escape : List Char} (h : IsEscape c escape)
    (rest : List Char) : readEscape (escape ++ rest) = .ok (c, rest) := by
  have hvalid := toNat_valid c
  cases h with
  | mark hmark =>
    rw [List.cons_append, List.nil_append, readEscape, if_neg (ne_of_mem_marks hmark),
      shortEscape?_eq hmark]
  | unit hdigits =>
    rw [List.cons_append, readEscape, if_pos rfl, readUnit_append hdigits, ok_bind]
    dsimp only
    -- The unit of a whole character is no half.
    rw [if_neg (by rw [isLowSurrogate_iff]; omega), if_neg (by rw [isHighSurrogate_iff]; omega),
      Char.ofNat_toNat]
  | @pair _ high low hc hhigh hlow =>
    have hassoc : 'u' :: (high ++ '\\' :: 'u' :: low) ++ rest
        = 'u' :: (high ++ '\\' :: 'u' :: (low ++ rest)) := by
      simp only [List.cons_append, List.append_assoc]
    rw [hassoc, readEscape, if_pos rfl, readUnit_append hhigh, ok_bind]
    dsimp only
    rw [if_neg (by rw [isLowSurrogate_iff]; omega), if_pos (by rw [isHighSurrogate_iff]; omega),
      readSecondHalf_append hc hlow]

/-! ### Texts -/

theorem readString_quote (rest : List Char) : readString ('"' :: rest) = .ok ([], rest) := by
  rw [readString, if_pos rfl]

theorem readString_plain {c : Char} {text raw : List Char} (hc : IsPlain c)
    (h : readString raw = .ok (text, rest)) : readString (c :: raw) = .ok (c :: text, rest) := by
  obtain ⟨hmin, hquote, hslash⟩ := hc
  rw [readString, if_neg hquote, if_neg hslash, if_neg (Char.not_lt.mpr hmin), h]
  rfl

theorem readString_escape {c : Char} {escape text raw : List Char} (hescape : IsEscape c escape)
    (h : readString raw = .ok (text, rest)) :
    readString ('\\' :: (escape ++ raw)) = .ok (c :: text, rest) := by
  rw [readString, if_neg (by decide), if_pos rfl]
  -- The branches keep what the escape gave, so that what is left is known to be shorter.
  split
  · rename_i hread
    rw [readEscape_append hescape] at hread
    cases hread
  · rename_i hread
    rw [readEscape_append hescape] at hread
    cases hread
    rw [h]
    rfl

/-- A text is read from each of its spellings. -/
theorem readString_append {text raw : List Char} (h : Spells text raw) (rest : List Char) :
    readString (raw ++ '"' :: rest) = .ok (text, rest) := by
  induction h with
  | nil => exact readString_quote rest
  | plain hc _ ih => exact readString_plain hc ih
  | escaped hescape _ ih =>
    rw [List.cons_append, List.append_assoc]
    exact readString_escape hescape ih

theorem skipString_quote (rest : List Char) : skipString ('"' :: rest) = .ok rest := by
  rw [skipString, if_pos rfl]

theorem skipString_plain {c : Char} (hc : IsPlain c) (raw : List Char) :
    skipString (c :: raw) = skipString raw := by
  obtain ⟨hmin, hquote, hslash⟩ := hc
  rw [skipString, if_neg hquote, if_neg hslash, if_neg (Char.not_lt.mpr hmin)]

theorem skipString_escape {escape raw : List Char} (h : skipEscape escape = .ok raw) :
    skipString ('\\' :: escape) = skipString raw := by
  rw [skipString, if_neg (by decide), if_pos rfl]
  split
  · rename_i hskip
    rw [h] at hskip
    cases hskip
  · rename_i hskip
    rw [h] at hskip
    cases hskip
    rfl

theorem skipEscape_mark {mark c : Char} (h : (mark, c) ∈ marks) (raw : List Char) :
    skipEscape (mark :: raw) = .ok raw := by
  rw [skipEscape, if_neg (ne_of_mem_marks h), shortEscape?_eq h]

theorem skipEscape_unit {unit : Nat} {digits : List Char} (h : UnitDigits unit digits)
    (raw : List Char) : skipEscape ('u' :: (digits ++ raw)) = .ok raw := by
  rw [skipEscape, if_pos rfl, readUnit_append h]
  rfl

/-- Anything between quotation marks is passed over. -/
theorem skipString_append {raw : List Char} (h : IsBody raw) (rest : List Char) :
    skipString (raw ++ '"' :: rest) = .ok rest := by
  induction h with
  | nil => exact skipString_quote rest
  | plain hc _ ih => rw [List.cons_append, skipString_plain hc, ih]
  | mark hmark _ ih =>
    rw [List.cons_append, List.cons_append, skipString_escape (skipEscape_mark hmark _), ih]
  | unit hdigits _ ih =>
    rw [List.cons_append, List.cons_append, List.append_assoc,
      skipString_escape (skipEscape_unit hdigits _), ih]

/-! ### Keys -/

/-- The parts of a key, as the readers come upon them: blanks and a quotation mark, what the key
is made of, and a colon with blanks around it. -/
theorem IsKey.exists_read {body : List Char → Prop} {lead : List Char} (h : IsKey body lead) :
    ∃ raw back blanks, body raw ∧ IsBlanks blanks ∧
      (∀ rest, skipBlanks (lead ++ rest) = '"' :: (raw ++ '"' :: (back ++ rest))) ∧
      ∀ rest, readColon (back ++ rest) = .ok (blanks ++ rest) := by
  obtain @⟨front, raw, back, blanks, hfront, hraw, hback, hblanks⟩ := h
  refine ⟨raw, back ++ ':' :: blanks, blanks, hraw, hblanks, fun rest => ?_, fun rest => ?_⟩
  · rw [List.append_assoc, List.cons_append, hfront.skipBlanks_append_cons rfl]
    simp
  · rw [List.append_assoc, List.cons_append, readColon_append hback]

/-! ### Numbers -/

/-- The text does not begin with a character of a kind. -/
def NoHead (p : Char → Bool) (text : List Char) : Prop :=
  ∀ c ∈ text.head?, p c = false

/-- The text may stand behind a value: it is empty, or begins with a blank, a comma or a closing
bracket. -/
def MayFollow (text : List Char) : Prop :=
  ∀ c ∈ text.head?, c ∈ [' ', '\t', '\r', '\n', ',', ']', '\x7d']

theorem NoHead.cons {p : Char → Bool} {c : Char} (h : p c = false) (text : List Char) :
    NoHead p (c :: text) := by
  simpa [NoHead] using h

theorem MayFollow.noHead (h : MayFollow rest) {p : Char → Bool}
    (hp : ∀ c ∈ [' ', '\t', '\r', '\n', ',', ']', '\x7d'], p c = false) : NoHead p rest :=
  fun c hc => hp c (h c hc)

/-- Blanks may come before what may stand behind a value. -/
theorem IsBlanks.mayFollow_append {blanks : List Char} (h : IsBlanks blanks)
    (hrest : MayFollow rest) : MayFollow (blanks ++ rest) := by
  cases blanks with
  | nil => exact hrest
  | cons c blanks =>
    intro d hd
    obtain rfl : c = d := by simpa using hd
    exact List.mem_append_left [',', ']', '\x7d'] (h c List.mem_cons_self)

theorem NoHead.span_append {p : Char → Bool} {front : List Char}
    (hfront : ∀ c ∈ front, p c = true) (hrest : NoHead p rest) :
    (front ++ rest).takeWhile p = front ∧ (front ++ rest).dropWhile p = rest := by
  rw [List.takeWhile_append_of_pos hfront, List.dropWhile_append_of_pos hfront]
  cases rest with
  | nil => simp
  | cons c rest =>
    have hc : p c = false := hrest c (by simp)
    simp [hc]

theorem readDigits_append {atEnd : Cause} {digits : List Char} (h : AreDigits digits)
    (hrest : NoHead Char.isDigit rest) :
    readDigits atEnd (digits ++ rest) = .ok (digits, rest) := by
  obtain ⟨hne, hdigits⟩ := h
  obtain ⟨htake, hdrop⟩ := hrest.span_append hdigits
  cases digits with
  | nil => exact absurd rfl hne
  | cons c digits =>
    rw [List.cons_append] at htake hdrop ⊢
    rw [readDigits, if_pos (hdigits c List.mem_cons_self), htake, hdrop]

theorem readWhole_append {atEnd : Cause} {whole : List Char} (h : IsWhole whole)
    (hrest : NoHead Char.isDigit rest) :
    readWhole atEnd (whole ++ rest) = .ok (whole, rest) := by
  rcases h with rfl | ⟨⟨hne, hdigits⟩, hzero⟩
  · -- A zero is a whole number by itself, and another digit behind it would be a fault.
    cases rest with
    | nil => rfl
    | cons c rest =>
      have hc : c.isDigit = false := hrest c (by simp)
      simp [readWhole, hc]
  · obtain ⟨htake, hdrop⟩ := hrest.span_append hdigits
    cases whole with
    | nil => exact absurd rfl hne
    | cons c whole =>
      have hc : c ≠ '0' := by simpa using hzero
      rw [List.cons_append] at htake hdrop ⊢
      simp only [readWhole, hdigits c List.mem_cons_self, Bool.not_true, Bool.false_eq_true,
        ↓reduceIte, if_neg hc, htake, hdrop]

theorem readFraction_append (atEnd : Cause) {fraction : List Char} (h : IsFraction fraction)
    (hrest : NoHead Char.isDigit rest) (hpoint : NoHead (· == '.') rest) :
    ∃ found, readFraction atEnd (fraction ++ rest) = .ok (found, rest) := by
  rcases h with rfl | ⟨digits, hdigits, rfl⟩
  · refine ⟨none, ?_⟩
    cases rest with
    | nil => rfl
    | cons c rest =>
      have hc : c ≠ '.' := by simpa using hpoint c (by simp)
      rw [List.nil_append, readFraction, if_neg hc]
  · refine ⟨some digits, ?_⟩
    rw [List.cons_append, readFraction, if_pos rfl, readDigits_append hdigits hrest]
    rfl

theorem splitSign_append {sign digits : List Char} (hsign : sign ∈ [[], ['+'], ['-']])
    (hdigits : AreDigits digits) (rest : List Char) :
    (splitSign (sign ++ (digits ++ rest))).2 = digits ++ rest := by
  obtain ⟨hne, hdigits⟩ := hdigits
  simp only [List.mem_cons, List.not_mem_nil, or_false] at hsign
  rcases hsign with rfl | rfl | rfl
  · cases digits with
    | nil => exact absurd rfl hne
    | cons c digits =>
      have hc : c.isDigit = true := hdigits c List.mem_cons_self
      have hminus : c ≠ '-' := by
        rintro rfl
        exact absurd hc (by decide)
      have hplus : c ≠ '+' := by
        rintro rfl
        exact absurd hc (by decide)
      rw [List.nil_append, List.cons_append, splitSign, if_neg hminus, if_neg hplus]
  · rfl
  · rfl

theorem readExponent_append (atEnd : Cause) {exponent : List Char} (h : IsExponent exponent)
    (hrest : NoHead Char.isDigit rest) (hletter : NoHead (fun c => c == 'e' || c == 'E') rest) :
    ∃ found, readExponent atEnd (exponent ++ rest) = .ok (found, rest) := by
  cases h with
  | absent =>
    refine ⟨none, ?_⟩
    cases rest with
    | nil => rfl
    | cons c rest =>
      have hc : (c == 'e' || c == 'E') = false := hletter c (by simp)
      rw [List.nil_append, readExponent, if_neg (by simpa using hc)]
  | @present letter sign digits hmark hsign hdigits =>
    refine ⟨some ⟨(splitSign (sign ++ (digits ++ rest))).1, digits⟩, ?_⟩
    have hmark' : letter = 'e' ∨ letter = 'E' := by simpa using hmark
    rw [List.cons_append, List.append_assoc, readExponent, if_pos (by simpa using hmark'),
      splitSign_append hsign hdigits, readDigits_append hdigits hrest]
    rfl

/-- A point or the letter of an exponent comes where the digits end. -/
theorem IsExponent.noHead_append {exponent : List Char} (h : IsExponent exponent)
    {p : Char → Bool} (hp : ∀ c ∈ ['e', 'E'], p c = false) (hrest : NoHead p rest) :
    NoHead p (exponent ++ rest) := by
  cases h with
  | absent => exact hrest
  | present hletter => exact NoHead.cons (hp _ hletter) _

theorem IsFraction.noHead_append {fraction : List Char} (h : IsFraction fraction)
    {p : Char → Bool} (hp : p '.' = false) (hrest : NoHead p rest) :
    NoHead p (fraction ++ rest) := by
  rcases h with rfl | ⟨digits, -, rfl⟩
  · exact hrest
  · exact NoHead.cons hp _

/-- A number is read to its end. -/
theorem readNumeral_append (atEnd : Cause) {text : List Char} (h : IsUnsigned text)
    (hrest : MayFollow rest) : ∃ n, readNumeral atEnd (text ++ rest) = .ok (n, rest) := by
  obtain @⟨whole, fraction, exponent, hwhole, hfraction, hexponent⟩ := h
  -- Each part ends where the next one begins, so the parts behind it are looked at first.
  have hdigit : NoHead Char.isDigit rest := hrest.noHead (by simp)
  have hexponent_digit : NoHead Char.isDigit (exponent ++ rest) :=
    hexponent.noHead_append (by simp) hdigit
  have hexponent_point : NoHead (· == '.') (exponent ++ rest) :=
    hexponent.noHead_append (by simp) (hrest.noHead (by simp))
  have hfraction_digit : NoHead Char.isDigit (fraction ++ (exponent ++ rest)) :=
    hfraction.noHead_append (by simp) hexponent_digit
  obtain ⟨found, hread⟩ :=
    readFraction_append atEnd hfraction hexponent_digit hexponent_point
  obtain ⟨power, hpower⟩ :=
    readExponent_append atEnd hexponent hdigit (hrest.noHead (by simp))
  refine ⟨⟨whole, found, power⟩, ?_⟩
  rw [List.append_assoc, List.append_assoc, readNumeral, readWhole_append hwhole hfraction_digit]
  dsimp only [ok_bind]
  rw [hread]
  dsimp only [ok_bind]
  rw [hpower]
  rfl

end PathRouting.Json
