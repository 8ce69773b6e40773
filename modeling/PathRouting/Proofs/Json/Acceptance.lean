import PathRouting.Proofs.Json.Tokens
import PathRouting.Proofs.Json.Values

/-!
# What the readers take

Whatever a reader takes off the front of a text is a token of the grammar, and passing over a
value takes one whole value with blanks before it. So there is no way around the grammar: a text
that breaks it anywhere is at fault.

While values are passed over, the open brackets are kept in a list. The invariant says what the
text behind a value has to be like if all of them are closed: blanks, more items with a comma
before each of them, and the bracket, once for each open frame. An item that is still to be read
becomes the first one of its frame.

## Main definitions

* `Json.Item.Fits` — an item of a frame whose value is passed over
* `Json.Closes` — the text that closes all open frames
* `Json.Meets` — the text that is due

## Main results

* `Json.exists_of_readString` — a text that is read was spelled
* `Json.exists_of_skipString` — what is passed over up to a quotation mark may stand before it
* `Json.exists_of_readNumeral` — a number that is read is a number of the grammar
* `Json.exists_of_skip` — what is passed over is what was due
* `Json.exists_of_skipValue` — a value is passed over whole
-/

namespace PathRouting.Json

open Text.Percent (IsDigit)

variable {text rest : List Char}

/-! ### Blanks, words and colons -/

theorem exists_skipBlanks (text : List Char) :
    ∃ blanks, IsBlanks blanks ∧ text = blanks ++ skipBlanks text :=
  ⟨text.takeWhile isBlank, fun c hc => isBlank_iff.mp (List.all_eq_true.mp List.all_takeWhile c hc),
    List.takeWhile_append_dropWhile.symm⟩

/-- Only blanks come before the first token. -/
theorem exists_of_skipBlanks {left : List Char} (h : skipBlanks text = left) :
    ∃ blanks, IsBlanks blanks ∧ text = blanks ++ left :=
  h ▸ exists_skipBlanks text

theorem eq_append_of_readWord {word : List Char} (h : readWord word text = .ok rest) :
    text = word ++ rest := by
  fun_induction readWord word text with
  | case1 text =>
    obtain rfl : text = rest := by simpa using h
    rfl
  | case2 => simp at h
  | case3 word c left ih => rw [ih h, List.cons_append]
  | case4 => simp at h

theorem exists_of_readColon (h : readColon text = .ok rest) :
    ∃ back, IsBlanks back ∧ text = back ++ ':' :: rest := by
  unfold readColon at h
  split at h
  · simp at h
  · rename_i c left hblank
    split at h
    · rename_i hc
      obtain rfl : left = rest := by simpa using h
      obtain ⟨back, hback, htext⟩ := exists_of_skipBlanks hblank
      exact ⟨back, hback, by rw [htext, hc]⟩
    · simp at h

/-! ### Escapes -/

/-- Only digits of either case have a value. -/
theorem isDigit_of_hexDigit? {c : Char} {n : Nat} (h : hexDigit? c = some n) :
    ∃ d : Fin 16, d.val = n ∧ IsDigit d.val c := by
  have hascii : ∀ k : Fin 128, ∀ n ∈ hexDigit? (Char.ofNat k),
      ∃ d : Fin 16, d.val = n ∧ IsDigit d.val (Char.ofNat k) := by
    decide
  have hlt : c.toNat < 128 := by
    have h9 : ('9' : Char).val.toNat = 57 := rfl
    have hf : ('f' : Char).val.toNat = 102 := rfl
    have hF : ('F' : Char).val.toNat = 70 := rfl
    simp only [hexDigit?, Bool.and_eq_true, decide_eq_true_eq, Char.le_def,
      UInt32.le_iff_toNat_le] at h
    change c.val.toNat < 128
    split at h
    · omega
    split at h
    · omega
    split at h
    · omega
    · cases h
  have hc := hascii ⟨c.toNat, hlt⟩ n
  rw [Char.ofNat_toNat] at hc
  exact hc h

theorem exists_of_readUnit {unit : Nat} (h : readUnit text = .ok (unit, rest)) :
    ∃ digits, UnitDigits unit digits ∧ text = digits ++ rest := by
  unfold readUnit at h
  split at h
  · rename_i a b c d left
    split at h
    · rename_i ha hb hc hd
      obtain ⟨p, rfl, hp⟩ := isDigit_of_hexDigit? ha
      obtain ⟨q, rfl, hq⟩ := isDigit_of_hexDigit? hb
      obtain ⟨r, rfl, hr⟩ := isDigit_of_hexDigit? hc
      obtain ⟨s, rfl, hs⟩ := isDigit_of_hexDigit? hd
      obtain ⟨rfl, rfl⟩ : _ = unit ∧ left = rest := by simpa using h
      exact ⟨[a, b, c, d], .intro hp hq hr hs, rfl⟩
    · exact absurd h noUnit_ne_ok
  · exact absurd h noUnit_ne_ok

theorem UnitDigits.lt {unit : Nat} {digits : List Char} (h : UnitDigits unit digits) :
    unit < 0x10000 := by
  obtain @⟨a, b, c, d, _, _, _, _, _, _, _, _⟩ := h
  omega

/-- A code point that is no half of a character is the number of its character. -/
theorem toNat_ofNat {n : Nat} (h : n < 0xD800 ∨ 0xDFFF < n ∧ n < 0x110000) :
    (Char.ofNat n).toNat = n :=
  Text.Utf8.val_ofNat h

theorem mem_marks_of_shortEscape? {mark c : Char} (h : shortEscape? mark = some c) :
    (mark, c) ∈ marks := by
  unfold shortEscape? at h
  -- One case for each mark, and one for all other characters.
  repeat' split at h
  all_goals cases h
  all_goals subst mark; decide

/-- A first half and the escape of the second one behind it are the escape of a character. -/
theorem exists_of_readSecondHalf {high : Nat} {digits : List Char} {c : Char}
    (hdigits : UnitDigits high digits) (hhigh : isHighSurrogate high = true)
    (h : readSecondHalf high text = .ok (c, rest)) :
    ∃ escape, IsEscape c ('u' :: (digits ++ escape)) ∧ text = escape ++ rest := by
  unfold readSecondHalf at h
  split at h
  · simp at h
  rename_i slash left
  split at h
  · rename_i hslash
    split at h
    · simp at h
    rename_i u after
    split at h
    · rename_i hu
      obtain ⟨⟨low, left⟩, hunit, h⟩ := bind_eq_ok_iff.mp h
      dsimp only at h
      split at h
      · rename_i hlow
        obtain ⟨hc, rfl⟩ : _ = c ∧ left = rest := by simpa using h
        obtain ⟨lowDigits, hlowDigits, rfl⟩ := exists_of_readUnit hunit
        rw [isHighSurrogate_iff] at hhigh
        rw [isLowSurrogate_iff] at hlow
        have hvalue : c.toNat = 0x10000 + (high - 0xD800) * 0x400 + (low - 0xDC00) := by
          rw [← hc]
          exact toNat_ofNat (by omega)
        -- The halves are found again in the number of the character.
        have hfirst : 0xD800 + (c.toNat - 0x10000) / 0x400 = high := by omega
        have hsecond : 0xDC00 + (c.toNat - 0x10000) % 0x400 = low := by omega
        rw [← hfirst] at hdigits
        rw [← hsecond] at hlowDigits
        refine ⟨'\\' :: 'u' :: lowDigits, .pair (by omega) hdigits hlowDigits, ?_⟩
        rw [hslash, hu, List.cons_append, List.cons_append]
      · simp at h
    · simp at h
  · simp at h

theorem exists_of_readEscape {c : Char} (h : readEscape text = .ok (c, rest)) :
    ∃ escape, IsEscape c escape ∧ text = escape ++ rest := by
  unfold readEscape at h
  split at h
  · simp at h
  rename_i u left
  split at h
  · rename_i hu
    obtain ⟨⟨unit, after⟩, hunit, hread⟩ := bind_eq_ok_iff.mp h
    obtain ⟨digits, hdigits, hleft⟩ := exists_of_readUnit hunit
    subst hu hleft
    dsimp only at hread
    split at hread
    · simp at hread
    rename_i hlow
    split at hread
    · rename_i hhigh
      obtain ⟨escape, hescape, rfl⟩ := exists_of_readSecondHalf hdigits hhigh hread
      exact ⟨_, hescape, by rw [List.cons_append, List.append_assoc]⟩
    · rename_i hhigh
      obtain ⟨hc, rfl⟩ : _ = c ∧ after = rest := by simpa using hread
      have hlt := hdigits.lt
      rw [isLowSurrogate_iff] at hlow
      rw [isHighSurrogate_iff] at hhigh
      have hvalue : c.toNat = unit := by
        rw [← hc]
        exact toNat_ofNat (by omega)
      rw [← hvalue] at hdigits
      exact ⟨'u' :: digits, .unit hdigits, by rw [List.cons_append]⟩
  · split at h
    · rename_i x hmark
      obtain ⟨rfl, rfl⟩ : x = c ∧ left = rest := by simpa using h
      exact ⟨[u], .mark (mem_marks_of_shortEscape? hmark), rfl⟩
    · simp at h

/-! ### Texts -/

/-- A character that is neither a mark of a text nor a control may stand for itself. -/
theorem isPlain_of_not_lt {c : Char} (hquote : c ≠ '"') (hslash : c ≠ '\\') (hmin : ¬ c < ' ') :
    IsPlain c :=
  ⟨Char.not_lt.mp hmin, hquote, hslash⟩

/-- A text that is read was spelled. -/
theorem exists_of_readString {spelled : List Char} (h : readString text = .ok (spelled, rest)) :
    ∃ raw, Spells spelled raw ∧ text = raw ++ '"' :: rest := by
  fun_induction readString text generalizing spelled with
  | case1 => simp at h
  | case2 left =>
    obtain ⟨rfl, rfl⟩ : [] = spelled ∧ left = rest := by simpa using h
    exact ⟨[], .nil, rfl⟩
  | case3 => simp at h
  | case4 left x after hescape _ ih =>
    obtain ⟨⟨xs, left⟩, hread, h⟩ := bind_eq_ok_iff.mp h
    obtain ⟨rfl, rfl⟩ : x :: xs = spelled ∧ left = rest := by simpa using h
    obtain ⟨raw, hraw, hafter⟩ := ih hread
    obtain ⟨escape, hcode, hleft⟩ := exists_of_readEscape hescape
    exact ⟨'\\' :: (escape ++ raw), .escaped hcode hraw, by rw [hleft, hafter]; simp⟩
  | case5 => simp at h
  | case6 c left hquote hslash hmin ih =>
    obtain ⟨⟨xs, left⟩, hread, h⟩ := bind_eq_ok_iff.mp h
    obtain ⟨rfl, rfl⟩ : c :: xs = spelled ∧ left = rest := by simpa using h
    obtain ⟨raw, hraw, rfl⟩ := ih hread
    exact ⟨c :: raw, .plain (isPlain_of_not_lt hquote hslash hmin) hraw, rfl⟩

theorem IsBody.of_skipEscape {raw : List Char} (h : skipEscape text = .ok (raw ++ rest))
    (hraw : IsBody raw) : ∃ body, IsBody body ∧ '\\' :: text = body ++ rest := by
  unfold skipEscape at h
  split at h
  · simp at h
  rename_i u left
  split at h
  · rename_i hu
    obtain ⟨⟨unit, after⟩, hunit, h⟩ := bind_eq_ok_iff.mp h
    obtain rfl : after = raw ++ rest := by simpa using h
    obtain ⟨digits, hdigits, rfl⟩ := exists_of_readUnit hunit
    exact ⟨'\\' :: 'u' :: (digits ++ raw), .unit hdigits hraw, by simp [hu]⟩
  · split at h
    · rename_i x hmark
      obtain rfl : left = raw ++ rest := by simpa using h
      exact ⟨'\\' :: u :: raw, .mark (mem_marks_of_shortEscape? hmark) hraw, rfl⟩
    · simp at h

/-- What is passed over up to a quotation mark may stand before it. -/
theorem exists_of_skipString (h : skipString text = .ok rest) :
    ∃ raw, IsBody raw ∧ text = raw ++ '"' :: rest := by
  fun_induction skipString text with
  | case1 => simp at h
  | case2 left =>
    obtain rfl : left = rest := by simpa using h
    exact ⟨[], .nil, rfl⟩
  | case3 => simp at h
  | case4 left after hescape _ ih =>
    obtain ⟨raw, hraw, rfl⟩ := ih h
    exact hraw.of_skipEscape hescape
  | case5 => simp at h
  | case6 c left hquote hslash hmin ih =>
    obtain ⟨raw, hraw, rfl⟩ := ih h
    exact ⟨c :: raw, .plain (isPlain_of_not_lt hquote hslash hmin) hraw, rfl⟩

/-! ### Numbers -/

/-- The digits at the front of a text that begins with one. -/
theorem areDigits_takeWhile {c : Char} (hc : c.isDigit = true) (left : List Char) :
    AreDigits ((c :: left).takeWhile Char.isDigit) := by
  refine ⟨?_, List.all_eq_true.mp List.all_takeWhile⟩
  rw [List.takeWhile_cons_of_pos hc]
  exact List.cons_ne_nil _ _

theorem areDigits_of_readDigits {atEnd : Cause} {digits : List Char}
    (h : readDigits atEnd text = .ok (digits, rest)) :
    AreDigits digits ∧ text = digits ++ rest := by
  unfold readDigits at h
  split at h
  · simp at h
  rename_i c left
  split at h
  · rename_i hc
    obtain ⟨rfl, rfl⟩ : _ = digits ∧ _ = rest := by simpa using h
    exact ⟨areDigits_takeWhile hc left, List.takeWhile_append_dropWhile.symm⟩
  · simp at h

theorem isWhole_of_readWhole {atEnd : Cause} {whole : List Char}
    (h : readWhole atEnd text = .ok (whole, rest)) : IsWhole whole ∧ text = whole ++ rest := by
  unfold readWhole at h
  split at h
  · simp at h
  rename_i c left
  split at h
  · simp at h
  rename_i hc
  have hc : c.isDigit = true := by simpa using hc
  split at h
  · rename_i hzero
    subst hzero
    -- A zero stands alone, whatever comes next.
    split at h
    · obtain ⟨rfl, rfl⟩ : ['0'] = whole ∧ [] = rest := by simpa using h
      exact ⟨.inl rfl, rfl⟩
    · split at h
      · simp at h
      · obtain ⟨rfl, rfl⟩ : ['0'] = whole ∧ _ = rest := by simpa using h
        exact ⟨.inl rfl, rfl⟩
  · rename_i hzero
    obtain ⟨rfl, rfl⟩ : _ = whole ∧ _ = rest := by simpa using h
    refine ⟨.inr ⟨areDigits_takeWhile hc left, ?_⟩, List.takeWhile_append_dropWhile.symm⟩
    rw [List.takeWhile_cons_of_pos hc]
    simpa using hzero

theorem exists_of_readFraction {atEnd : Cause} {found : Option (List Char)}
    (h : readFraction atEnd text = .ok (found, rest)) :
    ∃ fraction, IsFraction fraction ∧ text = fraction ++ rest := by
  unfold readFraction at h
  split at h
  · obtain ⟨-, rfl⟩ : _ ∧ [] = rest := by simpa using h
    exact ⟨[], .inl rfl, rfl⟩
  rename_i c left
  split at h
  · rename_i hpoint
    obtain ⟨⟨digits, after⟩, hread, h⟩ := bind_eq_ok_iff.mp h
    obtain ⟨-, rfl⟩ : _ ∧ after = rest := by simpa using h
    obtain ⟨hdigits, rfl⟩ := areDigits_of_readDigits hread
    exact ⟨'.' :: digits, .inr ⟨digits, hdigits, rfl⟩, by rw [hpoint, List.cons_append]⟩
  · obtain ⟨-, rfl⟩ : _ ∧ c :: left = rest := by simpa using h
    exact ⟨[], .inl rfl, rfl⟩

theorem exists_sign (text : List Char) :
    ∃ sign ∈ [[], ['+'], ['-']], text = sign ++ (splitSign text).2 := by
  fun_cases splitSign text with
  | case1 => exact ⟨[], by simp, rfl⟩
  | case2 left => exact ⟨['-'], by simp, rfl⟩
  | case3 left => exact ⟨['+'], by simp, rfl⟩
  | case4 c left => exact ⟨[], by simp, rfl⟩

theorem exists_of_readExponent {atEnd : Cause} {found : Option Exponent}
    (h : readExponent atEnd text = .ok (found, rest)) :
    ∃ exponent, IsExponent exponent ∧ text = exponent ++ rest := by
  unfold readExponent at h
  split at h
  · obtain ⟨-, rfl⟩ : _ ∧ [] = rest := by simpa using h
    exact ⟨[], .absent, rfl⟩
  rename_i letter left
  split at h
  · rename_i hletter
    have hletter : letter ∈ ['e', 'E'] := by simpa using hletter
    obtain ⟨⟨digits, after⟩, hread, h⟩ := bind_eq_ok_iff.mp h
    obtain ⟨-, rfl⟩ : _ ∧ after = rest := by simpa using h
    obtain ⟨hdigits, hsplit⟩ := areDigits_of_readDigits hread
    obtain ⟨sign, hsign, hleft⟩ := exists_sign left
    refine ⟨letter :: (sign ++ digits), .present hletter hsign hdigits, ?_⟩
    rw [hleft, hsplit, List.cons_append, List.append_assoc]
  · obtain ⟨-, rfl⟩ : _ ∧ letter :: left = rest := by simpa using h
    exact ⟨[], .absent, rfl⟩

/-- A number that is read is a number of the grammar. -/
theorem exists_of_readNumeral {atEnd : Cause} {n : Numeral}
    (h : readNumeral atEnd text = .ok (n, rest)) :
    ∃ number, IsUnsigned number ∧ text = number ++ rest := by
  obtain ⟨⟨whole, rest₁⟩, hread₁, h⟩ := bind_eq_ok_iff.mp h
  obtain ⟨⟨found, rest₂⟩, hread₂, h⟩ := bind_eq_ok_iff.mp h
  obtain ⟨⟨power, rest₃⟩, hread₃, h⟩ := bind_eq_ok_iff.mp h
  obtain ⟨-, rfl⟩ : _ ∧ rest₃ = rest := by simpa using h
  obtain ⟨hwhole, htext⟩ := isWhole_of_readWhole hread₁
  obtain ⟨fraction, hfraction, hrest₁⟩ := exists_of_readFraction hread₂
  obtain ⟨exponent, hexponent, hrest₂⟩ := exists_of_readExponent hread₃
  refine ⟨whole ++ (fraction ++ exponent), .intro hwhole hfraction hexponent, ?_⟩
  rw [htext, hrest₁, hrest₂, List.append_assoc, List.append_assoc]

/-- A word, a text or a number that is passed over is a value. -/
theorem exists_of_skipScalar (h : skipScalar text = .ok rest) :
    ∃ value, IsValue value ∧ text = value ++ rest := by
  unfold skipScalar at h
  split at h
  · simp at h
  rename_i c left
  split at h
  · rename_i hc
    rw [hc, eq_append_of_readWord h]
    exact ⟨['n', 'u', 'l', 'l'], .word (by decide), rfl⟩
  split at h
  · rename_i hc
    rw [hc, eq_append_of_readWord h]
    exact ⟨['t', 'r', 'u', 'e'], .word (by decide), rfl⟩
  split at h
  · rename_i hc
    rw [hc, eq_append_of_readWord h]
    exact ⟨['f', 'a', 'l', 's', 'e'], .word (by decide), rfl⟩
  split at h
  · rename_i hc
    obtain ⟨raw, hraw, rfl⟩ := exists_of_skipString h
    exact ⟨'"' :: (raw ++ ['"']), .string hraw, by simp [hc]⟩
  split at h
  · rename_i hc
    obtain ⟨⟨n, after⟩, hread, h⟩ := bind_eq_ok_iff.mp h
    obtain rfl : after = rest := by simpa using h
    obtain ⟨number, hnumber, rfl⟩ := exists_of_readNumeral hread
    exact ⟨'-' :: number, .number (.negative hnumber), by rw [hc, List.cons_append]⟩
  split at h
  · obtain ⟨⟨n, after⟩, hread, h⟩ := bind_eq_ok_iff.mp h
    obtain rfl : after = rest := by simpa using h
    obtain ⟨number, hnumber, htext⟩ := exists_of_readNumeral hread
    exact ⟨number, .number (.positive hnumber), htext⟩
  · simp at h

/-! ### Items -/

/-- An item of a frame whose value is passed over. -/
structure Item.Fits (frame : Frame) (item : Item) : Prop where
  /-- Its front is that of an item of the frame. -/
  lead : frame.IsLead IsBody item.lead
  /-- Its value is a value. -/
  value : IsValue item.value
  /-- Blanks may follow. -/
  after : IsBlanks item.after

theorem IsBlanks.append {a b : List Char} (ha : IsBlanks a) (hb : IsBlanks b) :
    IsBlanks (a ++ b) :=
  List.forall_mem_append.mpr ⟨ha, hb⟩

/-- There may be more blanks before an item. -/
theorem Frame.IsLead.append {body : List Char → Prop} {frame : Frame} {blanks lead : List Char}
    (h : frame.IsLead body lead) (hblanks : IsBlanks blanks) :
    frame.IsLead body (blanks ++ lead) := by
  cases frame with
  | list => exact IsBlanks.append hblanks h
  | object =>
    obtain @⟨front, raw, back, more, hfront, hraw, hback, hmore⟩ := h
    rw [← List.append_assoc]
    exact .intro (hblanks.append hfront) hraw hback hmore

/-- The items behind the first one have commas before them. -/
theorem Item.joined_cons (item : Item) (items : List Item) :
    Item.joined (item :: items) = item.text ++ items.flatMap fun next => ',' :: next.text := by
  induction items generalizing item with
  | nil => simp
  | cons next items ih => rw [Item.joined_cons_cons, ih, List.flatMap_cons, List.cons_append]

/-- What is passed over before a value may stand there, and so may blanks behind it. -/
theorem exists_of_skipKey {frame : Frame} (h : frame.skipKey text = .ok rest) :
    ∃ lead, text = lead ++ rest ∧
      ∀ blanks, IsBlanks blanks → frame.IsLead IsBody (lead ++ blanks) := by
  cases frame with
  | list =>
    obtain rfl : text = rest := by simpa [Frame.skipKey] using h
    exact ⟨[], rfl, fun blanks hblanks => hblanks⟩
  | object =>
    dsimp only [Frame.skipKey] at h
    split at h
    · simp at h
    rename_i c left hblank
    split at h
    · rename_i hc
      obtain ⟨after, hskip, hcolon⟩ := bind_eq_ok_iff.mp h
      obtain ⟨front, hfront, rfl⟩ := exists_of_skipBlanks hblank
      obtain ⟨raw, hraw, rfl⟩ := exists_of_skipString hskip
      obtain ⟨back, hback, rfl⟩ := exists_of_readColon hcolon
      refine ⟨front ++ '"' :: (raw ++ '"' :: (back ++ [':'])), by simp [hc], ?_⟩
      intro blanks hblanks
      have hkey := IsKey.intro hfront hraw hback hblanks
      simpa [Frame.IsLead] using hkey
    · simp at h

/-! ### What is due -/

/-- The text behind a value that closes all open frames. -/
inductive Closes : List Frame → List Char → Prop
  | done : Closes [] []
  | frame {frame : Frame} {outer : List Frame} {items : List Item} {after more : List Char}
    (hafter : IsBlanks after) (hitems : ∀ item ∈ items, Item.Fits frame item)
    (hmore : Closes outer more) :
    Closes (frame :: outer)
      (after ++ ((items.flatMap fun item => ',' :: item.text) ++ frame.closing :: more))

/-- The text that is due and closes all open frames. -/
inductive Meets : Due → List Frame → List Char → Prop
  | value {frames : List Frame} {blanks value more : List Char} (hblanks : IsBlanks blanks)
    (hvalue : IsValue value) (hmore : Closes frames more) :
    Meets .value frames (blanks ++ (value ++ more))
  | behind {frames : List Frame} {more : List Char} (hmore : Closes frames more) :
    Meets (.item false) frames more
  | inside {frame : Frame} {outer : List Frame} {items : List Item} {inner more : List Char}
    (hinside : Inside items inner) (hitems : ∀ item ∈ items, Item.Fits frame item)
    (hmore : Closes outer more) :
    Meets (.item true) (frame :: outer) (inner ++ frame.closing :: more)
  | nothing : Meets (.item true) [] []

namespace Meets

variable {frame : Frame} {frames : List Frame} {used : List Char}

theorem closes (h : Meets (.item false) frames used) : Closes frames used := by
  cases h with
  | behind hmore => exact hmore

/-- What is due inside of brackets makes a value together with them. -/
theorem enclosed (h : Meets (.item true) (frame :: frames) used) {blanks : List Char}
    (hblanks : IsBlanks blanks) : Meets .value frames (blanks ++ frame.opening :: used) := by
  cases h with
  | @inside _ _ items inner more hinside hitems hmore =>
    have hvalue : IsValue (frame.opening :: (inner ++ [frame.closing])) :=
      .enclosed hinside (fun item hitem => (hitems item hitem).lead)
        (fun item hitem => (hitems item hitem).value)
        (fun item hitem => (hitems item hitem).after)
    simpa using Meets.value hblanks hvalue hmore

/-- A bracket closes the innermost frame, whether it has items or not. -/
theorem closing (h : Closes frames used) {blanks : List Char} (hblanks : IsBlanks blanks)
    (isFirst : Bool) :
    Meets (.item isFirst) (frame :: frames) (blanks ++ frame.closing :: used) := by
  cases isFirst with
  | true => exact .inside (.blanks hblanks) (by simp) h
  | false => exact .behind (.frame hblanks (List.forall_mem_nil _) h)

/-- A value that is due in a frame is the first one of some items that close it. -/
theorem exists_items (h : Meets .value (frame :: frames) used) {lead : List Char}
    (hlead : ∀ blanks, IsBlanks blanks → frame.IsLead IsBody (lead ++ blanks)) :
    ∃ item items more, (∀ each ∈ item :: items, Item.Fits frame each) ∧ Closes frames more ∧
      lead ++ used = Item.joined (item :: items) ++ frame.closing :: more := by
  cases h with
  | @value _ blanks value _ hblanks hvalue hclose =>
    cases hclose with
    | @frame _ _ items after more hafter hitems hmore =>
      refine ⟨⟨lead ++ blanks, value, after⟩, items, more, ?_, hmore, ?_⟩
      · exact List.forall_mem_cons.mpr ⟨⟨hlead blanks hblanks, hvalue, hafter⟩, hitems⟩
      · simp [Item.joined_cons, Item.text]

/-- An item that is due behind an opening bracket. -/
theorem first (h : Meets .value (frame :: frames) used) {lead blanks : List Char}
    (hlead : ∀ blanks, IsBlanks blanks → frame.IsLead IsBody (lead ++ blanks))
    (hblanks : IsBlanks blanks) :
    Meets (.item true) (frame :: frames) (blanks ++ (lead ++ used)) := by
  have hlead' : ∀ more, IsBlanks more → frame.IsLead IsBody (blanks ++ lead ++ more) := by
    intro more hmore
    rw [List.append_assoc]
    exact (hlead more hmore).append hblanks
  obtain ⟨item, items, more, hitems, hmore, hused⟩ := h.exists_items hlead'
  rw [← List.append_assoc, hused]
  exact .inside (.items (List.cons_ne_nil item items)) hitems hmore

/-- An item that is due behind a comma. -/
theorem next (h : Meets .value (frame :: frames) used) {lead blanks : List Char}
    (hlead : ∀ blanks, IsBlanks blanks → frame.IsLead IsBody (lead ++ blanks))
    (hblanks : IsBlanks blanks) :
    Meets (.item false) (frame :: frames) (blanks ++ ',' :: (lead ++ used)) := by
  obtain ⟨item, items, more, hitems, hmore, hused⟩ := h.exists_items hlead
  rw [hused]
  have hclose := Closes.frame hblanks hitems hmore
  simpa [Item.joined_cons] using Meets.behind hclose

end Meets

/-! ### Passing over -/

/-- What is passed over is what was due. -/
theorem exists_of_skip {due : Due} {frames : List Frame} (h : skip due frames text = .ok rest) :
    ∃ used, Meets due frames used ∧ text = used ++ rest := by
  fun_induction skip due frames text with
  | case1 => simp at h
  | case2 frames text left hblank ih =>
    obtain ⟨blanks, hblanks, rfl⟩ := exists_of_skipBlanks hblank
    obtain ⟨used, hused, rfl⟩ := ih h
    exact ⟨_, hused.enclosed hblanks, by simp [Frame.opening]⟩
  | case3 frames text left hblank _ ih =>
    obtain ⟨blanks, hblanks, rfl⟩ := exists_of_skipBlanks hblank
    obtain ⟨used, hused, rfl⟩ := ih h
    exact ⟨_, hused.enclosed hblanks, by simp [Frame.opening]⟩
  | case4 => simp at h
  | case5 frames text c left hblank _ _ after hskip ih =>
    obtain ⟨blanks, hblanks, rfl⟩ := exists_of_skipBlanks hblank
    obtain ⟨used, hused, rfl⟩ := ih h
    obtain ⟨value, hvalue, hleft⟩ := exists_of_skipScalar hskip
    exact ⟨_, .value hblanks hvalue hused.closes, by rw [hleft]; simp⟩
  | case6 text isFirst =>
    obtain rfl : text = rest := by simpa using h
    cases isFirst with
    | true => exact ⟨[], .nothing, rfl⟩
    | false => exact ⟨[], .behind .done, rfl⟩
  | case7 => simp at h
  | case8 text isFirst frame outer left hblank ih =>
    obtain ⟨blanks, hblanks, rfl⟩ := exists_of_skipBlanks hblank
    obtain ⟨used, hused, rfl⟩ := ih h
    exact ⟨_, .closing hused.closes hblanks isFirst, by simp⟩
  | case9 => simp at h
  | case10 text frame outer c left hblank _ after hkey ih =>
    obtain ⟨blanks, hblanks, rfl⟩ := exists_of_skipBlanks hblank
    obtain ⟨used, hused, rfl⟩ := ih h
    obtain ⟨lead, hleft, hlead⟩ := exists_of_skipKey hkey
    exact ⟨_, hused.first hlead hblanks, by rw [hleft]; simp⟩
  | case11 => simp at h
  | case12 text isFirst frame outer left hfirst after hkey hblank _ ih =>
    obtain rfl : isFirst = false := by simpa using hfirst
    obtain ⟨blanks, hblanks, rfl⟩ := exists_of_skipBlanks hblank
    obtain ⟨used, hused, rfl⟩ := ih h
    obtain ⟨lead, hleft, hlead⟩ := exists_of_skipKey hkey
    exact ⟨_, hused.next hlead hblanks, by rw [hleft]; simp⟩
  | case13 => simp at h

/-- A value is passed over whole, with the blanks before it. -/
theorem exists_of_skipValue (h : skipValue text = .ok rest) :
    ∃ blanks value, IsBlanks blanks ∧ IsValue value ∧ text = blanks ++ (value ++ rest) := by
  obtain ⟨used, hused, rfl⟩ := exists_of_skip h
  cases hused with
  | @value _ blanks value _ hblanks hvalue hmore =>
    cases hmore
    exact ⟨blanks, value, hblanks, hvalue, by simp⟩

end PathRouting.Json
