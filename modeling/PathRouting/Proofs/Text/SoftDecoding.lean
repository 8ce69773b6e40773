import PathRouting.Proofs.Text.Prefixes

/-!
# Decoding is all or nothing

The escapes of a captured text are replaced from left to right, and a percent sign that
begins none stays. There is one result, which is shorter by two bytes for each escape. If it
encodes a text, that is the value. If not, the value is the captured text itself, and the one
notice says how far the result encodes a text.

## Main definitions

* `Percent.IsEscape` — the ways to write a byte as an escape
* `Percent.Replaces` — some bytes with their escapes replaced, and how many there were
* `Percent.Separates` — characters that keep escapes and longer sequences apart

## Main results

* `Percent.exists_replaces_iff` — replacing the escapes has one result
* `Percent.Separates.unescape_eq_encode_iff` — both sides of a separator are decoded by
  themselves
* `CapturedValue.decode_fails_soft` — what a captured text is decoded to
-/

namespace PathRouting

open Text

namespace Text

/-- The wording of a fault ends with its place. -/
theorem Utf8.Fault.exists_message_eq (fault : Fault) :
    ∃ wording, fault.message = wording ++ " from index " ++ toString fault.validUpTo := by
  rw [message]
  cases fault.invalidLength? with
  | none => exact ⟨"incomplete utf-8 byte sequence", rfl⟩
  | some n =>
    refine ⟨"invalid utf-8 sequence of " ++ toString n ++ " bytes", ?_⟩
    have hwords : " bytes from index " = " bytes" ++ " from index " := rfl
    dsimp only
    rw [hwords, ← String.append_assoc]

namespace Percent

/-! ### Escapes -/

/-- The bytes of a percent sign and two digits of either case, which stand for a byte. -/
def IsEscape (b : UInt8) (bytes : List UInt8) : Prop :=
  ∃ high low, IsDigit (b.toNat / 16) high ∧ IsDigit (b.toNat % 16) low ∧
    bytes = Utf8.encode ['%', high, low]

/-- Some bytes, the number of the escapes in them, and the bytes with these replaced. They are
read from left to right, and a byte at which no escape begins is kept. -/
inductive Replaces : List UInt8 → Nat → List UInt8 → Prop
  | nil : Replaces [] 0 []
  | escape {b : UInt8} {three bytes plain : List UInt8} {n : Nat} (hescape : IsEscape b three)
    (rest : Replaces bytes n plain) : Replaces (three ++ bytes) (n + 1) (b :: plain)
  | keep {b : UInt8} {bytes plain : List UInt8} {n : Nat}
    (hkeep : ∀ c three, IsEscape c three → ¬ three <+: b :: bytes)
    (rest : Replaces bytes n plain) : Replaces (b :: bytes) n (b :: plain)

/-- A byte with a value is a digit of either case with this value. -/
theorem exists_isDigit_of_hexValue? {digit value : UInt8} (h : hexValue? digit = some value) :
    value.toNat < 16 ∧
      ∃ c : Char, IsDigit value.toNat c ∧ UInt8.ofNat c.val.toNat = digit := by
  have hall : ∀ n : Fin 256, ∀ value ∈ hexValue? (UInt8.ofNat n),
      value.toNat < 16 ∧ IsDigit value.toNat (Char.ofNat n) ∧
        UInt8.ofNat (Char.ofNat n).val.toNat = UInt8.ofNat n := by
    decide +kernel
  have hdigit := hall ⟨digit.toNat, digit.toNat_lt⟩ value
  rw [UInt8.ofNat_toNat] at hdigit
  obtain ⟨hlt, hcase, hbyte⟩ := hdigit h
  exact ⟨hlt, Char.ofNat digit.toNat, hcase, hbyte⟩

/-- The value of two digits has the first one's value above the second one's. -/
theorem toNat_of_halves {high low : UInt8} (hhigh : high.toNat < 16) (hlow : low.toNat < 16) :
    (16 * high + low).toNat / 16 = high.toNat ∧ (16 * high + low).toNat % 16 = low.toNat := by
  have hsixteen : (16 : UInt8).toNat = 16 := rfl
  rw [UInt8.toNat_add, UInt8.toNat_mul, hsixteen]
  omega

theorem encode_escape {n : Nat} (hn : n < 256) {high low : Char} (hhigh : IsDigit (n / 16) high)
    (hlow : IsDigit (n % 16) low) :
    Utf8.encode ['%', high, low] =
      [sign, UInt8.ofNat high.val.toNat, UInt8.ofNat low.val.toNat] := by
  have hsign : String.utf8EncodeChar '%' = [sign] := by decide
  rw [Utf8.encode_cons, Utf8.encode_cons, Utf8.encode_cons, hsign,
    Utf8.encodeChar_of_lt (hhigh.val_lt (by omega)), Utf8.encodeChar_of_lt (hlow.val_lt (by omega))]
  rfl

/-- The escapes of a byte are the three bytes that are read as this byte. -/
theorem isEscape_iff {b : UInt8} {three : List UInt8} :
    IsEscape b three ↔
      ∃ first high low, three = [first, high, low] ∧ escaped? first high low = some b := by
  have hb := b.toNat_lt
  constructor
  · rintro ⟨high, low, hhigh, hlow, rfl⟩
    refine ⟨_, _, _, encode_escape hb hhigh hlow, ?_⟩
    rw [escaped?, if_pos rfl, hhigh.hexValue?_eq (by omega), hlow.hexValue?_eq (by omega)]
    dsimp only
    rw [ofNat_halves]
  · rintro ⟨first, high, low, rfl, hescaped⟩
    rw [escaped?] at hescaped
    split at hescaped
    · rename_i hsign
      split at hescaped
      · rename_i h l hhigh hlow
        obtain rfl := Option.some.inj hescaped
        obtain ⟨hhigh_lt, c, hc, rfl⟩ := exists_isDigit_of_hexValue? hhigh
        obtain ⟨hlow_lt, d, hd, rfl⟩ := exists_isDigit_of_hexValue? hlow
        obtain ⟨hdiv, hmod⟩ := toNat_of_halves hhigh_lt hlow_lt
        rw [← hdiv] at hc
        rw [← hmod] at hd
        exact ⟨c, d, hc, hd, by rw [encode_escape hb hc hd, hsign]⟩
      · cases hescaped
    · cases hescaped

/-! ### Replacing escapes -/

/-- A byte at which no escape begins is kept. -/
theorem unescape_cons_of_keep {b : UInt8} {bytes : List UInt8}
    (h : ∀ c three, IsEscape c three → ¬ three <+: b :: bytes) :
    unescape (b :: bytes) = b :: unescape bytes := by
  match bytes with
  | [] => rfl
  | [low] => rfl
  | high :: low :: rest =>
    cases hescaped : escaped? b high low with
    | none => rw [unescape, hescaped]
    | some c =>
      exact absurd ⟨rest, rfl⟩ (h c [b, high, low] (isEscape_iff.mpr ⟨_, _, _, rfl, hescaped⟩))

theorem Replaces.eq_unescape {bytes plain : List UInt8} {n : Nat} (h : Replaces bytes n plain) :
    plain = unescape bytes := by
  induction h with
  | nil => rfl
  | escape hescape _ ih =>
    obtain ⟨first, high, low, rfl, hescaped⟩ := isEscape_iff.mp hescape
    rw [List.cons_append, List.cons_append, List.cons_append, unescape, hescaped, ih]
    rfl
  | keep hkeep _ ih => rw [unescape_cons_of_keep hkeep, ih]

/-- Each escape makes the bytes shorter by two. -/
theorem Replaces.length_eq {bytes plain : List UInt8} {n : Nat} (h : Replaces bytes n plain) :
    plain.length + 2 * n = bytes.length := by
  induction h with
  | nil => rfl
  | escape hescape _ ih =>
    obtain ⟨first, high, low, rfl, -⟩ := isEscape_iff.mp hescape
    rw [List.length_append, ← ih]
    simp only [List.length_cons, List.length_nil]
    omega
  | keep _ _ ih =>
    rw [List.length_cons, List.length_cons, ← ih]
    omega

theorem replaces_of_length_lt {bytes : List UInt8} (h : bytes.length < 3) :
    Replaces bytes 0 bytes := by
  induction bytes with
  | nil => exact .nil
  | cons b bytes ih =>
    refine .keep ?_ (ih (Nat.lt_of_succ_lt h))
    intro c three hescape hprefix
    obtain ⟨first, high, low, rfl, -⟩ := isEscape_iff.mp hescape
    exact Nat.lt_irrefl 3 (Nat.lt_of_le_of_lt hprefix.length_le h)

theorem exists_replaces (bytes : List UInt8) : ∃ n, Replaces bytes n (unescape bytes) := by
  -- The cases are those of the reading: an escape, a byte that begins none, and the last bytes.
  induction bytes using unescape.induct with
  | case1 first high low rest b hescaped ih =>
    obtain ⟨n, hrest⟩ := ih
    rw [unescape, hescaped]
    exact ⟨n + 1, .escape (isEscape_iff.mpr ⟨first, high, low, rfl, hescaped⟩) hrest⟩
  | case2 first high low rest hnone ih =>
    obtain ⟨n, hrest⟩ := ih
    rw [unescape, hnone]
    refine ⟨n, .keep ?_ hrest⟩
    rintro c three hescape ⟨after, hafter⟩
    obtain ⟨first', high', low', rfl, hescaped⟩ := isEscape_iff.mp hescape
    simp only [List.cons_append, List.nil_append, List.cons.injEq] at hafter
    obtain ⟨rfl, rfl, rfl, -⟩ := hafter
    rw [hnone] at hescaped
    cases hescaped
  | case3 short hshort =>
    rcases short with _ | ⟨first, _ | ⟨high, _ | ⟨low, rest⟩⟩⟩
    · exact ⟨0, .nil⟩
    · exact ⟨0, replaces_of_length_lt (Nat.lt_add_of_pos_right Nat.two_pos)⟩
    · exact ⟨0, replaces_of_length_lt (Nat.lt_add_one 2)⟩
    · exact absurd rfl (hshort first high low rest)

/-- Replacing the escapes has one result, and says how many there were. -/
theorem exists_replaces_iff (bytes : List UInt8) :
    ∃ count, ∀ n plain, Replaces bytes n plain ↔ n = count ∧ plain = unescape bytes := by
  obtain ⟨count, hcount⟩ := exists_replaces bytes
  refine ⟨count, ?_⟩
  intro n plain
  constructor
  · intro h
    have hlength := hcount.length_eq
    rw [← h.eq_unescape, ← h.length_eq] at hlength
    exact ⟨by omega, h.eq_unescape⟩
  · rintro ⟨rfl, rfl⟩
    exact hcount

/-- No escape goes on past a byte that is no part of one. -/
theorem unescape_append_cons {b : UInt8} (hsign : b ≠ sign) (hdigit : hexValue? b = none)
    (front back : List UInt8) :
    unescape (front ++ b :: back) = unescape front ++ b :: unescape back := by
  have hnone : ∀ first other, escaped? first b other = none ∧ escaped? first other b = none := by
    intro first other
    rw [escaped?, escaped?, hdigit]
    split
    · exact ⟨rfl, by cases hexValue? other <;> rfl⟩
    · exact ⟨rfl, rfl⟩
  have hone : ∀ first, unescape (first :: b :: back) = first :: b :: unescape back := by
    intro first
    cases back with
    | nil => rfl
    | cons other back =>
      rw [unescape, (hnone first other).1]
      dsimp only
      rw [unescape_cons hsign]
  induction front using unescape.induct with
  | case1 first high low rest c hescaped ih =>
    simp only [List.cons_append]
    rw [unescape, unescape, hescaped]
    dsimp only
    rw [ih, List.cons_append]
  | case2 first high low rest hescaped ih =>
    simp only [List.cons_append] at ih ⊢
    rw [unescape, unescape, hescaped]
    dsimp only
    rw [ih, List.cons_append]
  | case3 short hshort =>
    rcases short with _ | ⟨first, _ | ⟨high, _ | ⟨low, rest⟩⟩⟩
    · exact unescape_cons hsign back
    · exact hone first
    · simp only [List.cons_append, List.nil_append]
      rw [unescape, (hnone first high).2]
      dsimp only
      rw [hone]
      rfl
    · exact absurd rfl (hshort first high low rest)

/-- What is replaced has a byte for each escape. -/
theorem unescape_eq_nil_iff {bytes : List UInt8} : unescape bytes = [] ↔ bytes = [] := by
  constructor
  · intro h
    obtain ⟨n, hreplaces⟩ := exists_replaces bytes
    rw [h] at hreplaces
    cases hreplaces
    rfl
  · rintro rfl
    rfl

/-! ### Separators -/

/-- A character that is no part of an escape and no part of a longer sequence of bytes. -/
structure Separates (c : Char) : Prop where
  ascii : c.val.toNat < 0x80
  ne_sign : UInt8.ofNat c.val.toNat ≠ sign
  not_digit : hexValue? (UInt8.ofNat c.val.toNat) = none

/-- The two sides of a separator are decoded by themselves: what results encodes a text just
if both sides do, and then the separator stands between their texts. -/
theorem Separates.unescape_eq_encode_iff {c : Char} (h : Separates c)
    {front back text : List Char} :
    unescape (Utf8.encode (front ++ c :: back)) = Utf8.encode text ↔
      ∃ before after, text = before ++ c :: after ∧
        unescape (Utf8.encode front) = Utf8.encode before ∧
        unescape (Utf8.encode back) = Utf8.encode after := by
  have hbyte := Utf8.encodeChar_of_lt h.ascii
  have hbytes : ∀ a b, Utf8.encode (a ++ c :: b) =
      Utf8.encode a ++ UInt8.ofNat c.val.toNat :: Utf8.encode b := by
    intro a b
    rw [Utf8.encode_append, Utf8.encode_cons, hbyte, List.singleton_append]
  rw [hbytes, unescape_append_cons h.ne_sign h.not_digit]
  constructor
  · intro hplain
    have hlow : (UInt8.ofNat c.val.toNat).toNat < 0x80 := by
      have hascii := h.ascii
      rw [Utf8.toNat_ofNat_of_lt (by omega)]
      exact hascii
    obtain ⟨before, d, after, rfl, hbefore, hd, hafter⟩ :=
      Utf8.exists_of_encode_eq_append_cons hlow hplain.symm
    rw [← hbyte] at hd
    obtain ⟨rfl, -⟩ := Utf8.encodeChar_append_inj (congrArg (· ++ []) hd)
    exact ⟨before, after, rfl, hbefore, hafter⟩
  · rintro ⟨before, after, rfl, hbefore, hafter⟩
    rw [hbytes, hbefore, hafter]

end Percent

end Text

namespace CapturedValue

/-! ### Values -/

theorem decode_of_unescape {raw : String} {text : List Char}
    (h : Percent.unescape (Utf8.encode raw.toList) = Utf8.encode text) :
    decode raw = ⟨String.ofList text, text = raw.toList, []⟩ := by
  rw [decode_eq, h, Utf8.decode_encode]

/-- A value is read from the replaced bytes, or it is the captured text with one notice. -/
theorem decode_cases (raw : String) :
    (∃ text, Percent.unescape (Utf8.encode raw.toList) = Utf8.encode text ∧
      decode raw = ⟨String.ofList text, text = raw.toList, []⟩) ∨
    ∃ fault, Utf8.decode (Percent.unescape (Utf8.encode raw.toList)) = .error fault ∧
      decode raw = ⟨raw, true, [.keptRaw raw fault]⟩ := by
  cases hread : Utf8.decode (Percent.unescape (Utf8.encode raw.toList)) with
  | ok text =>
    have hplain := Utf8.decode_eq_ok_iff.mp hread
    exact .inl ⟨text, hplain, decode_of_unescape hplain⟩
  | error fault =>
    refine .inr ⟨fault, rfl, ?_⟩
    rw [decode_eq, hread]

theorem isRaw_decode_iff (raw : String) : (decode raw).isRaw = true ↔ (decode raw).text = raw := by
  rcases decode_cases raw with ⟨text, -, hvalue⟩ | ⟨fault, -, hvalue⟩
  · rw [hvalue, decide_eq_true_eq]
    constructor
    · rintro rfl
      exact String.ofList_toList
    · intro hsame
      rw [← hsame, String.toList_ofList]
  · rw [hvalue]
    exact iff_of_true rfl rfl

theorem text_decode_eq_empty_iff (raw : String) : (decode raw).text = "" ↔ raw = "" := by
  rcases decode_cases raw with ⟨text, hplain, hvalue⟩ | ⟨fault, -, hvalue⟩
  · have hraw : Utf8.encode raw.toList = [] ↔ raw = "" := by
      rw [← List.length_eq_zero_iff, ← Utf8.size, Utf8.size_eq_zero_iff, String.toList_eq_nil_iff]
    have htext : Utf8.encode text = [] ↔ text = [] := by
      rw [← List.length_eq_zero_iff, ← Utf8.size, Utf8.size_eq_zero_iff]
    rw [hvalue, ← hraw, ← Percent.unescape_eq_nil_iff, hplain, htext]
    exact String.ofList_eq_empty_iff
  · rw [hvalue]

/-- A plus sign is part of no escape and of no longer sequence. So unless the captured text is
kept, it stays, and what is on either side of it is decoded by itself. -/
theorem text_decode_append_plus (front back : String) :
    (decode (front ++ "+" ++ back)).text = front ++ "+" ++ back ∨
      (decode (front ++ "+" ++ back)).text =
        (decode front).text ++ "+" ++ (decode back).text := by
  rcases decode_cases (front ++ "+" ++ back) with ⟨text, hplain, hvalue⟩ | ⟨fault, -, hvalue⟩
  · right
    have hplus : Percent.Separates '+' := ⟨by decide, by decide, by decide⟩
    have hraw : (front ++ "+" ++ back).toList = front.toList ++ '+' :: back.toList := by simp
    rw [hraw, hplus.unescape_eq_encode_iff] at hplain
    obtain ⟨before, after, rfl, hbefore, hafter⟩ := hplain
    rw [hvalue, decode_of_unescape hbefore, decode_of_unescape hafter]
    simp [← String.toList_inj]
  · exact .inl (by rw [hvalue])

/-- For every captured text there is one way to replace its escapes. If the result encodes a
text, this is the value, and nothing is reported. If not, the value is the captured text, and
one notice gives the length of the longest prefix of the result that encodes a text. The value
is the captured text itself just if it equals it; otherwise each escape made it shorter by two
bytes. It is empty just if the captured text is. A plus sign is never changed. -/
theorem decode_fails_soft (raw : String) :
    ∃ count plain,
      (∀ n bytes, Percent.Replaces (Utf8.encode raw.toList) n bytes ↔
        n = count ∧ bytes = plain) ∧
      (∀ text, plain = Utf8.encode text →
        (decode raw).text = String.ofList text ∧ (decode raw).notices = []) ∧
      ((∀ text, plain ≠ Utf8.encode text) →
        (decode raw).text = raw ∧
          ∃ fault, (decode raw).notices = [.keptRaw raw fault] ∧
            (Notice.keptRaw raw fault).level = .trace ∧
            (∃ wording, (Notice.keptRaw raw fault).message = "keep the raw value " ++ quote raw ++
              ": " ++ (wording ++ " from index " ++ toString fault.validUpTo)) ∧
            IsGreatest {n | ∃ text, Utf8.encode text <+: plain ∧ n = (Utf8.encode text).length}
              fault.validUpTo) ∧
      ((decode raw).isRaw = true ↔ (decode raw).text = raw) ∧
      ((decode raw).text ≠ raw →
        (decode raw).text.utf8ByteSize + 2 * count = raw.utf8ByteSize) ∧
      ((decode raw).text = "" ↔ raw = "") ∧
      ∀ front back, raw = front ++ "+" ++ back →
        (decode raw).text = raw ∨
          (decode raw).text = (decode front).text ++ "+" ++ (decode back).text := by
  obtain ⟨count, hreplaces⟩ := Percent.exists_replaces_iff (Utf8.encode raw.toList)
  refine ⟨count, _, hreplaces, ?_, ?_, isRaw_decode_iff raw, ?_,
    text_decode_eq_empty_iff raw, ?_⟩
  · intro text hplain
    rw [decode_of_unescape hplain]
    exact ⟨rfl, rfl⟩
  · intro hnone
    rcases decode_cases raw with ⟨text, hplain, -⟩ | ⟨fault, hfault, hvalue⟩
    · exact absurd hplain (hnone text)
    · obtain ⟨wording, hwording⟩ := fault.exists_message_eq
      have hmessage : (Notice.keptRaw raw fault).message = "keep the raw value " ++ quote raw ++
          ": " ++ (wording ++ " from index " ++ toString fault.validUpTo) := by
        change "keep the raw value " ++ quote raw ++ ": " ++ fault.message = _
        rw [hwording]
      rw [hvalue]
      refine ⟨rfl, fault, rfl, rfl, ⟨wording, hmessage⟩, ?_⟩
      exact Utf8.isGreatest_of_decode_eq_error hfault
  · intro hne
    rcases decode_cases raw with ⟨text, hplain, hvalue⟩ | ⟨fault, -, hvalue⟩
    · have hlength := ((hreplaces _ _).mpr ⟨rfl, rfl⟩).length_eq
      rw [hplain] at hlength
      rw [hvalue, ← Utf8.size_toList, ← Utf8.size_toList raw, String.toList_ofList]
      exact hlength
    · rw [hvalue] at hne
      exact absurd rfl hne
  · rintro front back rfl
    exact text_decode_append_plus front back

/-- The second percent sign begins the escape, the first one stays. The last escape begins a
longer sequence that breaks off, so the text is kept, and the notice counts four bytes. -/
theorem decode_fails_soft_incomplete :
    let raw := "x+%%41%C3"
    let plain : List UInt8 := [0x78, 0x2B, 0x25, 0x41, 0xC3]
    (∀ text, plain ≠ Utf8.encode text) ∧ (decode raw).text = raw ∧
      (decode raw).notices = [.keptRaw raw ⟨4, none⟩] ∧
      IsGreatest {n | ∃ text, Utf8.encode text <+: plain ∧ n = (Utf8.encode text).length} 4 := by
  intro raw plain
  obtain ⟨count, plain', hreplaces, -, hnone, -⟩ := decode_fails_soft raw
  have hplain : plain' = plain := by
    rw [((hreplaces _ _).mpr ⟨rfl, rfl⟩).eq_unescape]
    decide +kernel
  rw [hplain] at hnone
  have hbroken : ∀ text, plain ≠ Utf8.encode text := by
    intro text htext
    have hread : (Utf8.decode plain).toOption = none := by decide +kernel
    rw [htext, Utf8.decode_encode] at hread
    cases hread
  obtain ⟨hkept, fault, hnotices, -, -, hgreatest⟩ := hnone hbroken
  have hfault : (decode raw).notices = [.keptRaw raw ⟨4, none⟩] := by decide +kernel
  rw [hfault] at hnotices
  obtain rfl : ⟨4, none⟩ = fault := by simpa using hnotices
  exact ⟨hbroken, hkept, hfault, hgreatest⟩

end CapturedValue

end PathRouting
