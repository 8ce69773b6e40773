import PathRouting.Proofs.Text.Decoding

/-!
# Escaped texts

A text can be written with escapes in many ways: a character stands for itself, or it is
written as the escapes of all its bytes, and the digits may be of either case. A percent sign
has to be escaped, and so has what is reserved where the text is put. Decoding undoes all of
them.

## Main definitions

* `Percent.Triplets` — escapes of some bytes
* `Percent.Escaping` — a way to write a text

## Main results

* `Percent.Escaping.unescape_encode` — replacing the escapes gives the bytes of the text
* `CapturedValue.decode_of_escaping` — decoding gives the text and reports nothing
* `Percent.Escaping.slash_notMem` — a slash that is reserved does not occur
-/

namespace PathRouting

namespace Text

/-- An ASCII character is its own byte. -/
theorem Utf8.encodeChar_of_lt {c : Char} (h : c.val.toNat < 0x80) :
    String.utf8EncodeChar c = [UInt8.ofNat c.val.toNat] := by
  rcases encodeChar_cases c with ⟨-, hform⟩ | ⟨hhigh, -⟩
  · exact hform
  · omega

namespace Percent

/-! ### Digits and escapes -/

/-- A hexadecimal digit of either case, and its value. -/
def IsDigit (n : Nat) (digit : Char) : Prop :=
  digit = n.digitChar ∨ digit = n.digitChar.toUpper

instance (n : Nat) (digit : Char) : Decidable (IsDigit n digit) :=
  inferInstanceAs (Decidable (_ ∨ _))

/-- Escapes of some bytes, one after another. -/
inductive Triplets : List UInt8 → List Char → Prop
  | nil : Triplets [] []
  | cons {b : UInt8} {high low : Char} {bytes : List UInt8} {text : List Char}
    (hhigh : IsDigit (b.toNat / 16) high) (hlow : IsDigit (b.toNat % 16) low)
    (rest : Triplets bytes text) : Triplets (b :: bytes) ('%' :: high :: low :: text)

/-- A way to write a text: each character stands for itself, or all its bytes are escaped. A
percent sign and what is reserved cannot stand for themselves. -/
inductive Escaping (reserved : List Char) : List Char → List Char → Prop
  | nil : Escaping reserved [] []
  | verbatim {c : Char} {text raw : List Char} (hsign : c ≠ '%') (hc : c ∉ reserved)
    (rest : Escaping reserved text raw) : Escaping reserved (c :: text) (c :: raw)
  | escaped {c : Char} {front text raw : List Char}
    (hfront : Triplets (String.utf8EncodeChar c) front)
    (rest : Escaping reserved text raw) : Escaping reserved (c :: text) (front ++ raw)

namespace IsDigit

variable {n : Nat} {digit : Char}

/-- What holds of the digits of both cases holds of every digit. -/
theorem of_forall {p : Nat → Char → Prop}
    (hp : ∀ n : Fin 16, p n (Nat.digitChar n) ∧ p n (Nat.digitChar n).toUpper) (hn : n < 16)
    (h : IsDigit n digit) : p n digit := by
  rcases h with rfl | rfl
  · exact (hp ⟨n, hn⟩).1
  · exact (hp ⟨n, hn⟩).2

theorem val_lt (hn : n < 16) (h : IsDigit n digit) : digit.val.toNat < 0x80 :=
  of_forall (p := fun _ digit => digit.val.toNat < 0x80) (by decide) hn h

theorem ne_slash (hn : n < 16) (h : IsDigit n digit) : digit ≠ '/' :=
  of_forall (p := fun _ digit => digit ≠ '/') (by decide) hn h

theorem hexValue?_eq (hn : n < 16) (h : IsDigit n digit) :
    hexValue? (UInt8.ofNat digit.val.toNat) = some (UInt8.ofNat n) :=
  of_forall (p := fun n digit => hexValue? (UInt8.ofNat digit.val.toNat) = some (UInt8.ofNat n))
    (by decide) hn h

end IsDigit

/-! ### Replacing escapes -/

/-- The halves of a byte make it up. -/
theorem ofNat_halves (b : UInt8) :
    16 * UInt8.ofNat (b.toNat / 16) + UInt8.ofNat (b.toNat % 16) = b := by
  have hb := b.toNat_lt
  rw [← UInt8.toNat_inj, UInt8.toNat_add, UInt8.toNat_mul]
  rw [Utf8.toNat_ofNat_of_lt (by omega), Utf8.toNat_ofNat_of_lt (by omega)]
  have hten : (16 : UInt8).toNat = 16 := rfl
  rw [hten]
  omega

namespace Triplets

variable {bytes : List UInt8} {text : List Char}

theorem unescape_encode (h : Triplets bytes text) (rest : List UInt8) :
    unescape (Utf8.encode text ++ rest) = bytes ++ unescape rest := by
  induction h with
  | nil => rfl
  | @cons b high low bytes text hhigh hlow _ ih =>
    have hb := b.toNat_lt
    have hhigh_lt : b.toNat / 16 < 16 := by omega
    have hlow_lt : b.toNat % 16 < 16 := by omega
    -- The sign and the digits are ASCII, so the escape is three bytes as well.
    have hsign : String.utf8EncodeChar '%' = [sign] := by decide
    rw [Utf8.encode_cons, Utf8.encode_cons, Utf8.encode_cons, hsign,
      Utf8.encodeChar_of_lt (hhigh.val_lt hhigh_lt), Utf8.encodeChar_of_lt (hlow.val_lt hlow_lt)]
    simp only [List.cons_append, List.nil_append]
    rw [unescape, escaped?, if_pos rfl, hhigh.hexValue?_eq hhigh_lt,
      hlow.hexValue?_eq hlow_lt]
    dsimp only
    rw [ofNat_halves, ih]

theorem slash_notMem (h : Triplets bytes text) : '/' ∉ text := by
  induction h with
  | nil => exact List.not_mem_nil
  | @cons b high low bytes text hhigh hlow _ ih =>
    have hb := b.toNat_lt
    have hhigh_ne := hhigh.ne_slash (by omega)
    have hlow_ne := hlow.ne_slash (by omega)
    simp [ih, hhigh_ne.symm, hlow_ne.symm]

theorem eq_nil_iff (h : Triplets bytes text) : text = [] ↔ bytes = [] := by
  cases h <;> simp

end Triplets

namespace Escaping

variable {reserved text raw : List Char}

/-- Replacing the escapes in a written text gives the bytes of the text. -/
theorem unescape_encode (h : Escaping reserved text raw) :
    unescape (Utf8.encode raw) = Utf8.encode text := by
  induction h with
  | nil => rfl
  | @verbatim c text raw hsign _ _ ih =>
    have hnotMem : sign ∉ String.utf8EncodeChar c := by
      rw [Utf8.mem_encodeChar_iff (by decide)]
      intro hval
      exact hsign (Char.ext (UInt32.toNat_inj.mp hval))
    rw [Utf8.encode_cons, Utf8.encode_cons, unescape_append hnotMem, ih]
  | escaped hfront _ ih =>
    rw [Utf8.encode_append, hfront.unescape_encode, ih, Utf8.encode_cons]

/-- Where the slash is reserved, a written text has none. -/
theorem slash_notMem (h : Escaping reserved text raw) (hslash : '/' ∈ reserved) :
    '/' ∉ raw := by
  induction h with
  | nil => exact List.not_mem_nil
  | @verbatim c text raw _ hc _ ih =>
    have hne : c ≠ '/' := by
      intro hsame
      exact hc (hsame ▸ hslash)
    simp [ih, hne.symm]
  | escaped hfront _ ih =>
    rw [List.mem_append, not_or]
    exact ⟨hfront.slash_notMem, ih⟩

theorem eq_nil_iff (h : Escaping reserved text raw) : raw = [] ↔ text = [] := by
  cases h with
  | nil => exact Iff.rfl
  | verbatim => simp
  | @escaped c front text raw hfront =>
    -- Every character has a byte, and so an escape.
    have hne : String.utf8EncodeChar c ≠ [] := by
      obtain ⟨a, tail, hbytes, -⟩ := Utf8.front_encodeChar c []
      rw [hbytes]
      exact List.cons_ne_nil a tail
    simp [hfront.eq_nil_iff, hne]

end Escaping

end Percent

end Text

/-- Decoding a written text gives the text, and nothing is reported. It is the raw text just
if no character was escaped. -/
theorem CapturedValue.decode_of_escaping {reserved text raw : List Char}
    (h : Text.Percent.Escaping reserved text raw) :
    decode (String.ofList raw) = ⟨String.ofList text, text = raw, []⟩ := by
  rw [decode_eq, String.toList_ofList, h.unescape_encode, Text.Utf8.decode_encode]

end PathRouting
