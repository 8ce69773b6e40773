import PathRouting.CapturedValue
import PathRouting.Text.Utf8.RoundTrip

/-!
# Decoding of captured texts

A captured text is decoded by replacing the escapes among its bytes and reading what results
as UTF-8. The search for a percent sign and the test whether an escape was replaced only
save work: where there is nothing to replace, the bytes are read back as the text itself.

## Main definitions

* `CapturedValue.keptRaw?` — the notice about a text whose bytes are not UTF-8 once decoded

## Main results

* `Utf8.mem_encode_iff` — an ASCII byte occurs in a text just if its character does
* `Percent.unescape_append` — without a percent sign nothing is replaced
* `CapturedValue.decode_eq` — the value of a captured text, by its decoded bytes
-/

namespace PathRouting

namespace Text

/-- A character is its own byte if it is ASCII, and otherwise has no ASCII byte. -/
theorem Utf8.encodeChar_cases (c : Char) :
    (c.val.toNat < 0x80 ∧ String.utf8EncodeChar c = [UInt8.ofNat c.val.toNat]) ∨
      (0x80 ≤ c.val.toNat ∧ ∀ b ∈ String.utf8EncodeChar c, 0x80 ≤ b.toNat) := by
  have hc : Char.ofNat c.val.toNat = c := Char.ofNat_toNat c
  have hvalid : c.val.toNat.isValidChar := c.valid
  have hform := encodeChar_ofNat hvalid
  rw [hc] at hform
  rw [hform]
  generalize c.val.toNat = v at hvalid ⊢
  have hhigh : ∀ n, 0x80 ≤ n → n < 256 → 0x80 ≤ (UInt8.ofNat n).toNat := by
    intro n hlow hlt
    rw [toNat_ofNat_of_lt hlt]
    exact hlow
  split
  · exact .inl ⟨by omega, rfl⟩
  · right
    refine ⟨by omega, ?_⟩
    -- Each byte of a longer form has its highest bit set.
    split
    · simp only [List.forall_mem_cons]
      exact ⟨hhigh _ (by omega) (by omega), hhigh _ (by omega) (by omega), by simp⟩
    split
    · simp only [List.forall_mem_cons]
      exact ⟨hhigh _ (by omega) (by omega), hhigh _ (by omega) (by omega),
        hhigh _ (by omega) (by omega), by simp⟩
    · simp only [List.forall_mem_cons]
      exact ⟨hhigh _ (by omega) (by omega), hhigh _ (by omega) (by omega),
        hhigh _ (by omega) (by omega), hhigh _ (by omega) (by omega), by simp⟩

theorem Utf8.mem_encodeChar_iff {b : UInt8} (hb : b.toNat < 0x80) {c : Char} :
    b ∈ String.utf8EncodeChar c ↔ c.val.toNat = b.toNat := by
  rcases encodeChar_cases c with ⟨hlow, hform⟩ | ⟨hhigh, hbytes⟩
  · rw [hform, List.mem_singleton, eq_comm, ofNat_eq_iff (by omega)]
  · constructor
    · intro hmem
      have := hbytes b hmem
      omega
    · intro hsame
      omega

theorem Utf8.mem_encode_iff {b : UInt8} {c : Char} (hc : c.val.toNat = b.toNat)
    (hb : b.toNat < 0x80) {text : List Char} : b ∈ encode text ↔ c ∈ text := by
  rw [encode, List.mem_flatMap]
  constructor
  · rintro ⟨d, hd, hmem⟩
    have hsame : c.val.toNat = d.val.toNat := hc.trans ((mem_encodeChar_iff hb).mp hmem).symm
    obtain rfl : c = d := Char.ext (UInt32.toNat_inj.mp hsame)
    exact hd
  · intro hmem
    exact ⟨c, hmem, (mem_encodeChar_iff hb).mpr hc⟩

/-- What begins an escape is a percent sign. -/
theorem Percent.unescape_cons {b : UInt8} (h : b ≠ sign) (rest : List UInt8) :
    unescape (b :: rest) = b :: unescape rest := by
  match rest with
  | [] => rfl
  | [low] => rfl
  | high :: low :: rest => rw [unescape, escaped?, if_neg h]

theorem Percent.unescape_append {front : List UInt8} (h : sign ∉ front) (rest : List UInt8) :
    unescape (front ++ rest) = front ++ unescape rest := by
  induction front with
  | nil => rfl
  | cons b front ih =>
    rw [List.mem_cons, not_or] at h
    rw [List.cons_append, unescape_cons (Ne.symm h.1), ih h.2, List.cons_append]

theorem Percent.unescape_of_notMem {bytes : List UInt8} (h : sign ∉ bytes) :
    unescape bytes = bytes := by
  have happend := unescape_append h []
  have hnil : unescape [] = [] := rfl
  rwa [hnil, List.append_nil] at happend

end Text

namespace CapturedValue

open Text

/-- The notice about a captured text whose bytes are not UTF-8 once its escapes are
replaced. -/
def keptRaw? (raw : String) : Option Notice :=
  match Utf8.decode (Percent.unescape (Utf8.encode raw.toList)) with
  | .ok _ => none
  | .error fault => some (.keptRaw raw fault)

/-- The value of a captured text is what its decoded bytes are read as. If they are not
UTF-8, it is the text itself, and that is reported. -/
theorem decode_eq (raw : String) :
    decode raw =
      match Utf8.decode (Percent.unescape (Utf8.encode raw.toList)) with
      | .ok text => ⟨String.ofList text, text = raw.toList, []⟩
      | .error fault => ⟨raw, true, [.keptRaw raw fault]⟩ := by
  have hsame : Percent.unescape (Utf8.encode raw.toList) = Utf8.encode raw.toList →
      Utf8.decode (Percent.unescape (Utf8.encode raw.toList)) = .ok raw.toList := by
    intro h
    rw [h, Utf8.decode_encode]
  rw [decode, decodeFlagged]
  dsimp only
  by_cases hpercent : raw.toList.contains '%' = true
  · rw [if_pos hpercent]
    by_cases hequal : Percent.unescape (Utf8.encode raw.toList) = Utf8.encode raw.toList
    · rw [if_pos hequal, hsame hequal]
      simp
    · rw [if_neg hequal]
      cases htext : Utf8.decode (Percent.unescape (Utf8.encode raw.toList)) with
      | error fault => rfl
      | ok text =>
        -- Other bytes are read as another text.
        have hne : text ≠ raw.toList := by
          rintro rfl
          exact hequal (Utf8.decode_eq_ok_iff.mp htext)
        simp [hne]
  · have hsign : Percent.sign ∉ Utf8.encode raw.toList := by
      rw [Utf8.mem_encode_iff (c := '%') rfl (by decide)]
      simpa using hpercent
    rw [if_neg hpercent, hsame (Percent.unescape_of_notMem hsign)]
    simp

theorem notices_decode (raw : String) : (decode raw).notices = (keptRaw? raw).toList := by
  rw [decode_eq, keptRaw?]
  split <;> rfl

end CapturedValue

end PathRouting
