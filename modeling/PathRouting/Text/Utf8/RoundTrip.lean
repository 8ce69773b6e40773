import PathRouting.Text.Utf8

/-!
# Reading UTF-8 undoes writing it

Bytes are read as a text exactly if they are the bytes of that text.

## Main results

* `Utf8.front_encodeChar` — the bytes of a character are read as that character
* `Utf8.encodeChar_of_front` — a character is read from no other bytes
* `Utf8.decode_eq_ok_iff` — bytes are read as a text iff they are its bytes
-/

namespace PathRouting.Text.Utf8

/-! ### Bytes of a sequence -/

/-- The leads of each width are in one range, and no other byte leads. -/
theorem width_eq_iff {lead : UInt8} {n : Nat} (hn : n ≠ 0) :
    width lead = n ↔
      (n = 1 ∧ lead.toNat < 0x80) ∨ (n = 2 ∧ 0xC2 ≤ lead.toNat ∧ lead.toNat < 0xE0) ∨
        (n = 3 ∧ 0xE0 ≤ lead.toNat ∧ lead.toNat < 0xF0) ∨
          (n = 4 ∧ 0xF0 ≤ lead.toNat ∧ lead.toNat < 0xF5) := by
  unfold width
  repeat' split
  all_goals omega

theorem isTail_iff {b : UInt8} : isTail b = true ↔ 0x80 ≤ b.toNat ∧ b.toNat ≤ 0xBF := by
  simp [isTail]

/-- Behind four of the leads the second byte is in a narrower range. Outside of it, the bytes would
spell a character that has a shorter spelling, a surrogate, or one beyond the last. -/
theorem isSecond_iff {lead b : UInt8} :
    isSecond lead b = true ↔
      0x80 ≤ b.toNat ∧ b.toNat ≤ 0xBF ∧ (lead.toNat = 0xE0 → 0xA0 ≤ b.toNat) ∧
        (lead.toNat = 0xED → b.toNat ≤ 0x9F) ∧ (lead.toNat = 0xF0 → 0x90 ≤ b.toNat) ∧
          (lead.toNat = 0xF4 → b.toNat ≤ 0x8F) := by
  unfold isSecond isTail
  repeat' split
  all_goals
    simp only [Bool.and_eq_true, decide_eq_true_eq]
    omega

theorem toNat_ofNat_of_lt {n : Nat} (h : n < 256) : (UInt8.ofNat n).toNat = n := by
  simp [Nat.mod_eq_of_lt h]

theorem ofNat_eq_iff {n : Nat} {b : UInt8} (h : n < 256) : UInt8.ofNat n = b ↔ n = b.toNat := by
  rw [← UInt8.toNat_inj, toNat_ofNat_of_lt h]

theorem val_ofNat {n : Nat} (h : n.isValidChar) : (Char.ofNat n).val.toNat = n := by
  rw [Char.ofNat, dif_pos h]
  exact UInt32.toNat_ofNatLT ..

/-! ### Characters -/

/-- The bytes of a character in the first form that holds its code point. -/
theorem encodeChar_ofNat {v : Nat} (h : v.isValidChar) :
    String.utf8EncodeChar (Char.ofNat v) =
      if v ≤ 127 then [UInt8.ofNat v]
      else if v ≤ 2047 then [UInt8.ofNat (v / 64 % 32 + 192), UInt8.ofNat (v % 64 + 128)]
      else if v ≤ 65535 then
        [UInt8.ofNat (v / 4096 % 16 + 224), UInt8.ofNat (v / 64 % 64 + 128),
          UInt8.ofNat (v % 64 + 128)]
      else
        [UInt8.ofNat (v / 262144 % 8 + 240), UInt8.ofNat (v / 4096 % 64 + 128),
          UInt8.ofNat (v / 64 % 64 + 128), UInt8.ofNat (v % 64 + 128)] := by
  simp only [String.utf8EncodeChar, val_ofNat h]

/-- A character that is taken off was spelt by the bytes that it took. -/
theorem encodeChar_of_front {a : UInt8} {rest after : List UInt8} {c : Char}
    (h : front a rest = .char c after) : a :: rest = String.utf8EncodeChar c ++ after := by
  have ha := a.toNat_lt
  unfold front at h
  split at h
  · rename_i hw
    have hw := (width_eq_iff (by decide)).mp hw
    simp only [Front.char.injEq] at h
    obtain ⟨rfl, rfl⟩ := h
    rw [encodeChar_ofNat (by unfold Nat.isValidChar; omega), if_pos (by omega)]
    simp
  split at h
  · rename_i hw
    have hw := (width_eq_iff (by decide)).mp hw
    unfold front₂ at h
    split at h
    · simp at h
    · rename_i b rest
      split at h
      · rename_i hs
        have hs := isSecond_iff.mp hs
        simp only [Front.char.injEq] at h
        obtain ⟨rfl, rfl⟩ := h
        rw [encodeChar_ofNat (by unfold Nat.isValidChar; omega), if_neg (by omega),
          if_pos (by omega)]
        simp only [List.cons_append, List.nil_append, List.cons.injEq, and_true]
        refine ⟨?_, ?_⟩ <;> rw [eq_comm, ofNat_eq_iff (by omega)] <;> omega
      · simp at h
  split at h
  · rename_i hw
    have hw := (width_eq_iff (by decide)).mp hw
    unfold front₃ at h
    split at h
    · simp at h
    · split at h <;> simp at h
    · rename_i b c rest
      split at h
      · simp at h
      split at h
      · simp at h
      rename_i hs ht
      have hs := isSecond_iff.mp (by simpa using hs)
      have ht := isTail_iff.mp (by simpa using ht)
      simp only [Front.char.injEq] at h
      obtain ⟨rfl, rfl⟩ := h
      rw [encodeChar_ofNat (by unfold Nat.isValidChar; omega), if_neg (by omega),
        if_neg (by omega), if_pos (by omega)]
      simp only [List.cons_append, List.nil_append, List.cons.injEq, and_true]
      refine ⟨?_, ?_, ?_⟩ <;> rw [eq_comm, ofNat_eq_iff (by omega)] <;> omega
  split at h
  · rename_i hw
    have hw := (width_eq_iff (by decide)).mp hw
    unfold front₄ at h
    split at h
    · simp at h
    · split at h <;> simp at h
    · split at h
      · simp at h
      split at h <;> simp at h
    · rename_i b c d rest
      split at h
      · simp at h
      split at h
      · simp at h
      split at h
      · simp at h
      rename_i hs ht hu
      have hs := isSecond_iff.mp (by simpa using hs)
      have ht := isTail_iff.mp (by simpa using ht)
      have hu := isTail_iff.mp (by simpa using hu)
      simp only [Front.char.injEq] at h
      obtain ⟨rfl, rfl⟩ := h
      rw [encodeChar_ofNat (by unfold Nat.isValidChar; omega), if_neg (by omega),
        if_neg (by omega), if_neg (by omega)]
      simp only [List.cons_append, List.nil_append, List.cons.injEq, and_true]
      refine ⟨?_, ?_, ?_, ?_⟩ <;> rw [eq_comm, ofNat_eq_iff (by omega)] <;> omega
  · simp at h

/-- The spelling of a character is taken off whole, whatever follows it. -/
theorem front_encodeChar (c : Char) (rest : List UInt8) :
    ∃ a tail, String.utf8EncodeChar c = a :: tail ∧ front a (tail ++ rest) = .char c rest := by
  have hc : Char.ofNat c.val.toNat = c := Char.ofNat_toNat c
  have hvalid : c.val.toNat < 55296 ∨ 57343 < c.val.toNat ∧ c.val.toNat < 1114112 := c.valid
  simp only [String.utf8EncodeChar]
  generalize c.val.toNat = v at hc hvalid
  split
  · have hv := toNat_ofNat_of_lt (n := v) (by omega)
    refine ⟨_, _, rfl, ?_⟩
    generalize UInt8.ofNat v = a at hv ⊢
    have hw : width a = 1 := (width_eq_iff (by decide)).mpr (by omega)
    simp [front, hw, hv, hc]
  split
  · have h1 := toNat_ofNat_of_lt (n := v / 64 % 32 + 192) (by omega)
    have h2 := toNat_ofNat_of_lt (n := v % 64 + 128) (by omega)
    refine ⟨_, _, rfl, ?_⟩
    generalize UInt8.ofNat (v / 64 % 32 + 192) = a at h1 ⊢
    generalize UInt8.ofNat (v % 64 + 128) = b at h2 ⊢
    have hw : width a = 2 := (width_eq_iff (by decide)).mpr (by omega)
    have hs : isSecond a b = true := isSecond_iff.mpr (by omega)
    have hval : a.toNat % 32 * 64 + b.toNat % 64 = v := by omega
    simp [front, front₂, hw, hs, hval, hc]
  split
  · have h1 := toNat_ofNat_of_lt (n := v / 4096 % 16 + 224) (by omega)
    have h2 := toNat_ofNat_of_lt (n := v / 64 % 64 + 128) (by omega)
    have h3 := toNat_ofNat_of_lt (n := v % 64 + 128) (by omega)
    refine ⟨_, _, rfl, ?_⟩
    generalize UInt8.ofNat (v / 4096 % 16 + 224) = a at h1 ⊢
    generalize UInt8.ofNat (v / 64 % 64 + 128) = b at h2 ⊢
    generalize UInt8.ofNat (v % 64 + 128) = d at h3 ⊢
    have hw : width a = 3 := (width_eq_iff (by decide)).mpr (by omega)
    have hs : isSecond a b = true := isSecond_iff.mpr (by omega)
    have ht : isTail d = true := isTail_iff.mpr (by omega)
    have hval : a.toNat % 16 * 4096 + b.toNat % 64 * 64 + d.toNat % 64 = v := by omega
    simp [front, front₃, hw, hs, ht, hval, hc]
  · have h1 := toNat_ofNat_of_lt (n := v / 262144 % 8 + 240) (by omega)
    have h2 := toNat_ofNat_of_lt (n := v / 4096 % 64 + 128) (by omega)
    have h3 := toNat_ofNat_of_lt (n := v / 64 % 64 + 128) (by omega)
    have h4 := toNat_ofNat_of_lt (n := v % 64 + 128) (by omega)
    refine ⟨_, _, rfl, ?_⟩
    generalize UInt8.ofNat (v / 262144 % 8 + 240) = a at h1 ⊢
    generalize UInt8.ofNat (v / 4096 % 64 + 128) = b at h2 ⊢
    generalize UInt8.ofNat (v / 64 % 64 + 128) = d at h3 ⊢
    generalize UInt8.ofNat (v % 64 + 128) = e at h4 ⊢
    have hw : width a = 4 := (width_eq_iff (by decide)).mpr (by omega)
    have hs : isSecond a b = true := isSecond_iff.mpr (by omega)
    have ht : isTail d = true := isTail_iff.mpr (by omega)
    have hu : isTail e = true := isTail_iff.mpr (by omega)
    have hval : a.toNat % 8 * 262144 + b.toNat % 64 * 4096 + d.toNat % 64 * 64
        + e.toNat % 64 = v := by omega
    simp [front, front₄, hw, hs, ht, hu, hval, hc]

/-! ### Texts -/

@[simp] theorem encode_nil : encode [] = [] := rfl

@[simp] theorem encode_cons (c : Char) (text : List Char) :
    encode (c :: text) = String.utf8EncodeChar c ++ encode text := rfl

theorem encode_append (a b : List Char) : encode (a ++ b) = encode a ++ encode b :=
  List.flatMap_append

/-- Reading goes past the bytes of a character. -/
theorem decodeFrom_encodeChar (index : Nat) (c : Char) (rest : List UInt8) :
    decodeFrom index (String.utf8EncodeChar c ++ rest) =
      (decodeFrom (index + c.utf8Size) rest).map (c :: ·) := by
  obtain ⟨a, tail, hbytes, hfront⟩ := front_encodeChar c rest
  rw [hbytes, List.cons_append, decodeFrom]
  split
  · rename_i n h
    simp [hfront] at h
  · rename_i d after h
    obtain ⟨rfl, rfl⟩ : c = d ∧ rest = after := by simpa [hfront] using h
    rfl

/-- What was encoded is decoded, wherever the count of bytes begins. -/
theorem decodeFrom_encode (index : Nat) (text : List Char) :
    decodeFrom index (encode text) = .ok text := by
  induction text generalizing index with
  | nil => rw [encode_nil, decodeFrom]
  | cons c rest ih => rw [encode_cons, decodeFrom_encodeChar, ih]; rfl

theorem encode_of_decodeFrom {index : Nat} {bytes : List UInt8} {text : List Char}
    (h : decodeFrom index bytes = .ok text) : encode text = bytes := by
  fun_induction decodeFrom index bytes generalizing text with
  | case1 =>
    obtain rfl : [] = text := by simpa using h
    rfl
  | case2 => simp at h
  | case3 index a rest c after hfront ih =>
    cases hrest : decodeFrom (index + c.utf8Size) after with
    | error fault => simp [hrest, Except.map] at h
    | ok more =>
      obtain rfl : c :: more = text := by simpa [hrest, Except.map] using h
      rw [encode_cons, ih hrest, ← encodeChar_of_front hfront]

theorem decode_encode (text : List Char) : decode (encode text) = .ok text :=
  decodeFrom_encode 0 text

/-- The bytes of just one text decode to it. -/
theorem decode_eq_ok_iff {bytes : List UInt8} {text : List Char} :
    decode bytes = .ok text ↔ bytes = encode text :=
  ⟨fun h => (encode_of_decodeFrom h).symm, fun h => h ▸ decode_encode text⟩

end PathRouting.Text.Utf8
