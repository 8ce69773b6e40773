import PathRouting.Proofs.Text.Escaping

/-!
# Ways to write a text

Each character of a text can be kept or be replaced by the escapes of its bytes, a percent
sign only replaced. There are as many ways as there are choices, and more for the case of the
digits. Decoding undoes all of them, and what it gives is the raw text itself just if nothing
was replaced: an escape has three characters, so it is never what it stands for.

## Main definitions

* `Percent.Writing` — a way to write a text, with the choice for each character

## Main results

* `Percent.Writing.eq_iff` — what is written is the text just if nothing is replaced
* `CapturedValue.decode_of_writing` — decoding undoes every way to write a text
-/

namespace PathRouting

namespace Text.Percent

/-- A way to write a text: for each character in turn, whether it is replaced by the escapes of
all its bytes. A percent sign is always replaced. -/
inductive Writing : List Char → List Bool → List Char → Prop
  | nil : Writing [] [] []
  | kept {c : Char} {text raw : List Char} {replaced : List Bool} (hsign : c ≠ '%')
    (rest : Writing text replaced raw) : Writing (c :: text) (false :: replaced) (c :: raw)
  | replaced {c : Char} {front text raw : List Char} {replaced : List Bool}
    (hfront : Triplets (String.utf8EncodeChar c) front) (rest : Writing text replaced raw) :
    Writing (c :: text) (true :: replaced) (front ++ raw)

/-- The escapes of some bytes have three characters for each of them. -/
theorem Triplets.length_eq {bytes : List UInt8} {text : List Char} (h : Triplets bytes text) :
    text.length = 3 * bytes.length := by
  induction h with
  | nil => rfl
  | cons _ _ _ ih =>
    simp only [List.length_cons]
    omega

namespace Writing

variable {text raw : List Char} {replaced : List Bool}

/-- Nothing is reserved, so every way to write a text is one of its escaped forms. -/
theorem escaping (h : Writing text replaced raw) : Escaping [] text raw := by
  induction h with
  | nil => exact .nil
  | kept hsign _ ih => exact .verbatim hsign List.not_mem_nil ih
  | replaced hfront _ ih => exact .escaped hfront ih

/-- Every replaced character makes the text longer. -/
theorem length_add_count_le (h : Writing text replaced raw) :
    text.length + replaced.count true ≤ raw.length := by
  induction h with
  | nil => exact Nat.le_refl _
  | kept _ _ ih =>
    simp only [List.length_cons, List.count_cons_of_ne Bool.false_ne_true]
    omega
  | @replaced c front text raw replaced hfront _ ih =>
    have hbytes : (String.utf8EncodeChar c).length = c.utf8Size :=
      String.length_utf8EncodeChar c
    have hpos := c.utf8Size_pos
    have hlength := hfront.length_eq
    simp only [List.length_cons, List.count_cons_self, List.length_append]
    omega

/-- What is written is the text itself just if no character is replaced. -/
theorem eq_iff (h : Writing text replaced raw) : text = raw ↔ true ∉ replaced := by
  constructor
  · rintro rfl
    have hle := h.length_add_count_le
    rw [← List.count_eq_zero]
    omega
  · intro hnone
    induction h with
    | nil => rfl
    | kept _ _ ih => rw [ih (List.not_mem_of_not_mem_cons hnone)]
    | replaced => exact absurd List.mem_cons_self hnone

end Writing

end Text.Percent

namespace CapturedValue

open Text.Percent

/-- In whatever way a text is written, with each of its characters kept or replaced by the
escapes of its bytes, and these with digits of either case, decoding gives the text and
reports nothing. The value is the captured text itself just if no character was replaced. -/
theorem decode_of_writing {text raw : String} {replaced : List Bool}
    (h : Writing text.toList replaced raw.toList) :
    (decode raw).text = text ∧ (decode raw).notices = [] ∧
      ((decode raw).isRaw = true ↔ true ∉ replaced) := by
  have hdecode := decode_of_escaping h.escaping
  rw [String.ofList_toList, String.ofList_toList] at hdecode
  rw [hdecode]
  refine ⟨rfl, rfl, ?_⟩
  rw [← h.eq_iff]
  exact decide_eq_true_iff

/-- The digits behind the escaped sign are kept, and so they become no escape again. Of two
letters whose first bytes are the same one is replaced, with digits of both cases. -/
theorem decode_of_writing_mixed :
    Writing "%41éê".toList [true, false, false, false, true] "%2541é%C3%aA".toList ∧
      (decode "%2541é%C3%aA").text = "%41éê" ∧ (decode "%2541é%C3%aA").notices = [] ∧
      (decode "%2541é%C3%aA").isRaw = false := by
  have hsign : Triplets (String.utf8EncodeChar '%') ['%', '2', '5'] :=
    .cons (by decide) (by decide) .nil
  have hletter : Triplets (String.utf8EncodeChar 'ê') ['%', 'C', '3', '%', 'a', 'A'] :=
    .cons (by decide) (by decide) (.cons (by decide) (by decide) .nil)
  have hwriting : Writing "%41éê".toList [true, false, false, false, true]
      "%2541é%C3%aA".toList :=
    .replaced hsign (.kept (by decide) (.kept (by decide) (.kept (by decide)
      (.replaced hletter .nil))))
  obtain ⟨htext, hnotices, hraw⟩ := decode_of_writing hwriting
  refine ⟨hwriting, htext, hnotices, ?_⟩
  rw [← Bool.not_eq_true, hraw]
  decide

end CapturedValue

end PathRouting
