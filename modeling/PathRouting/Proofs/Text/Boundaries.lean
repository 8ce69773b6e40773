import PathRouting.Proofs.Text.Decoding

/-!
# Slices of a text

The bytes of a text can be cut anywhere, the text itself only between its characters. A
cursor that has so far passed whole characters stands at such a place. It may go on past the
bytes of a text that it compares with what is ahead: the bytes of two characters are the same
or part before either of them ends, so equal bytes are equal characters.

## Main definitions

* `Text.sliceBytes`, `Text.sliceText` — slices, which fail beyond the end or inside a
  character
* `Text.Cursor` — a byte offset, with the characters that are ahead of it

## Main results

* `Utf8.encode_prefix_iff` — bytes begin with the bytes of a text just if the characters do
* `Text.Cursor.advance` — past whole characters there is a cursor again
* `Text.Cursor.isValid`, `Text.Cursor.exists_of_isValid` — cursors stand between characters, and
  wherever two characters meet
* `Text.Cursor.sliceBytes_eq`, `Text.Cursor.sliceText_eq` — slices between cursors succeed
-/

namespace PathRouting.Text

/-! ### Sizes -/

namespace Utf8

/-- The number of bytes of a text. -/
def size (text : List Char) : Nat :=
  (encode text).length

@[simp] theorem size_nil : size [] = 0 := rfl

@[simp] theorem size_append (a b : List Char) : size (a ++ b) = size a + size b := by
  rw [size, encode_append, List.length_append, size, size]

theorem size_cons (c : Char) (text : List Char) : size (c :: text) = c.utf8Size + size text := by
  rw [size, encode_cons, List.length_append, String.length_utf8EncodeChar, size]

theorem size_eq_zero_iff {text : List Char} : size text = 0 ↔ text = [] := by
  cases text with
  | nil => simp
  | cons c rest =>
    have hpos := c.utf8Size_pos
    simp only [size_cons, List.cons_ne_nil, iff_false]
    omega

theorem size_toList (text : String) : size text.toList = text.utf8ByteSize := by
  obtain ⟨chars, rfl⟩ : ∃ chars, text = String.ofList chars := ⟨_, String.ofList_toList.symm⟩
  rw [String.toList_ofList]
  induction chars with
  | nil => rfl
  | cons c rest ih =>
    rw [size_cons, ih, ← List.singleton_append, String.ofList_append, String.utf8ByteSize_append,
      ← String.singleton_eq_ofList, String.utf8ByteSize_singleton]

/-! ### Equal bytes are equal characters -/

/-- The bytes of a character say where they end. -/
theorem encodeChar_append_inj {c d : Char} {a b : List UInt8}
    (h : String.utf8EncodeChar c ++ a = String.utf8EncodeChar d ++ b) : c = d ∧ a = b := by
  obtain ⟨first, tail, hbytes, hfront⟩ := front_encodeChar c a
  obtain ⟨first', tail', hbytes', hfront'⟩ := front_encodeChar d b
  rw [hbytes, hbytes', List.cons_append, List.cons_append] at h
  obtain ⟨rfl, htail⟩ := List.cons.inj h
  rw [htail, hfront'] at hfront
  obtain ⟨rfl, rfl⟩ := Front.char.inj hfront
  exact ⟨rfl, rfl⟩

theorem encode_prefix_iff {text rest : List Char} :
    encode text <+: encode rest ↔ text <+: rest := by
  constructor
  · intro h
    induction text generalizing rest with
    | nil => exact List.nil_prefix
    | cons c text ih =>
      obtain ⟨after, hafter⟩ := h
      rw [encode_cons, List.append_assoc] at hafter
      cases rest with
      | nil =>
        -- Every character has a byte.
        obtain ⟨first, tail, hbytes, -⟩ := front_encodeChar c []
        rw [hbytes] at hafter
        cases hafter
      | cons d rest =>
        rw [encode_cons] at hafter
        obtain ⟨rfl, hrest⟩ := encodeChar_append_inj hafter
        rw [List.cons_prefix_cons]
        exact ⟨rfl, ih ⟨after, hrest⟩⟩
  · rintro ⟨after, rfl⟩
    rw [encode_append]
    exact List.prefix_append _ _

/-- Different texts have different bytes. -/
theorem encode_inj {a b : List Char} : encode a = encode b ↔ a = b := by
  constructor
  · intro h
    have hread := decode_encode a
    rw [h, decode_encode] at hread
    exact (Except.ok.inj hread).symm
  · rintro rfl
    rfl

/-- As many bytes as a text has are its bytes just if the characters are its own. -/
theorem take_encode_eq_iff {text rest : List Char} :
    (encode rest).take (size text) = encode text ↔ text <+: rest := by
  rw [← encode_prefix_iff, List.prefix_iff_eq_take, eq_comm, size]

end Utf8

/-! ### Slices -/

/-- Why a slice cannot be taken. -/
inductive SliceFault where
  /-- It ends before it begins, or beyond the end of what is cut. -/
  | outOfRange
  /-- It begins or ends inside a character. -/
  | insideCharacter
deriving DecidableEq

/-- The bytes from one place to another. -/
def sliceBytes (bytes : List UInt8) (start stop : Nat) : Except SliceFault (List UInt8) :=
  if start ≤ stop ∧ stop ≤ bytes.length then .ok ((bytes.take stop).drop start)
  else .error .outOfRange

/-- The text from one place in its bytes to another. -/
def sliceText (text : String) (start stop : Nat) : Except SliceFault String :=
  if start ≤ stop ∧ stop ≤ text.utf8ByteSize then
    if String.Pos.Raw.isValid text ⟨start⟩ && String.Pos.Raw.isValid text ⟨stop⟩ then
      .ok (String.Pos.Raw.extract text ⟨start⟩ ⟨stop⟩)
    else .error .insideCharacter
  else .error .outOfRange

theorem offset_ne_of_cons (i : Nat) (c : Char) (front : List Char) :
    (⟨i⟩ : String.Pos.Raw) ≠ ⟨i + Utf8.size (c :: front)⟩ := by
  have hpos := c.utf8Size_pos
  rw [ne_eq, String.Pos.Raw.ext_iff, Utf8.size_cons]
  dsimp only
  omega

/-- Up to the start of a slice, characters are dropped. -/
theorem extract_go₁ (before after : List Char) (i : Nat) (stop : String.Pos.Raw) :
    String.Pos.Raw.extract.go₁ (before ++ after) ⟨i⟩ ⟨i + Utf8.size before⟩ stop =
      String.Pos.Raw.extract.go₂ after ⟨i + Utf8.size before⟩ stop := by
  induction before generalizing i with
  | nil =>
    cases after with
    | nil => rfl
    | cons c after => exact if_pos rfl
  | cons c before ih =>
    refine (if_neg (offset_ne_of_cons i c before)).trans ?_
    rw [Utf8.size_cons, ← Nat.add_assoc]
    exact ih (i + c.utf8Size)

/-- Up to its end, characters are taken. -/
theorem extract_go₂ (front after : List Char) (i : Nat) :
    String.Pos.Raw.extract.go₂ (front ++ after) ⟨i⟩ ⟨i + Utf8.size front⟩ = front := by
  induction front generalizing i with
  | nil =>
    cases after with
    | nil => rfl
    | cons c after => exact if_pos rfl
  | cons c front ih =>
    refine (if_neg (offset_ne_of_cons i c front)).trans ?_
    rw [Utf8.size_cons, ← Nat.add_assoc]
    exact congrArg (c :: ·) (ih (i + c.utf8Size))

theorem extract_eq {text : String} {before front after : List Char}
    (h : text.toList = before ++ (front ++ after)) :
    String.Pos.Raw.extract text ⟨Utf8.size before⟩ ⟨Utf8.size before + Utf8.size front⟩ =
      String.ofList front := by
  by_cases hempty : Utf8.size front = 0
  · -- An empty slice is given before its start is looked for.
    obtain rfl := Utf8.size_eq_zero_iff.mp hempty
    exact if_pos (Nat.le_refl _)
  · have hlt : ¬ Utf8.size before ≥ Utf8.size before + Utf8.size front := by omega
    have hdrop := extract_go₁ before (front ++ after) 0
      ⟨Utf8.size before + Utf8.size front⟩
    rw [Nat.zero_add] at hdrop
    refine (if_neg hlt).trans ?_
    rw [h]
    exact congrArg String.ofList (hdrop.trans (extract_go₂ front after _))

/-! ### Cursors -/

/-- The characters that are ahead of a byte offset, if it stands between characters. -/
structure Cursor (text : String) (i : Nat) (ahead : List Char) : Prop where
  exists_front : ∃ front, text.toList = front ++ ahead ∧ Utf8.size front = i

namespace Cursor

variable {text : String} {i : Nat} {front ahead : List Char}

theorem zero (text : String) : Cursor text 0 text.toList :=
  ⟨[], rfl, rfl⟩

/-- Past whole characters there is a cursor again. -/
theorem advance (h : Cursor text i (front ++ ahead)) :
    Cursor text (i + Utf8.size front) ahead := by
  obtain ⟨before, htext, rfl⟩ := h.exists_front
  exact ⟨before ++ front, by rw [htext, List.append_assoc], Utf8.size_append before front⟩

theorem size_eq (h : Cursor text i ahead) : text.utf8ByteSize = i + Utf8.size ahead := by
  obtain ⟨before, htext, rfl⟩ := h.exists_front
  rw [← Utf8.size_toList, htext, Utf8.size_append]

theorem le_size (h : Cursor text i ahead) : i ≤ text.utf8ByteSize := by
  rw [h.size_eq]
  exact Nat.le_add_right _ _

/-- A cursor stands between characters. -/
theorem isValid (h : Cursor text i ahead) : (⟨i⟩ : String.Pos.Raw).IsValid text := by
  obtain ⟨before, htext, rfl⟩ := h.exists_front
  rw [String.Pos.Raw.isValid_iff_exists_append]
  refine ⟨String.ofList before, String.ofList ahead, ?_, ?_⟩
  · rw [← String.ofList_append, ← htext, String.ofList_toList]
  · apply String.Pos.Raw.ext
    rw [String.byteIdx_rawEndPos, ← Utf8.size_toList, String.toList_ofList]

/-- Between characters there is a cursor. -/
theorem exists_of_isValid (h : (⟨i⟩ : String.Pos.Raw).IsValid text) :
    ∃ ahead, Cursor text i ahead := by
  obtain ⟨before, after, rfl, hi⟩ := String.Pos.Raw.isValid_iff_exists_append.mp h
  refine ⟨after.toList, before.toList, String.toList_append, ?_⟩
  rw [Utf8.size_toList, ← String.byteIdx_rawEndPos, ← hi]

/-- An offset says what is ahead of it. -/
theorem unique {ahead' : List Char} (h : Cursor text i ahead) (h' : Cursor text i ahead') :
    ahead = ahead' := by
  obtain ⟨before, htext, hsize⟩ := h.exists_front
  obtain ⟨before', htext', hsize'⟩ := h'.exists_front
  have hbytes : Utf8.encode before ++ Utf8.encode ahead =
      Utf8.encode before' ++ Utf8.encode ahead' := by
    rw [← Utf8.encode_append, ← Utf8.encode_append, ← htext, ← htext']
  have hlength : (Utf8.encode before).length = (Utf8.encode before').length :=
    hsize.trans hsize'.symm
  exact Utf8.encode_inj.mp (List.append_inj_right hbytes hlength)

/-- Bytes that are ahead can be cut out, whether a character ends with them or not. -/
theorem sliceBytes_eq (h : Cursor text i ahead) {n : Nat} (hn : i + n ≤ text.utf8ByteSize) :
    sliceBytes (Utf8.encode text.toList) i (i + n) = .ok ((Utf8.encode ahead).take n) := by
  have hlength : (Utf8.encode text.toList).length = text.utf8ByteSize := Utf8.size_toList text
  obtain ⟨before, htext, rfl⟩ := h.exists_front
  rw [sliceBytes, if_pos ⟨Nat.le_add_right _ _, hlength ▸ hn⟩, List.drop_take,
    Nat.add_sub_cancel_left, htext, Utf8.encode_append, Utf8.size, List.drop_left]

/-- The bytes of a text can be cut out just if its characters are ahead. -/
theorem sliceBytes_eq_encode_iff (h : Cursor text i ahead) (part : List Char) :
    sliceBytes (Utf8.encode text.toList) i (i + Utf8.size part) = .ok (Utf8.encode part) ↔
      part <+: ahead := by
  rw [← Utf8.take_encode_eq_iff]
  by_cases hfits : i + Utf8.size part ≤ text.utf8ByteSize
  · rw [h.sliceBytes_eq hfits, Except.ok.injEq]
  · -- Too few bytes are ahead, whatever they are.
    have hlength : (Utf8.encode text.toList).length = text.utf8ByteSize := Utf8.size_toList text
    have hsize := h.size_eq
    rw [sliceBytes, hlength, if_neg (fun hrange => hfits hrange.2)]
    refine iff_of_false (by simp) ?_
    intro heq
    have htake := congrArg List.length heq
    rw [List.length_take] at htake
    rw [Utf8.size] at hsize hfits
    omega

/-- The first byte ahead is the one at the offset. -/
theorem getElem?_eq (h : Cursor text i ahead) :
    (Utf8.encode text.toList)[i]? = (Utf8.encode ahead).head? := by
  obtain ⟨before, htext, rfl⟩ := h.exists_front
  rw [htext, Utf8.encode_append, Utf8.size, List.getElem?_append_right (Nat.le_refl _),
    Nat.sub_self, List.head?_eq_getElem?]

/-- The text between two cursors can be cut out. -/
theorem sliceText_eq (h : Cursor text i (front ++ ahead)) :
    sliceText text i (i + Utf8.size front) = .ok (String.ofList front) := by
  have hstart := String.Pos.Raw.isValid_eq_true_iff.mpr h.isValid
  have hstop := String.Pos.Raw.isValid_eq_true_iff.mpr h.advance.isValid
  rw [sliceText, if_pos ⟨Nat.le_add_right _ _, h.advance.le_size⟩, hstart, hstop, Bool.and_self,
    if_pos rfl]
  obtain ⟨before, htext, rfl⟩ := h.exists_front
  rw [extract_eq htext]

end Cursor

end PathRouting.Text
