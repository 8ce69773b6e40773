import Mathlib.Data.List.Basic
import PathRouting.Proofs.Text.SoftDecoding

/-!
# Decoding joined texts

No escape goes on past a slash, and no longer sequence of bytes does. So texts that slashes
join are decoded by themselves, as long as the bytes of all of them are UTF-8 afterwards. If
those of one are not, the joined text is kept, and the others stay as they are as well; this
makes a difference just where another one has an escape, for then its own value is shorter.

## Main definitions

* `CapturedValue.HasEscape` — a text has an escape
* `CapturedValue.FallsBack` — the bytes of a text are not UTF-8 once its escapes are replaced

## Main results

* `CapturedValue.text_decode_eq_self_iff` — when a value is the captured text
* `CapturedValue.fallsBack_intercalate_iff` — a joined text falls back just if one text does
* `CapturedValue.text_decode_intercalate` — otherwise its value is made of theirs
* `CapturedValue.text_decode_intercalate_iff` — when its value is made of theirs at all
-/

namespace PathRouting

open Text

namespace Text.Percent

/-- Without an escape all bytes are kept. -/
theorem Replaces.eq_of_count_eq_zero {bytes plain : List UInt8} {n : Nat}
    (h : Replaces bytes n plain) (hn : n = 0) : plain = bytes := by
  induction h with
  | nil => rfl
  | escape => cases hn
  | keep _ _ ih => rw [ih hn]

/-- Where no escape was replaced there was none. -/
theorem Replaces.not_infix_of_count_eq_zero {bytes plain three : List UInt8} {n : Nat} {b : UInt8}
    (h : Replaces bytes n plain) (hn : n = 0) (hescape : IsEscape b three) :
    ¬ three <:+: bytes := by
  induction h with
  | nil =>
    obtain ⟨first, high, low, rfl, -⟩ := isEscape_iff.mp hescape
    simp
  | escape => cases hn
  | keep hkeep _ ih =>
    rw [List.infix_cons_iff, not_or]
    exact ⟨hkeep b three hescape, ih hn⟩

/-- Replacing changes nothing just if no escape occurs. -/
theorem unescape_eq_self_iff {bytes : List UInt8} :
    unescape bytes = bytes ↔ ∀ b three, IsEscape b three → ¬ three <:+: bytes := by
  constructor
  · intro hsame b three hescape
    obtain ⟨n, hreplaces⟩ := exists_replaces bytes
    -- Each escape makes the bytes shorter.
    have hlength := hreplaces.length_eq
    rw [hsame] at hlength
    exact hreplaces.not_infix_of_count_eq_zero (by omega) hescape
  · intro hnone
    induction bytes with
    | nil => rfl
    | cons c bytes ih =>
      have hkeep : ∀ b three, IsEscape b three → ¬ three <+: c :: bytes :=
        fun b three hescape hprefix => hnone b three hescape hprefix.isInfix
      have hrest : ∀ b three, IsEscape b three → ¬ three <:+: bytes :=
        fun b three hescape hwithin =>
          hnone b three hescape (hwithin.trans (List.suffix_cons c bytes).isInfix)
      rw [unescape_cons_of_keep hkeep, ih hrest]

/-- A slash separates what stands on its sides. -/
theorem separates_slash : Separates '/' :=
  ⟨by decide, by decide, by decide⟩

end Text.Percent

namespace CapturedValue

open Text.Percent

/-! ### Escapes and texts that are kept -/

/-- Whether a percent sign and two digits stand somewhere in a captured text. -/
def HasEscape (raw : String) : Prop :=
  ∃ b three, IsEscape b three ∧ three <:+: Utf8.encode raw.toList

/-- Whether the bytes of a captured text are not UTF-8 once its escapes are replaced. -/
def FallsBack (raw : String) : Prop :=
  ∃ count plain, Replaces (Utf8.encode raw.toList) count plain ∧ ∀ text, plain ≠ Utf8.encode text

theorem fallsBack_iff {raw : String} :
    FallsBack raw ↔ ¬ ∃ text, unescape (Utf8.encode raw.toList) = Utf8.encode text := by
  rw [not_exists]
  constructor
  · rintro ⟨count, plain, hreplaces, hnone⟩
    rw [← hreplaces.eq_unescape]
    exact hnone
  · intro hnone
    obtain ⟨count, hreplaces⟩ := exists_replaces (Utf8.encode raw.toList)
    exact ⟨count, _, hreplaces, hnone⟩

theorem text_decode_of_fallsBack {raw : String} (h : FallsBack raw) : (decode raw).text = raw := by
  rw [fallsBack_iff, not_exists] at h
  rcases decode_cases raw with ⟨text, hplain, -⟩ | ⟨fault, -, hvalue⟩
  · exact absurd hplain (h text)
  · rw [hvalue]

theorem exists_of_not_fallsBack {raw : String} (h : ¬ FallsBack raw) :
    ∃ text, unescape (Utf8.encode raw.toList) = Utf8.encode text := by
  rw [fallsBack_iff, Classical.not_not] at h
  exact h

/-- A value is the captured text just if that falls back or has no escape. -/
theorem text_decode_eq_self_iff (raw : String) :
    (decode raw).text = raw ↔ FallsBack raw ∨ ¬ HasEscape raw := by
  by_cases hback : FallsBack raw
  · exact iff_of_true (text_decode_of_fallsBack hback) (.inl hback)
  · obtain ⟨text, hplain⟩ := exists_of_not_fallsBack hback
    have hnone : ¬ HasEscape raw ↔
        unescape (Utf8.encode raw.toList) = Utf8.encode raw.toList := by
      simp only [unescape_eq_self_iff, HasEscape, not_exists, not_and]
    rw [or_iff_right hback, hnone, decode_of_unescape hplain, hplain, Utf8.encode_inj]
    dsimp only
    rw [← String.toList_inj, String.toList_ofList]

/-- A value that is not the captured text is shorter. -/
theorem size_decode_lt {raw : String} (h : (decode raw).text ≠ raw) :
    (decode raw).text.utf8ByteSize < raw.utf8ByteSize := by
  rcases decode_cases raw with ⟨text, hplain, hvalue⟩ | ⟨fault, -, hvalue⟩
  · obtain ⟨count, hreplaces⟩ := exists_replaces (Utf8.encode raw.toList)
    rw [hplain] at hreplaces
    have hcount : count ≠ 0 := by
      intro hzero
      obtain rfl := Utf8.encode_inj.mp (hreplaces.eq_of_count_eq_zero hzero)
      rw [hvalue, String.ofList_toList] at h
      exact h rfl
    have hlength : Utf8.size text + 2 * count = Utf8.size raw.toList := hreplaces.length_eq
    rw [← Utf8.size_toList, ← Utf8.size_toList raw, hvalue, String.toList_ofList]
    omega
  · rw [hvalue] at h
    exact absurd rfl h

/-! ### Two sides of a slash -/

theorem toList_append_slash (front back : String) :
    (front ++ "/" ++ back).toList = front.toList ++ '/' :: back.toList := by
  simp

/-- What a slash joins falls back just if one of its sides does. -/
theorem fallsBack_append_iff (front back : String) :
    FallsBack (front ++ "/" ++ back) ↔ FallsBack front ∨ FallsBack back := by
  have hboth : (∃ text, unescape (Utf8.encode (front ++ "/" ++ back).toList) = Utf8.encode text) ↔
      (∃ text, unescape (Utf8.encode front.toList) = Utf8.encode text) ∧
        ∃ text, unescape (Utf8.encode back.toList) = Utf8.encode text := by
    simp only [toList_append_slash, separates_slash.unescape_eq_encode_iff]
    constructor
    · rintro ⟨_, before, after, -, hbefore, hafter⟩
      exact ⟨⟨before, hbefore⟩, ⟨after, hafter⟩⟩
    · rintro ⟨⟨before, hbefore⟩, ⟨after, hafter⟩⟩
      exact ⟨_, before, after, rfl, hbefore, hafter⟩
  rw [fallsBack_iff, fallsBack_iff, fallsBack_iff, hboth, Classical.not_and_iff_not_or_not]

/-- If it does not, its value is made of the values of the sides. -/
theorem text_decode_append {front back : String} (h : ¬ FallsBack (front ++ "/" ++ back)) :
    (decode (front ++ "/" ++ back)).text = (decode front).text ++ "/" ++ (decode back).text := by
  obtain ⟨text, hplain⟩ := exists_of_not_fallsBack h
  have hsides := hplain
  rw [toList_append_slash, separates_slash.unescape_eq_encode_iff] at hsides
  obtain ⟨before, after, rfl, hbefore, hafter⟩ := hsides
  rw [decode_of_unescape hplain, decode_of_unescape hbefore, decode_of_unescape hafter]
  simp [← String.toList_inj]

/-! ### Any number of texts -/

theorem not_fallsBack_empty : ¬ FallsBack "" := by
  rw [fallsBack_iff, Classical.not_not]
  exact ⟨[], rfl⟩

/-- What slashes join falls back just if one of the texts does. -/
theorem fallsBack_intercalate_iff (parts : List String) :
    FallsBack ("/".intercalate parts) ↔ ∃ part ∈ parts, FallsBack part := by
  induction parts with
  | nil => simp [not_fallsBack_empty]
  | cons part more ih =>
    cases more with
    | nil => simp
    | cons next more =>
      rw [String.intercalate_cons_cons, fallsBack_append_iff, ih]
      exact (List.exists_mem_cons_iff FallsBack part (next :: more)).symm

/-- If none does, its value is made of the values of the texts. -/
theorem text_decode_intercalate {parts : List String} (h : ∀ part ∈ parts, ¬ FallsBack part) :
    (decode ("/".intercalate parts)).text =
      "/".intercalate (parts.map fun part => (decode part).text) := by
  induction parts with
  | nil => rfl
  | cons part more ih =>
    cases more with
    | nil => simp
    | cons next more =>
      have hwhole : ¬ FallsBack ("/".intercalate (part :: next :: more)) := by
        rw [fallsBack_intercalate_iff]
        rintro ⟨other, hmem, hback⟩
        exact h other hmem hback
      rw [String.intercalate_cons_cons] at hwhole ⊢
      rw [text_decode_append hwhole, ih fun other hmem => h other (List.mem_cons_of_mem _ hmem)]
      exact String.intercalate_cons_cons.symm

/-- A function that shortens every text that it changes shortens what slashes join. -/
theorem size_intercalate_map_le {f : String → String}
    (hf : ∀ part, f part ≠ part → (f part).utf8ByteSize < part.utf8ByteSize)
    (parts : List String) :
    ("/".intercalate (parts.map f)).utf8ByteSize ≤ ("/".intercalate parts).utf8ByteSize := by
  have hle : ∀ part, (f part).utf8ByteSize ≤ part.utf8ByteSize := by
    intro part
    by_cases hsame : f part = part
    · exact Nat.le_of_eq (congrArg String.utf8ByteSize hsame)
    · exact Nat.le_of_lt (hf part hsame)
  induction parts with
  | nil => exact Nat.le_refl _
  | cons part more ih =>
    cases more with
    | nil => simpa using hle part
    | cons next more =>
      rw [List.map_cons] at ih ⊢
      rw [List.map_cons, String.intercalate_cons_cons, String.intercalate_cons_cons]
      simp only [String.utf8ByteSize_append]
      have hpart := hle part
      omega

/-- So it changes what slashes join unless it changes none of the texts. -/
theorem intercalate_map_eq_self_iff {f : String → String} {parts : List String}
    (hf : ∀ part, f part ≠ part → (f part).utf8ByteSize < part.utf8ByteSize) :
    "/".intercalate (parts.map f) = "/".intercalate parts ↔ ∀ part ∈ parts, f part = part := by
  constructor
  · intro hsame
    induction parts with
    | nil => exact fun _ hmem => absurd hmem List.not_mem_nil
    | cons part more ih =>
      cases more with
      | nil => simpa using hsame
      | cons next more =>
        have hmore := size_intercalate_map_le hf (next :: more)
        rw [List.map_cons] at ih hmore
        rw [List.map_cons, List.map_cons, String.intercalate_cons_cons,
          String.intercalate_cons_cons] at hsame
        have hpart : f part = part := by
          by_contra hne
          have hlt := hf part hne
          have hsize := congrArg String.utf8ByteSize hsame
          simp only [String.utf8ByteSize_append] at hsize
          omega
        rw [hpart, String.append_right_inj] at hsame
        exact List.forall_mem_cons.mpr ⟨hpart, ih hsame⟩
  · intro hall
    rw [List.map_congr_left hall, List.map_id']

/-- What slashes join has the joined values as its value just if no text falls back, or if all
the others have no escape. -/
theorem text_decode_intercalate_iff (parts : List String) :
    (decode ("/".intercalate parts)).text =
        "/".intercalate (parts.map fun part => (decode part).text) ↔
      (∀ part ∈ parts, ¬ FallsBack part) ∨
        ∀ part ∈ parts, ¬ FallsBack part → ¬ HasEscape part := by
  by_cases hback : ∃ part ∈ parts, FallsBack part
  · have hsome : ¬ ∀ part ∈ parts, ¬ FallsBack part := by
      obtain ⟨part, hmem, hpart⟩ := hback
      exact fun hnone => hnone part hmem hpart
    rw [text_decode_of_fallsBack ((fallsBack_intercalate_iff parts).mpr hback), eq_comm,
      intercalate_map_eq_self_iff fun _ => size_decode_lt, or_iff_right hsome]
    refine forall₂_congr fun part _ => ?_
    rw [text_decode_eq_self_iff, Classical.or_iff_not_imp_left]
  · have hnone : ∀ part ∈ parts, ¬ FallsBack part :=
      fun part hmem hpart => hback ⟨part, hmem, hpart⟩
    exact iff_of_true (text_decode_intercalate hnone) (.inl hnone)

end CapturedValue

end PathRouting
