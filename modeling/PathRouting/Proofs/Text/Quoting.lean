import Mathlib.Data.List.Basic
import Mathlib.Tactic.SplitIfs
import PathRouting.Text.Quoted

/-!
# Quoted text can be read back

The escapes of characters are a prefix code, and none begins with a quotation mark. So the quoted
form of a text ends where its second mark stands that is no part of an escape, whatever follows,
and other texts have other quoted forms. A text that holds words, marks or escapes of its own
cannot pass for what stands around it.

All characters of a quoted form show, and stand beside each other. None is a control, and none
ends a line or a paragraph.

## Main definitions

* `Quoted.IsEscape` — the ways in which a character is written
* `Quoted.Shows` — every character of a text shows
* `IsInline` — neither a control nor the end of a line or of a paragraph
* `Framed` — words, a quoted text, and words

## Main results

* `Quoted.IsEscape.append_inj` — an escape tells its character and where it ends
* `quote_append_inj`, `quote_inj` — and so does a quoted text
* `Framed.wording_inj` — what stands before a quoted text and behind it can be told from it
* `Quoted.shows_quote`, `Quoted.Shows.isInline` — a quoted text fills one line
-/

namespace PathRouting.Text

/-- Texts that end before the same character tell where they end. -/
theorem append_cons_inj {c : Char} {a b x y : List Char} (ha : c ∉ a) (hb : c ∉ b)
    (h : a ++ c :: x = b ++ c :: y) : a = b ∧ x = y := by
  have hshorter : ∀ {front rest more : List Char}, c ∉ front → c :: rest = front ++ c :: more →
      front = [] ∧ rest = more := by
    intro front rest more hfront heq
    cases front with
    | nil => exact ⟨rfl, (List.cons.inj heq).2⟩
    | cons d front =>
      obtain rfl := (List.cons.inj heq).1
      exact absurd List.mem_cons_self hfront
  rcases List.append_eq_append_iff.mp h with ⟨more, rfl, heq⟩ | ⟨more, rfl, heq⟩
  · obtain ⟨rfl, rfl⟩ := hshorter (fun hmem => hb (List.mem_append_right a hmem)) heq
    exact ⟨(List.append_nil a).symm, rfl⟩
  · obtain ⟨rfl, rfl⟩ := hshorter (fun hmem => ha (List.mem_append_right b hmem)) heq
    exact ⟨List.append_nil b, rfl⟩

/-! ### Digits -/

section Digits

variable {b m n : Nat}

theorem exists_of_mem_toDigits (hb : 1 < b) {c : Char} (h : c ∈ Nat.toDigits b n) :
    ∃ d < b, c = Nat.digitChar d := by
  induction n using Nat.strongRecOn with
  | ind n ih =>
    rw [Nat.toDigits_eq_if hb] at h
    split at h
    · rename_i hn
      exact ⟨n, hn, List.mem_singleton.mp h⟩
    · rename_i hn
      rcases List.mem_append.mp h with h | h
      · exact ih (n / b) (Nat.div_lt_self (by omega) hb) h
      · exact ⟨n % b, Nat.mod_lt n (by omega), List.mem_singleton.mp h⟩

theorem digitChar_inj (hm : m < 16) (hn : n < 16) (h : Nat.digitChar m = Nat.digitChar n) :
    m = n := by
  have hall : ∀ i j : Fin 16, Nat.digitChar i = Nat.digitChar j → i = j := by decide
  exact Fin.mk.inj (hall ⟨m, hm⟩ ⟨n, hn⟩ h)

theorem toDigits_inj (hb : 1 < b) (hb' : b ≤ 16) (h : Nat.toDigits b m = Nat.toDigits b n) :
    m = n := by
  induction m using Nat.strongRecOn generalizing n with
  | ind m ih =>
    have hshort : ∀ k l, k < b → b ≤ l → Nat.toDigits b k ≠ Nat.toDigits b l := by
      intro k l hk hl heq
      have hlength := congrArg List.length heq
      rw [Nat.toDigits_of_lt_base hk, Nat.toDigits_of_base_le hb hl, List.length_append,
        List.length_singleton, List.length_singleton] at hlength
      have hpos := Nat.length_toDigits_pos (b := b) (n := l / b)
      omega
    rcases Nat.lt_or_ge m b with hm | hm <;> rcases Nat.lt_or_ge n b with hn | hn
    · rw [Nat.toDigits_of_lt_base hm, Nat.toDigits_of_lt_base hn, List.singleton_inj] at h
      exact digitChar_inj (by omega) (by omega) h
    · exact absurd h (hshort m n hm hn)
    · exact absurd h.symm (hshort n m hn hm)
    · rw [Nat.toDigits_of_base_le hb hm, Nat.toDigits_of_base_le hb hn] at h
      obtain ⟨hfront, hlast⟩ := List.append_inj' h rfl
      have hdiv := ih (m / b) (Nat.div_lt_self (by omega) hb) hfront
      have hmod := digitChar_inj (Nat.lt_of_lt_of_le (Nat.mod_lt m (by omega)) hb')
        (Nat.lt_of_lt_of_le (Nat.mod_lt n (by omega)) hb') (List.singleton_inj.mp hlast)
      rw [← Nat.div_add_mod m b, ← Nat.div_add_mod n b, hdiv, hmod]

/-- Digits tell their number and where they end, if what ends them is no digit. -/
theorem toDigits_append_inj (hb : 1 < b) (hb' : b ≤ 16) {c : Char}
    (hc : ∀ d < b, c ≠ Nat.digitChar d) {x y : List Char}
    (h : Nat.toDigits b m ++ c :: x = Nat.toDigits b n ++ c :: y) : m = n ∧ x = y := by
  have hnone : ∀ k, c ∉ Nat.toDigits b k := by
    intro k hmem
    obtain ⟨d, hd, heq⟩ := exists_of_mem_toDigits hb hmem
    exact hc d hd heq
  obtain ⟨hdigits, hrest⟩ := append_cons_inj (hnone m) (hnone n) h
  exact ⟨toDigits_inj hb hb' hdigits, hrest⟩

theorem toString_inj (h : toString m = toString n) : m = n := by
  have hlists := congrArg String.toList h
  rw [Nat.toString_eq_repr, Nat.toString_eq_repr, Nat.toList_repr, Nat.toList_repr] at hlists
  exact toDigits_inj (by decide) (by decide) hlists

/-- A number tells itself, and where it ends, before words that begin with no digit. -/
theorem toString_append_inj {c : Char} {tail : List Char} {words x y : String}
    (hwords : words.toList = c :: tail) (hc : ∀ d < 10, c ≠ Nat.digitChar d)
    (h : toString m ++ (words ++ x) = toString n ++ (words ++ y)) : m = n ∧ x = y := by
  have hlists := congrArg String.toList h
  simp only [String.toList_append, hwords, Nat.toString_eq_repr, Nat.toList_repr,
    List.cons_append] at hlists
  obtain ⟨rfl, hrest⟩ := toDigits_append_inj (by decide) (by decide) hc hlists
  exact ⟨rfl, String.toList_inj.mp (List.append_cancel_left hrest)⟩

end Digits

namespace Quoted

/-! ### Escapes -/

/-- The marks behind a backslash, and the characters that they stand for. -/
def marks : List (Char × Char) :=
  [('0', '\x00'), ('t', '\t'), ('r', '\r'), ('n', '\n'), ('"', '"'), ('\\', '\\')]

/-- The ways in which a character is written between quotation marks. -/
inductive IsEscape (c : Char) : List Char → Prop
  | mark {mark : Char} (h : (mark, c) ∈ marks) : IsEscape c ['\\', mark]
  | alone (hquote : c ≠ '"') (hbackslash : c ≠ '\\') (halone : standsAlone c = true) :
    IsEscape c [c]
  | code : IsEscape c (codeEscape c)

theorem isEscape_escape (c : Char) : IsEscape c (escape c) := by
  rw [escape]
  split_ifs with hnull htab hreturn hfeed hquote hbackslash halone
  · subst hnull
    exact .mark (by decide)
  · subst htab
    exact .mark (by decide)
  · subst hreturn
    exact .mark (by decide)
  · subst hfeed
    exact .mark (by decide)
  · subst hquote
    exact .mark (by decide)
  · subst hbackslash
    exact .mark (by decide)
  · exact .alone hquote hbackslash halone
  · exact .code

theorem eq_of_mem_marks {mark c d : Char} (h : (mark, c) ∈ marks) (h' : (mark, d) ∈ marks) :
    c = d := by
  have hall : ∀ entry ∈ marks, ∀ entry' ∈ marks, entry.1 = entry'.1 → entry.2 = entry'.2 := by
    decide
  exact hall _ h _ h' rfl

theorem ne_u_of_mem_marks {mark c : Char} (h : (mark, c) ∈ marks) : mark ≠ 'u' := by
  have hall : ∀ entry ∈ marks, entry.1 ≠ 'u' := by decide
  exact hall _ h

theorem codeEscape_append (c : Char) (x : List Char) :
    codeEscape c ++ x =
      '\\' :: 'u' :: '\x7b' :: (Nat.toDigits 16 c.toNat ++ '\x7d' :: x) := by
  simp [codeEscape]

namespace IsEscape

variable {c d : Char} {text text' x y : List Char}

/-- An escape tells its character and where it ends. -/
theorem append_inj (h : IsEscape c text) (h' : IsEscape d text')
    (heq : text ++ x = text' ++ y) : c = d ∧ x = y := by
  -- The first character tells whether the escape is a character that stands for itself, and the
  -- second one of the others whether it is that of a code point.
  cases h with
  | mark hc =>
    cases h' with
    | mark hd =>
      simp only [List.cons_append, List.nil_append, List.cons.injEq, true_and] at heq
      obtain ⟨rfl, rfl⟩ := heq
      exact ⟨eq_of_mem_marks hc hd, rfl⟩
    | alone _ hbackslash => exact absurd (List.cons.inj heq).1.symm hbackslash
    | code =>
      rw [codeEscape_append] at heq
      exact absurd (List.cons.inj (List.cons.inj heq).2).1 (ne_u_of_mem_marks hc)
  | alone _ hbackslash =>
    cases h' with
    | mark hd => exact absurd (List.cons.inj heq).1 hbackslash
    | alone => exact List.cons.inj heq
    | code => exact absurd (List.cons.inj heq).1 hbackslash
  | code =>
    cases h' with
    | mark hd =>
      rw [codeEscape_append] at heq
      exact absurd (List.cons.inj (List.cons.inj heq).2).1.symm (ne_u_of_mem_marks hd)
    | alone _ hbackslash => exact absurd (List.cons.inj heq).1.symm hbackslash
    | code =>
      rw [codeEscape_append, codeEscape_append] at heq
      simp only [List.cons.injEq, true_and] at heq
      obtain ⟨hcode, hrest⟩ := toDigits_append_inj (by decide) (by decide) (by decide) heq
      exact ⟨Char.toNat_inj.mp hcode, hrest⟩

theorem append_ne_quote (h : IsEscape c text) : text ++ x ≠ '"' :: y := by
  intro heq
  cases h with
  | mark => exact absurd (List.cons.inj heq).1 (by decide)
  | alone hquote => exact hquote (List.cons.inj heq).1
  | code => exact absurd (List.cons.inj heq).1 (by decide)

end IsEscape

/-- Between quotation marks, the second mark ends the text. -/
theorem flatMap_escape_append_inj {a b x y : List Char}
    (h : a.flatMap escape ++ '"' :: x = b.flatMap escape ++ '"' :: y) : a = b ∧ x = y := by
  induction a generalizing b with
  | nil =>
    cases b with
    | nil => exact ⟨rfl, (List.cons.inj h).2⟩
    | cons d b =>
      rw [List.flatMap_cons, List.append_assoc] at h
      exact absurd h.symm (isEscape_escape d).append_ne_quote
  | cons c a ih =>
    rw [List.flatMap_cons, List.append_assoc] at h
    cases b with
    | nil => exact absurd h (isEscape_escape c).append_ne_quote
    | cons d b =>
      rw [List.flatMap_cons, List.append_assoc] at h
      obtain ⟨rfl, hrest⟩ := (isEscape_escape c).append_inj (isEscape_escape d) h
      obtain ⟨rfl, rfl⟩ := ih hrest
      exact ⟨rfl, rfl⟩

end Quoted

/-! ### Texts -/

section Texts

variable {a b x y : String}

theorem toList_quote_append (a x : String) :
    (quote a ++ x).toList = '"' :: (a.toList.flatMap Quoted.escape ++ '"' :: x.toList) := by
  simp [quote]

/-- A quoted text tells the text and where it ends. -/
theorem quote_append_inj (h : quote a ++ x = quote b ++ y) : a = b ∧ x = y := by
  rw [← String.toList_inj, toList_quote_append, toList_quote_append] at h
  obtain ⟨htext, hrest⟩ := Quoted.flatMap_escape_append_inj (List.cons.inj h).2
  exact ⟨String.toList_inj.mp htext, String.toList_inj.mp hrest⟩

/-- Other texts have other quoted forms. -/
theorem quote_inj : quote a = quote b ↔ a = b := by
  constructor
  · intro h
    exact (quote_append_inj (congrArg (· ++ "") h)).1
  · rintro rfl
    rfl

end Texts

/-- A wording with a quoted text in it. -/
structure Framed where
  /-- The words before the text. -/
  front : String
  /-- The text. -/
  text : String
  /-- The words behind the text. -/
  back : String

namespace Framed

variable {framed framed' : Framed}

/-- The whole wording. -/
def wording (framed : Framed) : String :=
  framed.front ++ (quote framed.text ++ framed.back)

/-- The words and the text can be told apart, whatever the text is, if the words before it have no
quotation mark. -/
theorem wording_inj (hfront : '"' ∉ framed.front.toList) (hfront' : '"' ∉ framed'.front.toList)
    (h : framed.wording = framed'.wording) : framed = framed' := by
  obtain ⟨front, text, back⟩ := framed
  obtain ⟨front', text', back'⟩ := framed'
  have hlists := congrArg String.toList h
  rw [wording, String.toList_append, toList_quote_append, wording, String.toList_append,
    toList_quote_append] at hlists
  obtain ⟨hsame, -⟩ := append_cons_inj hfront hfront' hlists
  obtain rfl : front = front' := String.toList_inj.mp hsame
  obtain ⟨rfl, rfl⟩ := quote_append_inj ((String.append_right_inj front).mp h)
  rfl

end Framed

/-! ### Characters that show -/

/-- A code point before the first range lies in none. -/
theorem CodeRange.covers_of_lt {code first : Nat} (h : code < first) (last : Nat)
    (rest : List CodeRange) : covers code ((first, last) :: rest) = false := by
  rw [covers, decide_eq_false (Nat.not_le.mpr h), Bool.false_and]

theorem CodeRange.covers_of_le {code first last : Nat} (hfirst : first ≤ code)
    (hlast : code ≤ last) (rest : List CodeRange) : covers code ((first, last) :: rest) = true := by
  rw [covers, decide_eq_true hfirst, decide_eq_true hlast, Bool.true_or, Bool.true_and]

/-- A code point behind the first range lies in one of the others, if it lies in any. -/
theorem CodeRange.covers_of_gt {code last : Nat} (h : last < code) {first : Nat}
    (hfirst : first ≤ last) (rest : List CodeRange) :
    covers code ((first, last) :: rest) = covers code rest := by
  rw [covers, decide_eq_true (by omega), decide_eq_false (Nat.not_le.mpr h), Bool.true_and,
    Bool.false_or]

/-- Neither a control, as the line feed is, nor a separator of lines or of paragraphs. -/
structure IsInline (c : Char) : Prop where
  /-- The controls are those of ASCII and those of Latin-1. -/
  notControl : ¬ (c.toNat < 0x20 ∨ 0x7F ≤ c.toNat ∧ c.toNat < 0xA0)
  /-- The separator of lines. -/
  ne_lineSeparator : c ≠ '\u2028'
  /-- The separator of paragraphs. -/
  ne_paragraphSeparator : c ≠ '\u2029'

namespace Quoted

/-- The characters of ASCII that are no controls. -/
def IsAscii (c : Char) : Prop :=
  0x20 ≤ c.toNat ∧ c.toNat < 0x7F

instance (c : Char) : Decidable (IsAscii c) :=
  inferInstanceAs (Decidable (_ ∧ _))

/-- Only such characters. -/
def AreAscii (text : List Char) : Prop :=
  ∀ c ∈ text, IsAscii c

instance (text : List Char) : Decidable (AreAscii text) :=
  List.decidableBAll _ text

theorem IsAscii.standsAlone {c : Char} (h : IsAscii c) : standsAlone c = true := by
  have hextend : isGraphemeExtend c = false :=
    CodeRange.covers_of_lt (by have := h.2; omega) _ _
  have hunprintable : isUnprintable c = false :=
    (CodeRange.covers_of_gt h.1 (by decide) _).trans (CodeRange.covers_of_lt h.2 _ _)
  have hignorable : isDefaultIgnorable c = false :=
    CodeRange.covers_of_lt (by have := h.2; omega) _ _
  rw [Quoted.standsAlone, hextend, hunprintable, hignorable]
  rfl

theorem isUnprintable_of_control {c : Char}
    (h : c.toNat < 0x20 ∨ 0x7F ≤ c.toNat ∧ c.toNat < 0xA0) : isUnprintable c = true := by
  rcases h with h | ⟨hfirst, hlast⟩
  · exact CodeRange.covers_of_le (Nat.zero_le _) (by omega) _
  · exact (CodeRange.covers_of_gt (by omega) (by decide) _).trans
      (CodeRange.covers_of_le hfirst (by omega) _)

/-- A character that shows is no control and separates no lines. -/
theorem isInline_of_standsAlone {c : Char} (h : standsAlone c = true) : IsInline c := by
  have hprintable : isUnprintable c ≠ true := by
    intro hunprintable
    rw [standsAlone, hunprintable] at h
    simp at h
  refine ⟨fun hcontrol => hprintable (isUnprintable_of_control hcontrol), ?_, ?_⟩
  · rintro rfl
    exact hprintable (by decide +kernel)
  · rintro rfl
    exact hprintable (by decide +kernel)

/-- Every character of a text shows, and stands beside the others. -/
def Shows (text : List Char) : Prop :=
  ∀ c ∈ text, standsAlone c = true

theorem Shows.isInline {text : List Char} (h : Shows text) : ∀ c ∈ text, IsInline c :=
  fun c hc => isInline_of_standsAlone (h c hc)

theorem Shows.append {a b : List Char} (ha : Shows a) (hb : Shows b) : Shows (a ++ b) :=
  List.forall_mem_append.mpr ⟨ha, hb⟩

theorem AreAscii.shows {text : List Char} (h : AreAscii text) : Shows text :=
  fun c hc => (h c hc).standsAlone

theorem shows_toDigits {b : Nat} (hb : 1 < b) (hb' : b ≤ 16) (n : Nat) :
    Shows (Nat.toDigits b n) := by
  have hall : ∀ d : Fin 16, IsAscii (Nat.digitChar d) := by decide
  apply AreAscii.shows
  intro c hc
  obtain ⟨d, hd, rfl⟩ := exists_of_mem_toDigits hb hc
  exact hall ⟨d, by omega⟩

theorem shows_toString (n : Nat) : Shows (toString n).toList := by
  rw [Nat.toString_eq_repr, Nat.toList_repr]
  exact shows_toDigits (by decide) (by decide) n

theorem IsEscape.shows {c : Char} {text : List Char} (h : IsEscape c text) : Shows text := by
  cases h with
  | mark hc =>
    have hall : ∀ entry ∈ marks, IsAscii entry.1 := by decide
    exact AreAscii.shows
      (List.forall_mem_cons.mpr ⟨by decide, List.forall_mem_singleton.mpr (hall _ hc)⟩)
  | alone _ _ halone => simpa [Shows] using halone
  | code =>
    rw [← List.append_nil (codeEscape c), codeEscape_append]
    have hfront : Shows ['\\', 'u', '\x7b'] := AreAscii.shows (by decide)
    have hback : Shows ['\x7d'] := AreAscii.shows (by decide)
    exact hfront.append ((shows_toDigits (by decide) (by decide) c.toNat).append hback)

/-- A quoted text shows, whatever the text is. -/
theorem shows_quote (text : String) : Shows (quote text).toList := by
  have hmark : Shows ['"'] := AreAscii.shows (by decide)
  have hinner : Shows (text.toList.flatMap escape) := by
    intro c hc
    obtain ⟨d, -, hd⟩ := List.mem_flatMap.mp hc
    exact (isEscape_escape d).shows c hd
  rw [quote, String.toList_ofList]
  exact (hmark.append hinner).append hmark

theorem shows_wording {framed : Framed} (hfront : Shows framed.front.toList)
    (hback : Shows framed.back.toList) : Shows framed.wording.toList := by
  rw [Framed.wording, String.toList_append, String.toList_append]
  exact hfront.append ((shows_quote framed.text).append hback)

end Quoted

end PathRouting.Text
