import PathRouting.Json.Skip
import PathRouting.Proofs.Text.Escaping

/-!
# The grammar of JSON

Which texts are values, and which spell a given text between quotation marks. Nothing here
refers to how a document is read.

A text can be spelled in many ways: a character stands for itself, or for a character there is
an escape of one mark or of one or two UTF-16 units. In a value that means nothing a text
stands for nothing, so there the escape of a unit may be half of a character.

## Main definitions

* `Json.IsBlanks` — blanks only
* `Json.Spells` — a way to spell a text between quotation marks
* `Json.IsBody` — anything that may stand between quotation marks
* `Json.IsNumber` — a number
* `Json.Item` / `Json.Inside` — what stands between brackets
* `Json.IsValue` — a value
-/

namespace PathRouting.Json

open Text.Percent (IsDigit)

/-- Blanks only. -/
def IsBlanks (text : List Char) : Prop :=
  ∀ c ∈ text, c ∈ [' ', '\t', '\r', '\n']

instance (text : List Char) : Decidable (IsBlanks text) :=
  List.decidableBAll _ text

/-! ### Texts -/

/-- The characters that may stand for themselves between quotation marks. -/
def IsPlain (c : Char) : Prop :=
  ' ' ≤ c ∧ c ≠ '"' ∧ c ≠ '\\'

instance (c : Char) : Decidable (IsPlain c) :=
  inferInstanceAs (Decidable (_ ∧ _))

/-- The escapes of one mark, and the characters that they stand for. -/
def marks : List (Char × Char) :=
  [('"', '"'), ('\\', '\\'), ('/', '/'), ('b', '\x08'), ('f', '\x0c'), ('n', '\n'), ('r', '\r'),
    ('t', '\t')]

/-- The four hexadecimal digits of a UTF-16 unit. -/
inductive UnitDigits : Nat → List Char → Prop
  | intro {a b c d : Fin 16} {p q r s : Char} (ha : IsDigit a.val p) (hb : IsDigit b.val q)
    (hc : IsDigit c.val r) (hd : IsDigit d.val s) :
    UnitDigits (((a.val * 16 + b.val) * 16 + c.val) * 16 + d.val) [p, q, r, s]

/-- What follows the backslash in an escape of a character. A character outside of the first
plane has no unit of its own and takes two. -/
inductive IsEscape : Char → List Char → Prop
  | mark {mark c : Char} (h : (mark, c) ∈ marks) : IsEscape c [mark]
  | unit {c : Char} {digits : List Char} (h : UnitDigits c.toNat digits) :
    IsEscape c ('u' :: digits)
  | pair {c : Char} {high low : List Char} (hc : 0x10000 ≤ c.toNat)
    (hhigh : UnitDigits (0xD800 + (c.toNat - 0x10000) / 0x400) high)
    (hlow : UnitDigits (0xDC00 + (c.toNat - 0x10000) % 0x400) low) :
    IsEscape c ('u' :: (high ++ '\\' :: 'u' :: low))

/-- A way to spell a text between quotation marks. -/
inductive Spells : List Char → List Char → Prop
  | nil : Spells [] []
  | plain {c : Char} {text raw : List Char} (hc : IsPlain c) (rest : Spells text raw) :
    Spells (c :: text) (c :: raw)
  | escaped {c : Char} {escape text raw : List Char} (hescape : IsEscape c escape)
    (rest : Spells text raw) : Spells (c :: text) ('\\' :: (escape ++ raw))

namespace Spells

variable {text text' raw raw' : List Char}

/-- Where no character needs an escape, a text spells itself. -/
theorem of_isPlain (h : ∀ c ∈ text, IsPlain c) : Spells text text := by
  induction text with
  | nil => exact .nil
  | cons c text ih =>
    rw [List.forall_mem_cons] at h
    exact .plain h.1 (ih h.2)

theorem append (h : Spells text raw) (h' : Spells text' raw') :
    Spells (text ++ text') (raw ++ raw') := by
  induction h with
  | nil => exact h'
  | plain hc _ ih => exact .plain hc ih
  | escaped hescape _ ih =>
    rw [List.cons_append, List.cons_append, List.append_assoc]
    exact .escaped hescape ih

end Spells

/-- Anything that may stand between quotation marks. -/
inductive IsBody : List Char → Prop
  | nil : IsBody []
  | plain {c : Char} {raw : List Char} (hc : IsPlain c) (rest : IsBody raw) : IsBody (c :: raw)
  | mark {mark c : Char} {raw : List Char} (h : (mark, c) ∈ marks) (rest : IsBody raw) :
    IsBody ('\\' :: mark :: raw)
  | unit {unit : Nat} {digits raw : List Char} (h : UnitDigits unit digits)
    (rest : IsBody raw) : IsBody ('\\' :: 'u' :: (digits ++ raw))

/-! ### Numbers -/

/-- Digits, at least one. -/
def AreDigits (text : List Char) : Prop :=
  text ≠ [] ∧ ∀ c ∈ text, c.isDigit = true

/-- The digits before the point. A zero stands alone. -/
def IsWhole (text : List Char) : Prop :=
  text = ['0'] ∨ AreDigits text ∧ text.head? ≠ some '0'

/-- A point and digits, or nothing. -/
def IsFraction (text : List Char) : Prop :=
  text = [] ∨ ∃ digits, AreDigits digits ∧ text = '.' :: digits

/-- The letter of an exponent, a sign or none, and digits; or nothing. -/
inductive IsExponent : List Char → Prop
  | absent : IsExponent []
  | present {letter : Char} {sign digits : List Char} (hletter : letter ∈ ['e', 'E'])
    (hsign : sign ∈ [[], ['+'], ['-']]) (hdigits : AreDigits digits) :
    IsExponent (letter :: (sign ++ digits))

/-- A number without its sign. -/
inductive IsUnsigned : List Char → Prop
  | intro {whole fraction exponent : List Char} (hwhole : IsWhole whole)
    (hfraction : IsFraction fraction) (hexponent : IsExponent exponent) :
    IsUnsigned (whole ++ (fraction ++ exponent))

/-- A number. -/
inductive IsNumber : List Char → Prop
  | positive {text : List Char} (h : IsUnsigned text) : IsNumber text
  | negative {text : List Char} (h : IsUnsigned text) : IsNumber ('-' :: text)

/-! ### Brackets -/

/-- The bracket that opens a frame. -/
def Frame.opening : Frame → Char
  | list => '['
  | object => '\x7b'

/-- A key and its colon, with what stands between its quotation marks. -/
inductive IsKey (body : List Char → Prop) : List Char → Prop
  | intro {front raw back blanks : List Char} (hfront : IsBlanks front) (hraw : body raw)
    (hback : IsBlanks back) (hblanks : IsBlanks blanks) :
    IsKey body (front ++ '"' :: (raw ++ '"' :: (back ++ ':' :: blanks)))

/-- What stands before the value of an item: blanks in a list, a key in an object. -/
def Frame.IsLead (body : List Char → Prop) : Frame → List Char → Prop
  | list => IsBlanks
  | object => IsKey body

/-- An item of a list or a member of an object. -/
structure Item where
  /-- What stands before the value. -/
  lead : List Char
  /-- The value. -/
  value : List Char
  /-- The blanks behind the value. -/
  after : List Char

/-- The text of an item. -/
def Item.text (item : Item) : List Char :=
  item.lead ++ (item.value ++ item.after)

/-- The text of some items with commas between them. -/
def Item.joined (items : List Item) : List Char :=
  List.intercalate [','] (items.map Item.text)

/-- What stands between two brackets: some items, or blanks only. -/
inductive Inside : List Item → List Char → Prop
  | blanks {text : List Char} (h : IsBlanks text) : Inside [] text
  | items {items : List Item} (h : items ≠ []) : Inside items (Item.joined items)

/-! ### Values -/

/-- The words that are values. -/
def words : List (List Char) :=
  [['n', 'u', 'l', 'l'], ['t', 'r', 'u', 'e'], ['f', 'a', 'l', 's', 'e']]

/-- A value. -/
inductive IsValue : List Char → Prop
  | word {text : List Char} (h : text ∈ words) : IsValue text
  | number {text : List Char} (h : IsNumber text) : IsValue text
  | string {raw : List Char} (h : IsBody raw) : IsValue ('"' :: (raw ++ ['"']))
  | enclosed {frame : Frame} {items : List Item} {inner : List Char}
    (hinside : Inside items inner) (hlead : ∀ item ∈ items, frame.IsLead IsBody item.lead)
    (hvalue : ∀ item ∈ items, IsValue item.value) (hafter : ∀ item ∈ items, IsBlanks item.after) :
    IsValue (frame.opening :: (inner ++ [frame.closing]))

end PathRouting.Json
