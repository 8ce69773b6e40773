import PathRouting.Decimal.Layout
import PathRouting.Json.Fault

/-!
# Numbers in a JSON document

A number has whole digits, and possibly a fraction and an exponent. Reading one only follows
its form; its value is worked out from the digits afterwards.

The value of a number with a fraction or an exponent is a floating-point number. It is made
from the leading digits that fit into a machine word, scaled once by a power of ten; the
digits that no longer fit count as zeros.

## Main definitions

* `Json.Numeral` — the digits of a number
* `Json.readNumeral` — the number at the front of a text, after its sign
* `Json.Numeral.value` — what a number stands for

## Main results

* `Json.readNumeral_lt` — what is left is shorter than the text
-/

namespace PathRouting.Json

/-- The digits after the letter that marks an exponent. -/
structure Exponent where
  /-- Whether the exponent has a minus sign. -/
  isNegative : Bool
  /-- The digits. -/
  digits : List Char
deriving DecidableEq

/-- The digits of a number without its sign. -/
structure Numeral where
  /-- The digits before the point. -/
  whole : List Char
  /-- The digits behind the point, if there is one. -/
  fraction : Option (List Char)
  /-- The exponent, if there is one. -/
  exponent : Option Exponent
deriving DecidableEq

/-! ### Reading -/

/-- The digits before the point. A zero stands alone. A text that ends before them has the
fault `atEnd`. -/
def readWhole (atEnd : Cause) (text : List Char) :
    Except Fault (List Char × List Char) :=
  match text with
  | [] => faultAt atEnd []
  | c :: rest =>
    if !c.isDigit then faultAfter 1 .invalidNumber text
    else if c = '0' then
      match rest with
      | [] => .ok ([c], rest)
      | d :: _ => if d.isDigit then faultAfter 1 .invalidNumber rest else .ok ([c], rest)
    else .ok (text.takeWhile Char.isDigit, text.dropWhile Char.isDigit)

/-- The digits at the front of a text, which has to have one there. -/
def readDigits (atEnd : Cause) (text : List Char) :
    Except Fault (List Char × List Char) :=
  match text with
  | [] => faultAt atEnd []
  | c :: _ =>
    if c.isDigit then .ok (text.takeWhile Char.isDigit, text.dropWhile Char.isDigit)
    else faultAfter 1 .invalidNumber text

/-- The fraction at the front of a text, if a point is there. -/
def readFraction (atEnd : Cause) (text : List Char) :
    Except Fault (Option (List Char) × List Char) :=
  match text with
  | [] => .ok (none, text)
  | c :: rest =>
    if c = '.' then do
      let (digits, rest) ← readDigits atEnd rest
      .ok (some digits, rest)
    else .ok (none, text)

/-- The text after a sign, and whether the sign is a minus. -/
def splitSign : List Char → Bool × List Char
  | [] => (false, [])
  | c :: rest =>
    if c = '-' then (true, rest) else if c = '+' then (false, rest) else (false, c :: rest)

/-- The exponent at the front of a text, if its letter is there. -/
def readExponent (atEnd : Cause) (text : List Char) :
    Except Fault (Option Exponent × List Char) :=
  match text with
  | [] => .ok (none, text)
  | c :: rest =>
    if c = 'e' || c = 'E' then do
      let (digits, left) ← readDigits atEnd (splitSign rest).2
      .ok (some ⟨(splitSign rest).1, digits⟩, left)
    else .ok (none, text)

/-- The number at the front of a text, after its sign. A text that ends where a digit
belongs has the fault `atEnd`. -/
def readNumeral (atEnd : Cause) (text : List Char) :
    Except Fault (Numeral × List Char) := do
  let (whole, rest) ← readWhole atEnd text
  let (fraction, rest) ← readFraction atEnd rest
  let (exponent, rest) ← readExponent atEnd rest
  .ok (⟨whole, fraction, exponent⟩, rest)

/-! ### Value -/

/-- The greatest machine word. -/
def maxWord : Nat := Nat.pow 2 64 - 1

/-- The greatest exponent that is read. -/
def maxExponent : Nat := Nat.pow 2 31 - 1

/-- The value of a digit. -/
def digitValue (c : Char) : Nat :=
  c.toNat - '0'.toNat

/-- The number that `significand` grows to as digits are put behind it, up to the first one
with which it would exceed `bound`, and the digits from there on. -/
def absorb (bound significand : Nat) : List Char → Nat × List Char
  | [] => (significand, [])
  | c :: rest =>
    let grown := significand * 10 + digitValue c
    if grown ≤ bound then absorb bound grown rest else (significand, c :: rest)

/-- A power of ten that a double holds, rounded to nearest. -/
def powerOfTen (n : Nat) : Float :=
  Float.ofScientific 1 false n

/-- A number divided by a power of ten, in steps that a double holds. -/
def scaleDown (x : Float) (n : Nat) : Float :=
  if n ≤ 308 then x / powerOfTen n
  else if x == 0 then x
  else scaleDown (x / powerOfTen 308) (n - 308)
termination_by n

/-- A number times a power of ten, if it is finite. -/
def scaleUp? (x : Float) (n : Nat) : Option Float :=
  if n ≤ 308 then
    let y := x * powerOfTen n
    if y.isInf then none else some y
  else if x == 0 then some x
  else none

/-- A number times or divided by a power of ten, if it is finite. -/
def scale? (x : Float) (power : Int) : Option Float :=
  if 0 ≤ power then scaleUp? x power.toNat else some (scaleDown x (-power).toNat)

/-- Numbers are written without a power of ten from `1e-5` to below `1e+16`. -/
def numberLayout : Layout := ⟨-5, 15⟩

/-- A floating-point number as a value. -/
def Found.ofFloat (x : Float) : Found :=
  .floatingPoint (numberLayout.write x)

namespace Numeral

/-- The leading digits that fit into a machine word, and the power of ten that they are to be
scaled by without an exponent. Whole digits that do not fit raise the power, and digits of
the fraction that do fit lower it. -/
def leading (n : Numeral) : Nat × Int :=
  let (significand, dropped) := absorb maxWord 0 n.whole
  let fraction := n.fraction.getD []
  let (significand, unused) := absorb maxWord significand fraction
  (significand, dropped.length - ((fraction.length : Int) - unused.length))

/-- The floating-point number that a number stands for, or the number of its characters that
were not needed to see that it is too large. An exponent that is too large to be read leaves
zero as it is, and makes all else zero or too large. -/
def toFloat (n : Numeral) (isNegative : Bool) : Except Nat Float :=
  let sign (x : Float) : Float := if isNegative then -x else x
  let (significand, power) := n.leading
  let x := significand.toUInt64.toFloat
  let scaled (power : Int) : Except Nat Float :=
    match scale? x power with
    | some y => .ok (sign y)
    | none => .error 0
  match n.exponent with
  | none => scaled power
  | some exponent =>
    match absorb maxExponent 0 exponent.digits with
    | (size, []) => scaled (if exponent.isNegative then power - size else power + size)
    | (_, _ :: unread) =>
      -- The exponent alone decides, however many digits the number has.
      if significand != 0 && !exponent.isNegative then .error unread.length else .ok (sign 0)

/-- The integer that a number stands for, if it has neither fraction nor exponent and a
machine word holds it. There is no negative zero among the integers. -/
def toInt? (n : Numeral) (isNegative : Bool) : Option Int :=
  match n.fraction, n.exponent, absorb maxWord 0 n.whole with
  | none, none, (size, []) =>
    if !isNegative then some size
    else if size = 0 || Nat.pow 2 63 < size then none
    else some (-size)
  | _, _, _ => none

/-- What a number stands for, or the number of its characters that were not needed to see
that it is too large. -/
def value (n : Numeral) (isNegative : Bool) : Except Nat Found :=
  match n.toInt? isNegative with
  | some i => .ok (.integer i)
  | none => Found.ofFloat <$> n.toFloat isNegative

end Numeral

/-! ### What is left -/

theorem length_dropWhile_lt {c : Char} {rest : List Char} (h : c.isDigit = true) :
    ((c :: rest).dropWhile Char.isDigit).length < (c :: rest).length := by
  rw [List.dropWhile_cons_of_pos h, List.length_cons]
  exact Nat.lt_succ_of_le (List.dropWhile_suffix _).length_le

/-- There is a digit at least in front of the point. -/
theorem readWhole_lt {atEnd : Cause} {text digits rest : List Char}
    (h : readWhole atEnd text = .ok (digits, rest)) : rest.length < text.length := by
  unfold readWhole at h
  split at h
  · simp at h
  · rename_i c after
    split at h
    · simp at h
    · rename_i hc
      have hc : c.isDigit = true := by simpa using hc
      split at h
      · split at h
        · obtain ⟨-, rfl⟩ : _ ∧ [] = rest := by simpa using h
          simp
        · split at h
          · simp at h
          · obtain ⟨-, rfl⟩ : _ ∧ _ = rest := by simpa using h
            simp
      · obtain ⟨-, rfl⟩ : _ ∧ _ = rest := by simpa using h
        exact length_dropWhile_lt hc

theorem readDigits_lt {atEnd : Cause} {text digits rest : List Char}
    (h : readDigits atEnd text = .ok (digits, rest)) : rest.length < text.length := by
  unfold readDigits at h
  split at h
  · simp at h
  · split at h
    · rename_i hc
      obtain ⟨-, rfl⟩ : _ ∧ _ = rest := by simpa using h
      exact length_dropWhile_lt hc
    · simp at h

/-- A fraction may be missing, and then nothing is taken off. -/
theorem readFraction_le {atEnd : Cause} {text rest : List Char} {fraction : Option (List Char)}
    (h : readFraction atEnd text = .ok (fraction, rest)) : rest.length ≤ text.length := by
  unfold readFraction at h
  split at h
  · obtain ⟨-, rfl⟩ : _ ∧ [] = rest := by simpa using h
    simp
  · split at h
    · obtain ⟨⟨digits, left⟩, hdigits, h⟩ := bind_eq_ok_iff.mp h
      obtain ⟨-, rfl⟩ : _ ∧ left = rest := by simpa using h
      have := readDigits_lt hdigits
      simp only [List.length_cons]
      omega
    · obtain ⟨-, rfl⟩ : _ ∧ _ = rest := by simpa using h
      simp

theorem splitSign_le (text : List Char) : (splitSign text).2.length ≤ text.length := by
  fun_cases splitSign text <;> simp

theorem readExponent_le {atEnd : Cause} {text rest : List Char} {exponent : Option Exponent}
    (h : readExponent atEnd text = .ok (exponent, rest)) : rest.length ≤ text.length := by
  unfold readExponent at h
  split at h
  · obtain ⟨-, rfl⟩ : _ ∧ [] = rest := by simpa using h
    simp
  · rename_i c after
    split at h
    · obtain ⟨⟨digits, left⟩, hdigits, h⟩ := bind_eq_ok_iff.mp h
      obtain ⟨-, rfl⟩ : _ ∧ left = rest := by simpa using h
      have := readDigits_lt hdigits
      have := splitSign_le after
      simp only [List.length_cons]
      omega
    · obtain ⟨-, rfl⟩ : _ ∧ _ = rest := by simpa using h
      simp

/-- A numeral takes at least one digit off the text. -/
theorem readNumeral_lt {atEnd : Cause} {text rest : List Char} {n : Numeral}
    (h : readNumeral atEnd text = .ok (n, rest)) : rest.length < text.length := by
  obtain ⟨⟨whole, rest₁⟩, hwhole, h⟩ := bind_eq_ok_iff.mp h
  obtain ⟨⟨fraction, rest₂⟩, hfraction, h⟩ := bind_eq_ok_iff.mp h
  obtain ⟨⟨exponent, rest₃⟩, hexponent, h⟩ := bind_eq_ok_iff.mp h
  obtain ⟨-, rfl⟩ : _ ∧ rest₃ = rest := by simpa using h
  have := readWhole_lt hwhole
  have := readFraction_le hfraction
  have := readExponent_le hexponent
  omega

end PathRouting.Json
