/-!
# Percent escapes

An escape is a percent sign and two hexadecimal digits of either case, and stands for the
byte with that value. A percent sign that begins no escape stands for itself.

## Main definitions

* `Percent.hexValue?` — the value of a hexadecimal digit
* `Percent.escaped?` — the byte that an escape stands for
* `Percent.unescape` — bytes with their escapes replaced
-/

namespace PathRouting.Text.Percent

/-- The percent sign. -/
def sign : UInt8 := 0x25

/-- The value of a byte that is a hexadecimal digit. -/
def hexValue? (b : UInt8) : Option UInt8 :=
  if 0x30 ≤ b && b ≤ 0x39 then some (b - 0x30)
  else if 0x41 ≤ b && b ≤ 0x46 then some (b - 0x37)
  else if 0x61 ≤ b && b ≤ 0x66 then some (b - 0x57)
  else none

/-- The byte that three bytes stand for, if they are an escape. -/
def escaped? (first high low : UInt8) : Option UInt8 :=
  if first = sign then
    match hexValue? high, hexValue? low with
    | some h, some l => some (16 * h + l)
    | _, _ => none
  else none

/-- The bytes with each escape replaced by the byte it stands for, from left to right. After
a percent sign that begins no escape, reading goes on at the next byte; fewer than three
bytes hold no escape. -/
def unescape : List UInt8 → List UInt8
  | first :: high :: low :: rest =>
    match escaped? first high low with
    | some b => b :: unescape rest
    | none => first :: unescape (high :: low :: rest)
  | short => short

end PathRouting.Text.Percent
