import PathRouting.Decimal.Shortest

/-!
# The written form of a floating-point number

A number is written by the digits of its shortest decimal, with a point among them or, if it
is very large or very small, with a power of ten behind them.

## Main definitions

* `Layout` — which numbers are written without a power of ten
* `Layout.writePower` — the written form of a power of ten
* `Layout.writeDecimal` — the written form of a decimal
* `Layout.write` — the written form of a double
-/

namespace PathRouting

/-- Which numbers are written without a power of ten, by the power of ten of their first
digit. -/
structure Layout where
  /-- The least power of a first digit. -/
  least : Int
  /-- The greatest power of a first digit. -/
  greatest : Int

namespace Layout

/-- The written form of a power of ten. Its sign is always there. -/
def writePower (power : Int) : List Char :=
  'e' :: (if power < 0 then '-' else '+') :: Nat.toDigits 10 power.natAbs

/-- The written form of a decimal. Without a power of ten it has a digit on both sides of the
point; with one, a single digit before the point, and no point if there are no more. -/
def writeDecimal (layout : Layout) (d : Decimal) : List Char :=
  let digits := Nat.toDigits 10 d.digits
  let places := digits.length + d.exponent
  if layout.least < places && places ≤ layout.greatest + 1 then
    if 0 ≤ d.exponent then
      digits ++ List.replicate d.exponent.toNat '0' ++ ['.', '0']
    else if 0 < places then
      digits.take places.toNat ++ '.' :: digits.drop places.toNat
    else
      '0' :: '.' :: List.replicate (-places).toNat '0' ++ digits
  else
    let power := writePower (places - 1)
    match digits with
    | first :: second :: more => first :: '.' :: second :: more ++ power
    | short => short ++ power

/-- The written form of a finite double. -/
def write (layout : Layout) (x : Float) : String :=
  let bits := x.toBits
  let sign := if bits.toNat / Nat.pow 2 63 = 1 then ['-'] else []
  if bits.toNat % Nat.pow 2 63 = 0 then String.ofList (sign ++ ['0', '.', '0'])
  else String.ofList (sign ++ layout.writeDecimal (Binary.ofBits bits).shortest)

end Layout

end PathRouting
